import StackToGo.Proofs.Blocks.Cleanup
import Mathlib.Data.Fintype.Card
import Mathlib.Data.List.Chain
import Mathlib.Data.Set.Finite.Basic
import Mathlib.Order.WellFounded

/-!
# Blocks in normal form

`NormalForm` says what blocks look like when there is nothing left to clean up, without a word
about passes: every label is jumped to, no jump goes to the next block, no block is unreachable, no
two blocks could be one, and only jumps that go round in a circle are not sent on.
`simplify_normalForm`: what clean-up leaves is of this form, and cleaning it up once more takes one
round and changes nothing.

The passes undo each other's work, so the form is read off from the last round. It has changed
nothing, so all passes have seen the same blocks, and each has found nothing to do in them.
-/

namespace StackToGo.Go

open Relation

variable {σ ε : Type}

/-! ## The form -/

/-- The label is that of a block without statements that jumps on to `target`. -/
def HopsOn (blocks : List (Block σ ε)) (label target : String) : Prop :=
  (⟨some label, [], .jump target⟩ : Block σ ε) ∈ blocks

/-- Following jumps from the label never leaves blocks without statements: they go round in a
circle. -/
structure Circles (blocks : List (Block σ ε)) (label : String) : Prop where
  stays : ∀ last, ReflTransGen (HopsOn blocks) label last → ∃ next, HopsOn blocks last next
  returns : ∃ last, ReflTransGen (HopsOn blocks) label last ∧ TransGen (HopsOn blocks) last last

/-- There is nothing to clean up. -/
structure NormalForm (blocks : List (Block σ ε)) : Prop where
  unique : (blockLabels blocks).Nodup
  /-- Every label is that of an exit. -/
  named : ∀ label ∈ blockLabels blocks, label ∈ exitTargets blocks
  defined : ∀ target ∈ exitTargets blocks, target ∈ blockLabels blocks
  /-- No jump goes to the block right after it. -/
  noAdjacentJump : blocks.IsChain fun b next =>
    ∀ target, b.exit = .jump target → next.label ≠ some target
  /-- Control can go on to a block without a label. -/
  entered : blocks.IsChain fun b next => next.label = none → b.exit.fallsThrough
  /-- A block that falls through does so to a label. -/
  separate : blocks.IsChain fun b next => b.exit = .fallThrough → next.label ≠ none
  noBlank : ∀ b ∈ blocks, b.label = none → b.statements = [] → b.exit ≠ .fallThrough
  /-- An exit names a block that only jumps on if no other block can be named instead. -/
  threaded : ∀ label ∈ exitTargets blocks, ∀ target, HopsOn blocks label target →
    Circles blocks label

/-! ## Passes that find nothing to do -/

section Idle

variable {blocks rest : List (Block σ ε)} {b : Block σ ε}

/-- If a round changes nothing, no pass would change anything on its own. -/
theorem passes_idle_of_round (h : (round blocks).2 = 0) :
    (threadJumps blocks).2 = 0 ∧ (dropAdjacentJumps blocks).2 = 0 ∧ (dropDeadLabels blocks).2 = 0 ∧
      (dropUnreachable blocks).2 = 0 ∧ (mergeFallThrough blocks).2 = 0 := by
  simp only [round, Nat.add_eq_zero_iff] at h
  obtain ⟨⟨⟨⟨h₁, h₂⟩, h₃⟩, h₄⟩, h₅⟩ := h
  rw [threadJumps_eq_self h₁] at h₂ h₃ h₄ h₅
  rw [dropAdjacentJumps_eq_self h₂] at h₃ h₄ h₅
  rw [dropDeadLabels_eq_self h₃] at h₄ h₅
  rw [dropUnreachable_eq_self h₄] at h₅
  exact ⟨h₁, h₂, h₃, h₄, h₅⟩

/-- With no jump to the next block left to remove, no block jumps to the next one. -/
theorem isChain_of_dropAdjacentJumps (h : (dropAdjacentJumps blocks).2 = 0) :
    blocks.IsChain fun b next => ∀ target, b.exit = .jump target → next.label ≠ some target := by
  fun_induction dropAdjacentJumps blocks with
  | case1 => exact .nil
  | case2 b => exact .singleton b
  | case3 b next rest tail n hrec hjump ih => cases h
  | case4 b next rest tail n hrec hjump ih =>
    rw [hrec] at ih
    refine List.isChain_cons_cons.2 ⟨fun target hexit hlabel => hjump ?_, ih h⟩
    exact Exit.jumpsTo_iff.2 ⟨target, hexit, hlabel⟩

/-- With no label left to remove, every label is named. -/
theorem named_of_dropDeadLabels (h : (dropDeadLabels blocks).2 = 0) :
    ∀ label ∈ blockLabels blocks, label ∈ exitTargets blocks := by
  intro label hlabel
  obtain ⟨b, hb, hbl⟩ := mem_blockLabels.1 hlabel
  have hdead : ¬ b.labelIsDead (exitTargets blocks) = true := List.countP_eq_zero.1 h b hb
  simpa [Block.labelIsDead, hbl] using hdead

/-- Where all blocks can be entered, a block without a label follows one that goes on to it. -/
theorem isChain_of_reachableAfter (h : reachableAfter b.exit.fallsThrough rest = rest) :
    (b :: rest).IsChain fun b next => next.label = none → b.exit.fallsThrough := by
  induction rest generalizing b with
  | nil => exact .singleton b
  | cons next rest ih =>
    rw [reachableAfter] at h
    split at h
    · -- A block that is left out makes the list shorter.
      have hlength := (reachableAfter_sublist b.exit.fallsThrough rest).length_le
      rw [h, List.length_cons] at hlength
      omega
    · next hkept =>
      refine List.isChain_cons_cons.2 ⟨fun hlabel => ?_, ih (List.cons.inj h).2⟩
      simpa [hlabel] using hkept

/-- With no unreachable block left to remove, a block without a label follows one that goes on to
it. -/
theorem isChain_of_dropUnreachable (h : (dropUnreachable blocks).2 = 0) :
    blocks.IsChain fun b next => next.label = none → b.exit.fallsThrough := by
  cases blocks with
  | nil => exact .nil
  | cons b rest =>
    have heq := dropUnreachable_eq_self h
    rw [dropUnreachable_cons] at heq
    exact isChain_of_reachableAfter (List.cons.inj heq).2

/-- Blocks that are not joined: none falls through to a block without a label, and none but the
last is blank. -/
theorem isChain_of_joinBlocks (h : joinBlocks b rest = b :: rest) :
    (b :: rest).IsChain fun b next => (b.exit = .fallThrough → next.label ≠ none) ∧
      (b.label = none → b.statements = [] → b.exit ≠ .fallThrough) := by
  induction rest generalizing b with
  | nil => exact .singleton b
  | cons next rest ih =>
    rw [joinBlocks] at h
    split at h
    · have hlength := length_joinBlocks_le
        { b with statements := b.statements ++ next.statements, exit := next.exit } rest
      rw [h, List.length_cons, List.length_cons] at hlength
      omega
    · next hjoin =>
      split at h
      · have hlength := length_joinBlocks_le next rest
        rw [h, List.length_cons, List.length_cons] at hlength
        omega
      · next hblank =>
        refine List.isChain_cons_cons.2
          ⟨⟨fun hexit hlabel => hjoin ?_, fun hlabel hempty hexit => hblank ?_⟩,
            ih (List.cons.inj h).2⟩
        · rw [hexit, hlabel]; rfl
        · rw [hexit, hlabel, hempty]; rfl

/-- With nothing left to join, a block that only falls through is followed by a label, and is not
empty unless it has one. -/
theorem isChain_of_mergeFallThrough (h : (mergeFallThrough blocks).2 = 0) :
    blocks.IsChain fun b next => (b.exit = .fallThrough → next.label ≠ none) ∧
      (b.label = none → b.statements = [] → b.exit ≠ .fallThrough) := by
  cases blocks with
  | nil => exact .nil
  | cons b rest => exact isChain_of_joinBlocks (mergeFallThrough_eq_self h)

/-- What holds of all blocks that another one follows, and of the last, holds of all. -/
theorem forall_of_isChain_of_getLast? {p : Block σ ε → Prop}
    (hchain : blocks.IsChain fun b _ => p b) (hlast : ∀ b ∈ blocks.getLast?, p b) :
    ∀ b ∈ blocks, p b := by
  induction blocks with
  | nil => simp
  | cons c rest ih =>
    cases rest with
    | nil => simpa using hlast
    | cons next rest =>
      rw [List.isChain_cons_cons] at hchain
      rw [List.getLast?_cons_cons] at hlast
      exact List.forall_mem_cons.2 ⟨hchain.1, ih hchain.2 hlast⟩

end Idle

/-! ## Circles -/

section Circles

variable {blocks : List (Block σ ε)} {label last : String}

/-- A block that hops on has a label. -/
theorem mem_blockLabels_of_hopsOn {target : String} (h : HopsOn blocks label target) :
    label ∈ blockLabels blocks :=
  mem_blockLabels.2 ⟨_, h, rfl⟩

/-- A block that jumps on to another label is where the pass hops on from. -/
theorem lookup_forwards_of_hopsOn (hnd : (blockLabels blocks).Nodup) {target : String}
    (h : HopsOn blocks label target) (hne : label ≠ target) :
    (forwards blocks).lookup label = some target := by
  obtain ⟨front, later, rfl⟩ := List.append_of_mem h
  refine (lookup_forwards_eq_some_iff hnd).2 ⟨hne, later, ?_⟩
  exact enter_eq_of_nodup hnd rfl (List.suffix_append _ _)

/-- Every entry of the table of hops is a block that hops on. -/
theorem hopsOn_of_lookup_forwards (hnd : (blockLabels blocks).Nodup) {target : String}
    (h : (forwards blocks).lookup label = some target) : HopsOn blocks label target := by
  obtain ⟨-, later, henter⟩ := (lookup_forwards_eq_some_iff hnd).1 h
  exact (enter_suffix blocks label).subset (henter ▸ List.mem_cons_self)

/-- A label from which jumps come to an end leads there. A block on the way that jumps to itself
would be the end of the way, and there is none, since every label has one block only. -/
theorem leadsIn_of_reflTransGen (hnd : (blockLabels blocks).Nodup)
    (hlast : ∀ next, ¬ HopsOn blocks last next) (h : ReflTransGen (HopsOn blocks) label last) :
    ∃ k, LeadsIn (forwards blocks) k label last := by
  induction h using ReflTransGen.head_induction_on with
  | refl =>
    refine ⟨0, ?_, rfl⟩
    rw [Option.eq_none_iff_forall_ne_some]
    intro next hnext
    exact hlast next (hopsOn_of_lookup_forwards hnd hnext)
  | @head label next hhop _ ih =>
    obtain ⟨k, hlead⟩ := ih
    by_cases hne : label = next
    · exact ⟨k, hne ▸ hlead⟩
    · exact ⟨k + 1, next, lookup_forwards_of_hopsOn hnd hhop hne, hlead⟩

/-- There are finitely many labels, so a way that never ends comes back to one of them. -/
theorem exists_return {step : String → String → Prop} {labels : List String}
    (hlabels : ∀ l next, step l next → l ∈ labels)
    (h : ∀ last, ReflTransGen step label last → ∃ next, step last next) :
    ∃ last, ReflTransGen step label last ∧ TransGen step last last := by
  by_contra hnone
  rw [not_exists] at hnone
  have hsubset : {l | ReflTransGen step label l} ⊆ {l | l ∈ labels} := by
    intro l hl
    obtain ⟨next, hnext⟩ := h l hl
    exact hlabels l next hnext
  have hfinite : Finite {l // ReflTransGen step label l} :=
    (labels.finite_toSet.subset hsubset).to_subtype
  let Onward (l l' : {l // ReflTransGen step label l}) : Prop := TransGen step l'.1 l.1
  have htrans : IsTrans _ Onward := ⟨fun _ _ _ h₁ h₂ => h₂.trans h₁⟩
  have hirrefl : Std.Irrefl Onward := ⟨fun l hl => hnone l.1 ⟨l.2, hl⟩⟩
  -- Among finitely many labels one would be the furthest, but the way goes on from there.
  obtain ⟨furthest, -, hmin⟩ :=
    (Finite.wellFounded_of_trans_of_irrefl Onward).has_min Set.univ ⟨⟨label, .refl⟩, trivial⟩
  obtain ⟨next, hnext⟩ := h furthest.1 furthest.2
  exact hmin ⟨next, furthest.2.tail hnext⟩ trivial (.single hnext)

/-- A jump that is not sent on, although it goes to a block that only jumps on, goes into a
circle. -/
theorem circles_of_destination_eq_none (hnd : (blockLabels blocks).Nodup) {target : String}
    (hhop : HopsOn blocks label target) (h : destination (forwards blocks) label = none) :
    Circles blocks label := by
  have hstays : ∀ last, ReflTransGen (HopsOn blocks) label last →
      ∃ next, HopsOn blocks last next := by
    intro last hreach
    by_contra hend
    obtain ⟨k, hlead⟩ := leadsIn_of_reflTransGen hnd (not_exists.1 hend) hreach
    cases k with
    | zero => exact hend ⟨target, hlead.2 ▸ hhop⟩
    | succ k =>
      rw [destination_eq_some_iff.2 ⟨k, hlead⟩] at h
      cases h
  exact ⟨hstays, exists_return (fun _ _ => mem_blockLabels_of_hopsOn) hstays⟩

end Circles

/-! ## The result of clean-up -/

/-- Valid blocks that a round does not change are in normal form. -/
theorem normalForm_of_round {blocks : List (Block σ ε)} (hv : Valid blocks)
    (h : (round blocks).2 = 0) : NormalForm blocks := by
  obtain ⟨hthread, hadjacent, hdead, hunreachable, hmerge⟩ := passes_idle_of_round h
  have hjoined := isChain_of_mergeFallThrough hmerge
  constructor
  case unique => exact hv.nodup
  case named => exact named_of_dropDeadLabels hdead
  case defined => exact hv.defined
  case noAdjacentJump => exact isChain_of_dropAdjacentJumps hadjacent
  case entered => exact isChain_of_dropUnreachable hunreachable
  case separate => exact hjoined.imp fun _ _ hb => hb.1
  case noBlank =>
    refine forall_of_isChain_of_getLast? (hjoined.imp fun _ _ hb => hb.2) ?_
    intro b hb _ _ hexit
    have hclosed := hv.closed b hb
    rw [hexit] at hclosed
    cases hclosed
  case threaded =>
    intro label hlabel target hhop
    exact circles_of_destination_eq_none hv.nodup hhop
      ((threadJumps_changes_eq_zero_iff blocks).1 hthread label hlabel)

/-- Clean-up leaves a function in normal form. Cleaning it up again takes one round, which changes
nothing and reports no change of any pass. -/
theorem simplify_normalForm {report report' : Report} {f g : Function σ ε}
    (h : f.simplify report = .ok (report', g)) :
    NormalForm g.blocks ∧ ∀ r : Report, ∃ r', g.simplify r = .ok (r', g) ∧
      r'.rounds = r.rounds + 1 ∧
      r'.changes = r.changes ∧ ∀ p, r'.changesOf p = r.changesOf p := by
  obtain ⟨hv, k, hs, rfl⟩ := Function.simplify_eq_ok h
  have hvalid : Valid (afterRounds k f.blocks) := hv.afterRounds k
  have hzero : (round (afterRounds k f.blocks)).2 = 0 := hs.1
  refine ⟨normalForm_of_round hvalid hzero, fun r => ?_⟩
  obtain ⟨r', hrounds, hchanges, hcounts, heq⟩ := runRounds_succ hvalid maxRounds r (maxRounds - 1)
  rw [if_pos hzero, round_eq_self hzero] at heq
  refine ⟨r', ?_, hrounds, ?_, hcounts hzero⟩
  · have hrun : Go.simplify r (afterRounds k f.blocks) = ⟨r', afterRounds k f.blocks, none⟩ := heq
    rw [Function.simplify, hrun]
  · rw [hchanges, hzero, Nat.add_zero]

/-- The one block of `straightened` that only jumps on jumps to itself. -/
theorem straightened_normalForm :
    trampolines.simplify .empty =
      .ok (⟨7, 2, [(.validate, 0), (.threadJumps, 1), (.dropAdjacentJumps, 2),
        (.dropDeadLabels, 2), (.dropUnreachable, 1), (.mergeFallThrough, 1)]⟩, straightened) ∧
      NormalForm straightened.blocks ∧ Circles straightened.blocks "_3" ∧
      ∃ r', straightened.simplify .empty = .ok (r', straightened) ∧ r'.rounds = 1 ∧
      r'.changes = 0 := by
  have h :
      trampolines.simplify .empty =
        .ok (⟨7, 2, [(.validate, 0), (.threadJumps, 1), (.dropAdjacentJumps, 2),
      (.dropDeadLabels, 2), (.dropUnreachable, 1), (.mergeFallThrough, 1)]⟩, straightened) := rfl
  obtain ⟨hform, hagain⟩ := simplify_normalForm h
  obtain ⟨r', hrun, hrounds, hchanges, -⟩ := hagain .empty
  have hhop : HopsOn straightened.blocks "_3" "_3" := by simp [HopsOn, straightened]
  have hnamed : "_3" ∈ exitTargets straightened.blocks := by decide
  exact ⟨h, hform, hform.threaded "_3" hnamed "_3" hhop, r', hrun, hrounds, hchanges⟩

end StackToGo.Go

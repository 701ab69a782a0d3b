import StackToGo.Proofs.Blocks.Passes
import Mathlib.Logic.Function.Iterate

/-!
# Rounds of clean-up

A round is five passes one after the other, on blocks that `validate` accepts. The passes keep
blocks valid, so a fault after the first validation can only be that the rounds run out. What the
passes other than `threadJumps` change lowers the weight of the blocks, and `threadJumps` has
nothing left to do right after itself: so some round changes nothing, and the weight bounds how
soon (`exists_settles`).
-/

namespace StackToGo.Go

variable {σ ε : Type}

/-! ## One round -/

/-- The five passes that change blocks, one after the other, and how much they change. -/
def round (blocks : List (Block σ ε)) : Changed σ ε :=
  let threaded := threadJumps blocks
  let relaxed := dropAdjacentJumps threaded.1
  let trimmed := dropDeadLabels relaxed.1
  let kept := dropUnreachable trimmed.1
  let joined := mergeFallThrough kept.1
  (joined.1, threaded.2 + relaxed.2 + trimmed.2 + kept.2 + joined.2)

/-- A round leaves blocks valid. -/
theorem Valid.round {blocks : List (Block σ ε)} (h : Valid blocks) : Valid (round blocks).1 :=
  h.threadJumps.dropAdjacentJumps.dropDeadLabels.dropUnreachable.mergeFallThrough

/-- A round keeps the behaviour. -/
theorem round_equivalent {blocks : List (Block σ ε)} (h : Valid blocks) :
    Equivalent blocks (round blocks).1 :=
  (threadJumps_equivalent h).trans <| (dropAdjacentJumps_equivalent h.threadJumps).trans <|
    (dropDeadLabels_equivalent _).trans <| (dropUnreachable_equivalent _).trans
      (mergeFallThrough_equivalent _)

/-- On valid blocks the passes run through, and make a round. -/
theorem runPasses_all {blocks : List (Block σ ε)} (h : Valid blocks) (report : Report) :
    ∃ report', runPasses report blocks 0 Pass.all =
      (⟨report', (round blocks).1, none⟩, (round blocks).2) := by
  have hv := (validate_eq_ok_iff blocks).2 h
  simp only [runPasses, Pass.all, Pass.run, hv, Except.map, Nat.zero_add]
  exact ⟨_, rfl⟩

/-- On other blocks the first pass finds a fault. -/
theorem runPasses_fault {blocks : List (Block σ ε)} (h : ¬ Valid blocks) (report : Report) :
    ∃ fault, validate blocks = .error fault ∧
      runPasses report blocks 0 Pass.all = (⟨report, blocks, some fault⟩, 0) := by
  cases hv : validate blocks with
  | ok => exact absurd ((validate_eq_ok_iff blocks).1 hv) h
  | error fault =>
    refine ⟨fault, rfl, ?_⟩
    simp only [runPasses, Pass.all, Pass.run, hv, Except.map]

/-! ## Reports -/

section Reports

/-- How much a pass has changed so far. -/
def Report.changesOf (r : Report) (p : Pass) : Nat := (r.passes.lookup p).getD 0

/-- Counting changes leaves the number of rounds. -/
@[simp] theorem Report.count_rounds (r : Report) (p : Pass) (n : Nat) :
    (r.count p n).rounds = r.rounds := by
  rw [count]; split <;> rfl

/-- Counting the changes of a pass leaves the total. -/
@[simp] theorem Report.count_changes (r : Report) (p : Pass) (n : Nat) :
    (r.count p n).changes = r.changes := by
  rw [count]; split <;> rfl

/-- A pass that has changed nothing more does not alter the count of any pass. -/
theorem Report.changesOf_count_zero (r : Report) (p q : Pass) :
    (r.count p 0).changesOf q = r.changesOf q := by
  rw [count, changesOf, changesOf]
  split
  · have hmap : r.passes.map (fun e => if e.1 = p then (p, e.2 + 0) else e) = r.passes := by
      conv_rhs => rw [← List.map_id r.passes]
      refine List.map_congr_left fun e _ => ?_
      split
      · next he => rw [← he]; rfl
      · rfl
    rw [hmap]
  · next hnone =>
    rw [Option.not_isSome_iff_eq_none] at hnone
    simp only [List.lookup_append, List.lookup_cons, List.lookup_nil]
    cases hq : r.passes.lookup q with
    | some n => rfl
    | none => cases q == p <;> rfl

variable (report : Report) (blocks : List (Block σ ε)) (total : Nat) (passes : List Pass)

/-- The total of changes only grows. -/
theorem le_runPasses_changes : total ≤ (runPasses report blocks total passes).2 := by
  induction passes generalizing report blocks total with
  | nil => exact le_rfl
  | cons p rest ih =>
    rw [runPasses]
    split
    · exact le_rfl
    · next changed n _ => exact (Nat.le_add_right total n).trans (ih _ _ _)

/-- Passes do not count rounds, and add their changes to the counts of the passes only. -/
theorem runPasses_report : (runPasses report blocks total passes).1.report.rounds = report.rounds ∧
    (runPasses report blocks total passes).1.report.changes = report.changes := by
  induction passes generalizing report blocks total with
  | nil => exact ⟨rfl, rfl⟩
  | cons p rest ih =>
    rw [runPasses]
    split
    · exact ⟨rfl, rfl⟩
    · simpa using ih (report.count p _) _ _

/-- Passes that have changed nothing do not alter the counts. -/
theorem runPasses_changesOf (h : (runPasses report blocks total passes).2 = total) (q : Pass) :
    (runPasses report blocks total passes).1.report.changesOf q = report.changesOf q := by
  induction passes generalizing report blocks total with
  | nil => rfl
  | cons p rest ih =>
    rw [runPasses] at h ⊢
    split at h
    · rfl
    · next changed n _ =>
      have hle := le_runPasses_changes (report.count p n) changed (total + n) rest
      obtain rfl : n = 0 := by omega
      rw [ih _ _ _ h, Report.changesOf_count_zero]

end Reports

/-! ## The weight of blocks -/

def Exit.isJump : Exit ε → Bool
  | .jump _ => true
  | _ => false

/-- The number of blocks, of labels and of jumps. -/
def weight (blocks : List (Block σ ε)) : Nat :=
  blocks.length + (blockLabels blocks).length + blocks.countP (·.exit.isJump)

/-- Threading changes no weight, since it only moves targets. -/
theorem weight_threadJumps (blocks : List (Block σ ε)) :
    weight (threadJumps blocks).1 = weight blocks := by
  have hjump : ∀ (f : String → String) (exit : Exit ε),
      (exit.mapTargets f).isJump = exit.isJump := by
    intro f exit
    cases exit <;> rfl
  rw [threadJumps_blocks, weight, blockLabels_map_threaded, List.length_map,
    List.countP_map, weight]
  congr 1
  exact List.countP_congr fun b _ => by rw [Function.comp_apply, Block.threaded, hjump]

/-- Every jump that falls through instead is one jump less. -/
theorem weight_dropAdjacentJumps (blocks : List (Block σ ε)) :
    weight (dropAdjacentJumps blocks).1 + (dropAdjacentJumps blocks).2 = weight blocks := by
  have hlabels := blockLabels_eq_of_map (dropAdjacentJumps_labels blocks)
  have hlength : (dropAdjacentJumps blocks).1.length = blocks.length := by
    have := congrArg List.length (dropAdjacentJumps_labels blocks)
    rwa [List.length_map, List.length_map] at this
  have hjumps :
      (dropAdjacentJumps blocks).1.countP (·.exit.isJump) + (dropAdjacentJumps blocks).2 =
      blocks.countP (·.exit.isJump) := by
    clear hlabels hlength
    fun_induction dropAdjacentJumps blocks with
    | case1 | case2 => rfl
    | case3 b next rest tail n hrec hjump ih =>
      rw [hrec] at ih
      obtain ⟨t, ht, -⟩ := Exit.jumpsTo_iff.1 hjump
      have hb : b.exit.isJump = true := by rw [ht]; rfl
      have hfall : (Exit.fallThrough : Exit ε).isJump = false := rfl
      simp only [List.countP_cons, hb, hfall, if_true, Bool.false_eq_true, if_false] at ih ⊢
      omega
    | case4 b next rest tail n hrec hjump ih =>
      rw [hrec] at ih
      simp only [List.countP_cons] at ih ⊢
      omega
  rw [weight, weight, hlabels, hlength]
  omega

/-- Every label that is removed is one label less. -/
theorem weight_dropDeadLabels (blocks : List (Block σ ε)) :
    weight (dropDeadLabels blocks).1 + (dropDeadLabels blocks).2 = weight blocks := by
  have hlabels : ∀ named : List String, ((blockLabels blocks).filter (· ∈ named)).length +
      blocks.countP (·.labelIsDead named) = (blockLabels blocks).length := by
    intro named
    induction blocks with
    | nil => rfl
    | cons b rest ih =>
      have hcons : blockLabels (b :: rest) = b.label.toList ++ blockLabels rest := by
        rw [blockLabels, List.filterMap_cons, blockLabels]
        cases b.label <;> rfl
      rw [hcons, List.filter_append, List.length_append, List.length_append,
        List.countP_cons, ← ih]
      cases hb : b.label with
      | none => simp [Block.labelIsDead, hb]
      | some l => by_cases hl : l ∈ named <;> simp [Block.labelIsDead, hb, hl] <;> omega
  have hjumps : (blocks.map (Block.trimmed (exitTargets blocks))).countP (·.exit.isJump) =
      blocks.countP (·.exit.isJump) := by
    rw [List.countP_map]
    exact List.countP_congr fun b _ => by rw [Function.comp_apply, Block.trimmed_exit]
  have := hlabels (exitTargets blocks)
  rw [weight, dropDeadLabels_blocks, blockLabels_map_trimmed, List.length_map, hjumps, weight]
  show _ + blocks.countP (·.labelIsDead (exitTargets blocks)) = _
  omega

/-- Every block that is removed is one block less. -/
theorem weight_dropUnreachable (blocks : List (Block σ ε)) :
    weight (dropUnreachable blocks).1 + (dropUnreachable blocks).2 ≤ weight blocks := by
  cases blocks with
  | nil => exact le_rfl
  | cons b rest =>
    have hsub := (reachableAfter_sublist b.exit.fallsThrough rest).cons_cons b
    rw [← dropUnreachable_cons] at hsub
    have hlabels := (hsub.filterMap (·.label)).length_le
    have hjumps := hsub.countP_le (p := (·.exit.isJump))
    have hlength := hsub.length_le
    have hcount : (dropUnreachable (b :: rest)).2 =
        (b :: rest).length - (dropUnreachable (b :: rest)).1.length := rfl
    rw [weight, weight, blockLabels, blockLabels, hcount]
    omega

/-- Joining makes no more blocks. -/
theorem length_joinBlocks_le (b : Block σ ε) (rest : List (Block σ ε)) :
    (joinBlocks b rest).length ≤ rest.length + 1 := by
  fun_induction joinBlocks b rest <;> simp only [List.length_cons, List.length_nil] at * <;> omega

/-- Every block that is joined to another one is one block less. -/
theorem weight_mergeFallThrough (blocks : List (Block σ ε)) :
    weight (mergeFallThrough blocks).1 + (mergeFallThrough blocks).2 ≤ weight blocks := by
  cases blocks with
  | nil => exact le_rfl
  | cons b rest =>
    have hlength := length_joinBlocks_le b rest
    have hjumps : (joinBlocks b rest).countP (·.exit.isJump) =
        (b :: rest).countP (·.exit.isJump) := by
      clear hlength
      have hfall : ∀ exit : Exit ε, exit.isFallThrough = true → exit.isJump = false := by
        intro exit h
        rw [Exit.eq_fallThrough_of_isFallThrough h]
        rfl
      fun_induction joinBlocks b rest with
      | case1 => rfl
      | case2 previous b rest h ih =>
        rw [Bool.and_eq_true] at h
        rw [ih, List.countP_cons, List.countP_cons, List.countP_cons, hfall _ h.2]
        rfl
      | case3 previous b rest _ h ih =>
        rw [Bool.and_eq_true] at h
        rw [ih, List.countP_cons (a := previous), hfall _ h.2]
        rfl
      | case4 previous b rest _ _ ih => rw [List.countP_cons, ih, List.countP_cons (a := previous)]
    have hcount : (mergeFallThrough (b :: rest)).2 =
        rest.length + 1 - (joinBlocks b rest).length := rfl
    show weight (joinBlocks b rest) + _ ≤ _
    rw [weight, weight, joinBlocks_labels, hjumps, hcount, List.length_cons]
    omega

/-! ## Rounds that change nothing -/

/-- Without a count of changes, removing jumps to the next block has changed nothing. -/
theorem dropAdjacentJumps_eq_self {blocks : List (Block σ ε)}
    (h : (dropAdjacentJumps blocks).2 = 0) : (dropAdjacentJumps blocks).1 = blocks := by
  fun_induction dropAdjacentJumps blocks with
  | case1 | case2 => rfl
  | case3 b next rest tail n hrec hjump ih => cases h
  | case4 b next rest tail n hrec hjump ih =>
    rw [hrec] at ih
    exact congrArg (b :: ·) (ih h)

/-- Without a count of changes, removing labels has changed nothing. -/
theorem dropDeadLabels_eq_self {blocks : List (Block σ ε)} (h : (dropDeadLabels blocks).2 = 0) :
    (dropDeadLabels blocks).1 = blocks := by
  have hdead := List.countP_eq_zero.1 h
  rw [dropDeadLabels_blocks]
  conv_rhs => rw [← List.map_id blocks]
  exact List.map_congr_left fun b hb => if_neg (hdead b hb)

/-- Without a count of changes, removing unreachable blocks has changed nothing. -/
theorem dropUnreachable_eq_self {blocks : List (Block σ ε)} (h : (dropUnreachable blocks).2 = 0) :
    (dropUnreachable blocks).1 = blocks := by
  cases blocks with
  | nil => rfl
  | cons b rest =>
    have hsub := (reachableAfter_sublist b.exit.fallsThrough rest).cons_cons b
    rw [← dropUnreachable_cons] at hsub
    have hcount : (dropUnreachable (b :: rest)).2 =
        (b :: rest).length - (dropUnreachable (b :: rest)).1.length := rfl
    exact hsub.eq_of_length_le (by omega)

/-- Without a count of changes, joining has changed nothing. -/
theorem mergeFallThrough_eq_self {blocks : List (Block σ ε)}
    (h : (mergeFallThrough blocks).2 = 0) : (mergeFallThrough blocks).1 = blocks := by
  cases blocks with
  | nil => rfl
  | cons b rest =>
    have hcount : (mergeFallThrough (b :: rest)).2 =
        rest.length + 1 - (joinBlocks b rest).length := rfl
    have hlength : rest.length + 1 ≤ (joinBlocks b rest).length := by omega
    clear h hcount
    show joinBlocks b rest = b :: rest
    fun_induction joinBlocks b rest with
    | case1 => rfl
    | case2 previous b rest _ _ =>
      have := length_joinBlocks_le
        { previous with statements := previous.statements ++ b.statements, exit := b.exit } rest
      rw [List.length_cons] at hlength
      omega
    | case3 previous b rest _ _ _ =>
      have := length_joinBlocks_le b rest
      rw [List.length_cons] at hlength
      omega
    | case4 previous b rest _ _ ih =>
      simp only [List.length_cons] at hlength
      rw [ih (by omega)]

/-- A round that changes nothing leaves the blocks as they are. -/
theorem round_eq_self {blocks : List (Block σ ε)} (h : (round blocks).2 = 0) :
    (round blocks).1 = blocks := by
  simp only [round, Nat.add_eq_zero_iff] at h ⊢
  obtain ⟨⟨⟨⟨h₁, h₂⟩, h₃⟩, h₄⟩, h₅⟩ := h
  rw [mergeFallThrough_eq_self h₅, dropUnreachable_eq_self h₄, dropDeadLabels_eq_self h₃,
    dropAdjacentJumps_eq_self h₂, threadJumps_eq_self h₁]

/-- A round that changes something makes the blocks lighter, or has only sent jumps on: then the
next round changes nothing. -/
theorem round_lighter_or_settled {blocks : List (Block σ ε)} (h : Valid blocks) :
    weight (round blocks).1 < weight blocks ∨ (round (round blocks).1).2 = 0 := by
  have w₁ := weight_threadJumps blocks
  have w₂ := weight_dropAdjacentJumps (threadJumps blocks).1
  have w₃ := weight_dropDeadLabels (dropAdjacentJumps (threadJumps blocks).1).1
  have w₄ := weight_dropUnreachable (dropDeadLabels (dropAdjacentJumps (threadJumps blocks).1).1).1
  have w₅ := weight_mergeFallThrough
    (dropUnreachable (dropDeadLabels (dropAdjacentJumps (threadJumps blocks).1).1).1).1
  by_cases hlt : weight (round blocks).1 < weight blocks
  · exact .inl hlt
  · refine .inr ?_
    simp only [round] at hlt ⊢
    have c₂ : (dropAdjacentJumps (threadJumps blocks).1).2 = 0 := by omega
    have e₂ := dropAdjacentJumps_eq_self c₂
    rw [e₂] at w₃ w₄ w₅ hlt ⊢
    have c₃ : (dropDeadLabels (threadJumps blocks).1).2 = 0 := by omega
    have e₃ := dropDeadLabels_eq_self c₃
    rw [e₃] at w₄ w₅ hlt ⊢
    have c₄ : (dropUnreachable (threadJumps blocks).1).2 = 0 := by omega
    have e₄ := dropUnreachable_eq_self c₄
    rw [e₄] at w₅ hlt ⊢
    have c₅ : (mergeFallThrough (threadJumps blocks).1).2 = 0 := by omega
    have e₅ := mergeFallThrough_eq_self c₅
    have c₁ := threadJumps_threadJumps h.nodup
    rw [e₅, threadJumps_eq_self c₁, e₂, e₃, e₄, c₁, c₂, c₃, c₄, c₅]

/-- The blocks after some rounds. -/
def afterRounds (n : Nat) (blocks : List (Block σ ε)) : List (Block σ ε) :=
  (fun b => (round b).1)^[n] blocks

/-- One more round is one that comes first. -/
theorem afterRounds_succ (n : Nat) (blocks : List (Block σ ε)) :
    afterRounds (n + 1) blocks = afterRounds n (round blocks).1 :=
  rfl

/-- Rounds keep functions valid. -/
theorem Valid.afterRounds {blocks : List (Block σ ε)} (h : Valid blocks) (n : Nat) :
    Valid (afterRounds n blocks) := by
  induction n generalizing blocks with
  | zero => exact h
  | succ n ih => exact ih h.round

/-- Exactly the first `k` rounds change something. -/
def Settles (blocks : List (Block σ ε)) (k : Nat) : Prop :=
  (round (afterRounds k blocks)).2 = 0 ∧ ∀ j < k, (round (afterRounds j blocks)).2 ≠ 0

/-- Blocks that a round leaves have settled. -/
theorem settles_zero {blocks : List (Block σ ε)} (h : (round blocks).2 = 0) : Settles blocks 0 :=
  ⟨h, fun _ hj => absurd hj (Nat.not_lt_zero _)⟩

/-- The number of rounds that change something is determined. -/
theorem Settles.unique {blocks : List (Block σ ε)} {j k : Nat} (hj : Settles blocks j)
    (hk : Settles blocks k) : j = k := by
  rcases Nat.lt_trichotomy j k with hlt | heq | hgt
  · exact absurd hj.1 (hk.2 j hlt)
  · exact heq
  · exact absurd hk.1 (hj.2 k hgt)

/-- Blocks settle one round later than what their first round makes of them. -/
theorem settles_succ_iff {blocks : List (Block σ ε)} {k : Nat} :
    Settles blocks (k + 1) ↔ (round blocks).2 ≠ 0 ∧ Settles (round blocks).1 k := by
  constructor
  · rintro ⟨hzero, hne⟩
    exact ⟨hne 0 (Nat.succ_pos k), hzero, fun j hj => hne (j + 1) (Nat.succ_lt_succ hj)⟩
  · rintro ⟨hne, hzero, hrest⟩
    refine ⟨hzero, fun j hj => ?_⟩
    cases j with
    | zero => exact hne
    | succ j => exact hrest j (Nat.lt_of_succ_lt_succ hj)

/-- Valid blocks settle, after no more rounds than one above their weight. -/
theorem exists_settles {blocks : List (Block σ ε)} (h : Valid blocks) :
    ∃ k ≤ weight blocks + 1, Settles blocks k := by
  induction hn : weight blocks using Nat.strong_induction_on generalizing blocks with
  | _ n ih =>
    by_cases hzero : (round blocks).2 = 0
    · exact ⟨0, Nat.zero_le _, settles_zero hzero⟩
    · rcases round_lighter_or_settled h with hlt | hnext
      · obtain ⟨k, hk, hsettles⟩ := ih _ (hn ▸ hlt) h.round rfl
        exact ⟨k + 1, by omega, settles_succ_iff.2 ⟨hzero, hsettles⟩⟩
      · exact ⟨1, by omega, settles_succ_iff.2 ⟨hzero, settles_zero hnext⟩⟩

end StackToGo.Go

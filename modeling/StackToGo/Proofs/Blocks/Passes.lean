import StackToGo.Proofs.Blocks.Threading

/-!
# The other passes keep the behaviour

One simulation for each pass. Letting jumps fall through, removing labels and removing blocks keep
the two machines in step: what is ahead after the pass is the pass applied to what was ahead
before. Joining blocks does not, since control leaves the first of two joined blocks silently:
there the relation is `Joined`, and the rank is the number of blocks ahead.
-/

namespace StackToGo.Go

variable {σ ε : Type}

/-! ## Places within a program -/

/-- What is ahead is a rest of the program, its first block perhaps begun already. -/
def Within (program ahead : List (Block σ ε)) : Prop :=
  ahead = [] ∨ ∃ b statements later, ahead = { b with statements := statements } :: later ∧
    (b :: later) <:+ program

/-- A rest of the program is ahead in it. -/
theorem within_of_suffix {program ahead : List (Block σ ε)} (h : ahead <:+ program) :
    Within program ahead := by
  cases ahead with
  | nil => exact .inl rfl
  | cons b later => exact .inr ⟨b, b.statements, later, rfl, h⟩

/-- What comes after the current block is a rest of the program. -/
theorem Within.suffix_later {program later : List (Block σ ε)} {b : Block σ ε}
    (h : Within program (b :: later)) : later <:+ program := by
  rcases h with h | ⟨c, _, later', heq, hsuf⟩
  · cases h
  · obtain ⟨-, rfl⟩ := List.cons.inj heq
    exact (List.suffix_cons c later).trans hsuf

/-- After a statement, the same blocks are ahead. -/
theorem Within.statement {program later : List (Block σ ε)} {label : Option String} {s : σ}
    {rest : List σ} {exit : Exit ε} (h : Within program (⟨label, s :: rest, exit⟩ :: later)) :
    Within program (⟨label, rest, exit⟩ :: later) := by
  rcases h with h | ⟨c, _, later', heq, hsuf⟩
  · cases h
  · obtain ⟨hc, rfl⟩ := List.cons.inj heq
    simp only [Block.mk.injEq] at hc
    obtain ⟨rfl, -, rfl⟩ := hc
    exact .inr ⟨c, rest, later, rfl, hsuf⟩

/-- The current block names only targets of the program. -/
theorem Within.targets_subset {program later : List (Block σ ε)} {b : Block σ ε}
    (h : Within program (b :: later)) : b.exit.targets ⊆ exitTargets program := by
  rcases h with h | ⟨c, _, later', heq, hsuf⟩
  · cases h
  · obtain ⟨rfl, rfl⟩ := List.cons.inj heq
    exact fun t ht => mem_exitTargets.2 ⟨c, hsuf.subset List.mem_cons_self, ht⟩

/-- An exit matches itself if the places it may lead to are related. -/
theorem exitsMatch_self {R : List (Block σ ε) → List (Block σ ε) → Prop}
    {program program' later later' : List (Block σ ε)} {exit : Exit ε}
    (hlater : exit.fallsThrough = true → R later later')
    (htargets : ∀ t ∈ exit.targets, R (enter program t) (enter program' t)) :
    ExitsMatch R program program' exit exit later later' := by
  intro oracle history
  cases hleave : exit.leave oracle history with
  | none => rfl
  | some place =>
    obtain ⟨target, after⟩ := place
    refine ⟨target, rfl, ?_⟩
    cases target with
    | none => exact hlater (Exit.fallsThrough_of_leave hleave)
    | some t => exact htargets t (Exit.mem_targets_of_leave hleave)

/-! ## Jumps to the next block -/

/-- Whether a block falls through depends on the block right after it only. -/
theorem dropAdjacentJumps_cons (b : Block σ ε) (later : List (Block σ ε)) :
    (dropAdjacentJumps (b :: later)).1 =
      b.relaxed (later.head?.bind (·.label)) :: (dropAdjacentJumps later).1 := by
  cases later with
  | nil =>
    have : b.exit.jumpsTo none = false := by cases b.exit <;> rfl
    show [b] = [b.relaxed none]
    rw [Block.relaxed, this]
    rfl
  | cons next rest => exact dropAdjacentJumps_cons_cons b next rest

/-- Entering at a label and removing jumps to the next block can be exchanged. -/
theorem enter_dropAdjacentJumps (blocks : List (Block σ ε)) (t : String) :
    enter (dropAdjacentJumps blocks).1 t = (dropAdjacentJumps (enter blocks t)).1 := by
  induction blocks with
  | nil => rfl
  | cons b later ih =>
    rw [dropAdjacentJumps_cons]
    by_cases hb : b.label = some t
    · rw [enter_cons_self (by rwa [Block.relaxed_label]), enter_cons_self hb,
        dropAdjacentJumps_cons]
    · rw [enter_cons_ne (by rwa [Block.relaxed_label]), enter_cons_ne hb, ih]

/-- The jumps to a label. -/
theorem Exit.jumpsTo_iff {exit : Exit ε} {label : Option String} :
    exit.jumpsTo label = true ↔ ∃ t, exit = .jump t ∧ label = some t := by
  cases exit with
  | jump target =>
    cases label with
    | none => simp [jumpsTo]
    | some l =>
      simp only [jumpsTo, beq_iff_eq, Exit.jump.injEq, Option.some.injEq, exists_eq_left']
      exact eq_comm
  | fallThrough | branch | switch | ret | abort => simp [jumpsTo]

/-- A program without jumps to the next block behaves as before. -/
theorem dropAdjacentJumps_simulation {blocks : List (Block σ ε)}
    (hnd : (blockLabels blocks).Nodup) :
    PassSimulation blocks (dropAdjacentJumps blocks).1 fun _ ahead ahead' =>
      Within blocks ahead ∧ ahead' = (dropAdjacentJumps ahead).1 := by
  constructor
  case start => exact ⟨0, within_of_suffix (List.suffix_refl _), rfl⟩
  case nil => rintro n ahead' ⟨-, rfl⟩; rfl
  case statement =>
    rintro n label s rest exit later ahead' ⟨hw, rfl⟩
    rw [dropAdjacentJumps_cons]
    unfold Block.relaxed
    split
    · next hj =>
      refine ⟨0, label, rest, _, _, rfl, hw.statement, ?_⟩
      rw [dropAdjacentJumps_cons, Block.relaxed, if_pos hj]
    · next hj =>
      refine ⟨0, label, rest, _, _, rfl, hw.statement, ?_⟩
      rw [dropAdjacentJumps_cons, Block.relaxed, if_neg hj]
  case exit =>
    rintro n label exit later ahead' ⟨hw, rfl⟩
    have hlater := within_of_suffix hw.suffix_later
    rw [dropAdjacentJumps_cons]
    unfold Block.relaxed
    split
    · next hj =>
      obtain ⟨t, rfl, hnext⟩ := Exit.jumpsTo_iff.1 hj
      obtain ⟨next, hhead, hlabel⟩ := Option.bind_eq_some_iff.1 hnext
      obtain ⟨rest, rfl⟩ : ∃ rest, later = next :: rest := by
        cases later with
        | nil => cases hhead
        | cons c rest => cases hhead; exact ⟨rest, rfl⟩
      refine .inl ⟨label, .fallThrough, _, rfl, fun oracle history => ⟨none, rfl, 0, ?_⟩⟩
      -- Labels are unique, so the jump goes to the very next block.
      have henter : enter blocks t = next :: rest := enter_eq_of_nodup hnd hlabel hw.suffix_later
      exact ⟨henter ▸ hlater, by rw [← henter]; rfl⟩
    · refine .inl ⟨label, exit, _, rfl, exitsMatch_self (fun _ => ⟨0, hlater, rfl⟩) fun t _ => ?_⟩
      exact ⟨0, within_of_suffix (enter_suffix blocks t), enter_dropAdjacentJumps blocks t⟩

/-- Letting jumps to the next block fall through keeps the behaviour. -/
theorem dropAdjacentJumps_equivalent {blocks : List (Block σ ε)} (h : Valid blocks) :
    Equivalent blocks (dropAdjacentJumps blocks).1 :=
  (dropAdjacentJumps_simulation h.nodup).equivalent

/-! ## Labels that nothing names -/

/-- Whether a block loses its label does not depend on its statements. -/
theorem Block.exists_trimmed_eq (named : List String) (label : Option String) (exit : Exit ε) :
    ∃ label', ∀ ss : List σ, Block.trimmed named ⟨label, ss, exit⟩ = ⟨label', ss, exit⟩ := by
  by_cases hd : label.any (· ∉ named)
  · exact ⟨none, fun _ => if_pos hd⟩
  · exact ⟨label, fun _ => if_neg hd⟩

/-- A program without the labels that no exit names behaves as before. -/
theorem dropDeadLabels_simulation (blocks : List (Block σ ε)) :
    PassSimulation blocks (dropDeadLabels blocks).1 fun _ ahead ahead' =>
      Within blocks ahead ∧ ahead' = ahead.map (Block.trimmed (exitTargets blocks)) := by
  constructor
  case start => exact ⟨0, within_of_suffix (List.suffix_refl _), rfl⟩
  case nil => rintro n ahead' ⟨-, rfl⟩; rfl
  case statement =>
    rintro n label s rest exit later ahead' ⟨hw, rfl⟩
    obtain ⟨label', heq⟩ := Block.exists_trimmed_eq (σ := σ) (exitTargets blocks) label exit
    refine ⟨0, label', rest, exit, _, by rw [List.map_cons, heq], hw.statement, ?_⟩
    rw [List.map_cons, heq]
  case exit =>
    rintro n label exit later ahead' ⟨hw, rfl⟩
    obtain ⟨label', heq⟩ := Block.exists_trimmed_eq (σ := σ) (exitTargets blocks) label exit
    refine .inl ⟨label', exit, _, by rw [List.map_cons, heq],
      exitsMatch_self (fun _ => ?_) fun t ht => ?_⟩
    · exact ⟨0, within_of_suffix hw.suffix_later, rfl⟩
    · refine ⟨0, within_of_suffix (enter_suffix blocks t), ?_⟩
      rw [dropDeadLabels_blocks]
      refine enter_map (fun b => ?_) blocks
      rw [Block.trimmed_label_eq_some_iff]
      exact and_iff_left (hw.targets_subset ht)

/-- Removing labels that no exit names keeps the behaviour. -/
theorem dropDeadLabels_equivalent (blocks : List (Block σ ε)) :
    Equivalent blocks (dropDeadLabels blocks).1 :=
  (dropDeadLabels_simulation blocks).equivalent

/-! ## Blocks that cannot be entered -/

/-- After a block that goes on to them, the first of the following blocks is kept. -/
theorem reachableAfter_true (later : List (Block σ ε)) :
    reachableAfter true later = (dropUnreachable later).1 := by
  cases later with
  | nil => rfl
  | cons b rest => rw [dropUnreachable_cons, reachableAfter, Bool.not_true, Bool.and_false]; rfl

/-- A block with a label is kept whatever stands before it. -/
theorem enter_reachableAfter (falls : Bool) (blocks : List (Block σ ε)) (t : String) :
    enter (reachableAfter falls blocks) t = (dropUnreachable (enter blocks t)).1 := by
  induction blocks generalizing falls with
  | nil => rfl
  | cons b rest ih =>
    rw [reachableAfter]
    by_cases hb : b.label = some t
    · rw [hb, Option.isNone_some, Bool.false_and, if_neg Bool.false_ne_true, enter_cons_self hb,
        enter_cons_self hb, dropUnreachable_cons]
    · rw [enter_cons_ne hb]
      split
      · exact ih falls
      · rw [enter_cons_ne hb, ih]

/-- Entering at a label and removing unreachable blocks can be exchanged. -/
theorem enter_dropUnreachable (blocks : List (Block σ ε)) (t : String) :
    enter (dropUnreachable blocks).1 t = (dropUnreachable (enter blocks t)).1 := by
  rw [← reachableAfter_true, enter_reachableAfter]

/-- A program without unreachable blocks behaves as before. -/
theorem dropUnreachable_simulation (blocks : List (Block σ ε)) :
    PassSimulation blocks (dropUnreachable blocks).1 fun _ ahead ahead' =>
      ahead' = (dropUnreachable ahead).1 := by
  constructor
  case start => exact ⟨0, rfl⟩
  case nil => rintro n ahead' rfl; rfl
  case statement =>
    rintro n label s rest exit later ahead' rfl
    exact ⟨0, label, rest, exit, _, dropUnreachable_cons _ _, (dropUnreachable_cons _ _).symm⟩
  case exit =>
    rintro n label exit later ahead' rfl
    refine .inl ⟨label, exit, _, dropUnreachable_cons _ _,
      exitsMatch_self (fun hfall => ⟨0, ?_⟩) fun t _ => ⟨0, ?_⟩⟩
    · rw [hfall, reachableAfter_true]
    · exact enter_dropUnreachable blocks t

/-- Removing blocks that cannot be entered keeps the behaviour. -/
theorem dropUnreachable_equivalent (blocks : List (Block σ ε)) :
    Equivalent blocks (dropUnreachable blocks).1 :=
  (dropUnreachable_simulation blocks).equivalent

/-! ## Joined blocks -/

/-- Joins the blocks after `head` with it as `joinBlocks` does, but never drops `head` itself. -/
def joinFrom (head : Block σ ε) : List (Block σ ε) → List (Block σ ε)
  | [] => [head]
  | b :: rest =>
    if b.label.isNone && head.exit.isFallThrough then
      joinFrom { head with statements := head.statements ++ b.statements, exit := b.exit } rest
    else head :: joinBlocks b rest

/-- A block that has a label or statements is not dropped. -/
theorem joinBlocks_eq_joinFrom {head : Block σ ε} (later : List (Block σ ε))
    (h : (head.label.isNone && head.statements.isEmpty) = false) :
    joinBlocks head later = joinFrom head later := by
  induction later generalizing head with
  | nil => rfl
  | cons b rest ih =>
    rw [joinBlocks, joinFrom, h, Bool.false_and, if_neg Bool.false_ne_true]
    split
    · refine ih ?_
      rw [Bool.and_eq_false_iff] at h ⊢
      rcases h with h | h
      · exact .inl h
      · exact .inr (by simp_all)
    · rfl

/-- A first statement stays the first one, and does not matter for how the rest is joined. -/
theorem joinFrom_statement (label : Option String) (s : σ) (rest : List σ) (exit : Exit ε)
    (later : List (Block σ ε)) : ∃ rest' exit' later',
      joinFrom ⟨label, s :: rest, exit⟩ later = ⟨label, s :: rest', exit'⟩ :: later' ∧
      joinFrom ⟨label, rest, exit⟩ later = ⟨label, rest', exit'⟩ :: later' := by
  induction later generalizing rest exit with
  | nil => exact ⟨rest, exit, [], rfl, rfl⟩
  | cons b more ih =>
    simp only [joinFrom]
    split
    · exact ih (rest ++ b.statements) b.exit
    · exact ⟨rest, exit, _, rfl, rfl⟩

/-- What is ahead before and after the pass: the same blocks joined, the first under any label,
after skipping empty blocks that fall through. -/
inductive Joined : List (Block σ ε) → List (Block σ ε) → Prop where
  | nil : Joined [] []
  | head (label label' : Option String) (statements : List σ) (exit : Exit ε)
      (later : List (Block σ ε)) :
    Joined (⟨label, statements, exit⟩ :: later) (joinFrom ⟨label', statements, exit⟩ later)
  | skip {label : Option String} {later ahead' : List (Block σ ε)} (h : Joined later ahead') :
    Joined (⟨label, [], .fallThrough⟩ :: later) ahead'

/-- The exits that fall through and name nothing. -/
theorem Exit.eq_fallThrough_of_isFallThrough {exit : Exit ε} (h : exit.isFallThrough = true) :
    exit = .fallThrough := by
  cases exit <;> first | rfl | cases h

/-- Joining leads to joined blocks. -/
theorem joined_joinBlocks (b : Block σ ε) (later : List (Block σ ε)) :
    Joined (b :: later) (joinBlocks b later) := by
  induction later generalizing b with
  | nil => exact .head b.label b.label b.statements b.exit []
  | cons next rest ih =>
    cases hb : b.label.isNone && b.statements.isEmpty with
    | false => rw [joinBlocks_eq_joinFrom _ hb]; exact .head b.label b.label b.statements b.exit _
    | true =>
      obtain ⟨label, statements, exit⟩ := b
      rw [Bool.and_eq_true, Option.isNone_iff_eq_none, List.isEmpty_iff] at hb
      obtain ⟨rfl, rfl⟩ := hb
      cases hexit : exit.isFallThrough with
      | false =>
        have hjoin : joinBlocks ⟨none, [], exit⟩ (next :: rest) =
            joinFrom ⟨none, [], exit⟩ (next :: rest) := by
          simp [joinBlocks, joinFrom, hexit]
        rw [hjoin]
        exact .head none none [] exit _
      | true =>
        obtain rfl := Exit.eq_fallThrough_of_isFallThrough hexit
        have hjoin : joinBlocks ⟨none, [], .fallThrough⟩ (next :: rest) =
            joinBlocks next rest := by
          obtain ⟨l, ss, e⟩ := next
          cases l <;> simp [joinBlocks, Exit.isFallThrough]
        rw [hjoin]
        exact .skip (ih next)

/-- The pass leads to joined blocks. -/
theorem joined_mergeFallThrough (blocks : List (Block σ ε)) :
    Joined blocks (mergeFallThrough blocks).1 := by
  cases blocks with
  | nil => exact .nil
  | cons b rest => exact joined_joinBlocks b rest

/-- A block with a label is joined to no block before it. -/
theorem enter_joinBlocks (b : Block σ ε) (rest : List (Block σ ε)) (t : String) :
    enter (joinBlocks b rest) t = (mergeFallThrough (enter (b :: rest) t)).1 := by
  fun_induction joinBlocks b rest with
  | case1 b =>
    by_cases hb : b.label = some t
    · rw [enter_cons_self hb]; rfl
    · rw [enter_cons_ne hb]; rfl
  | case2 previous b rest h ih =>
    have hb : b.label ≠ some t := by
      rw [Bool.and_eq_true, Option.isNone_iff_eq_none] at h
      rw [h.1]
      exact Option.some_ne_none t ∘ Eq.symm
    rw [ih]
    by_cases hp : previous.label = some t
    · rw [enter_cons_self (b := { previous with statements := _, exit := b.exit }) hp,
        enter_cons_self hp]
      show joinBlocks _ rest = joinBlocks previous (b :: rest)
      rw [joinBlocks.eq_2, if_pos h]
    · rw [enter_cons_ne (b := { previous with statements := _, exit := b.exit }) hp,
        enter_cons_ne hp, enter_cons_ne hb]
  | case3 previous b rest _ h ih =>
    have hp : previous.label ≠ some t := by
      rw [Bool.and_eq_true, Bool.and_eq_true, Option.isNone_iff_eq_none] at h
      rw [h.1.1]
      exact Option.some_ne_none t ∘ Eq.symm
    rw [ih, enter_cons_ne hp]
  | case4 previous b rest h h' ih =>
    by_cases hp : previous.label = some t
    · rw [enter_cons_self hp, enter_cons_self hp]
      show _ = joinBlocks previous (b :: rest)
      rw [joinBlocks, if_neg h, if_neg h']
    · rw [enter_cons_ne hp, enter_cons_ne hp, ih]

/-- Entering at a label and joining blocks can be exchanged. -/
theorem enter_mergeFallThrough (blocks : List (Block σ ε)) (t : String) :
    enter (mergeFallThrough blocks).1 t = (mergeFallThrough (enter blocks t)).1 := by
  cases blocks with
  | nil => rfl
  | cons b rest => exact enter_joinBlocks b rest t

/-- A program with its blocks joined behaves as before. -/
theorem mergeFallThrough_simulation (blocks : List (Block σ ε)) :
    PassSimulation blocks (mergeFallThrough blocks).1 fun n ahead ahead' =>
      n = ahead.length ∧ Joined ahead ahead' := by
  constructor
  case start => exact ⟨_, rfl, joined_mergeFallThrough blocks⟩
  case nil => rintro n ahead' ⟨-, h⟩; cases h; rfl
  case statement =>
    rintro n label s rest exit later ahead' ⟨-, h⟩
    cases h with
    | head _ label' =>
      obtain ⟨rest', exit', later', heq, heq'⟩ := joinFrom_statement label' s rest exit later
      exact ⟨_, label', rest', exit', later', heq, rfl, heq' ▸ .head label label' rest exit later⟩
  case exit =>
    rintro n label exit later ahead' ⟨rfl, h⟩
    cases h with
    | skip h => exact .inr ⟨none, fun _ _ => rfl, _, Nat.lt_succ_self _, rfl, h⟩
    | head _ label' =>
      have htarget : ∀ t ∈ exit.targets, ∃ m, m = (enter blocks t).length ∧
          Joined (enter blocks t) (enter (mergeFallThrough blocks).1 t) := by
        intro t _
        rw [enter_mergeFallThrough]
        exact ⟨_, rfl, joined_mergeFallThrough _⟩
      cases later with
      | nil =>
        exact .inl ⟨label', exit, [], rfl, exitsMatch_self (fun _ => ⟨_, rfl, .nil⟩) htarget⟩
      | cons next rest =>
        rw [joinFrom]
        split
        · next h =>
          -- The next block was joined to this one, and control goes on to it silently.
          rw [Bool.and_eq_true, Option.isNone_iff_eq_none] at h
          obtain rfl := Exit.eq_fallThrough_of_isFallThrough h.2
          exact .inr ⟨none, fun _ _ => rfl, _, Nat.lt_succ_self _, rfl,
            .head next.label label' next.statements next.exit rest⟩
        · exact .inl ⟨label', exit, _, rfl,
            exitsMatch_self (fun _ => ⟨_, rfl, joined_joinBlocks next rest⟩) htarget⟩

/-- Joining blocks keeps the behaviour. -/
theorem mergeFallThrough_equivalent (blocks : List (Block σ ε)) :
    Equivalent blocks (mergeFallThrough blocks).1 :=
  (mergeFallThrough_simulation blocks).equivalent

end StackToGo.Go

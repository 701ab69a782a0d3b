import StackToGo.Proofs.Blocks.Cleanup

/-!
# What passes do one by one

Each pass runs through on valid blocks and leaves them valid (`Valid.effect`), so `validate` can
only find a fault in the blocks that clean-up is given (`passes_keep_valid`). Each pass other than
`threadJumps` makes the blocks lighter by what it reports (`Pass.weight_effect`), and `threadJumps`
has nothing to do right after itself: that bounds the rounds that are needed when nothing else
limits them (`rounds_bounded_by_weight`).
-/

namespace StackToGo.Go

variable {σ ε : Type}

/-! ## One pass -/

section Passes

variable {blocks : List (Block σ ε)}

/-- What a pass makes of blocks that it does not refuse. -/
def Pass.effect (p : Pass) (blocks : List (Block σ ε)) : Changed σ ε :=
  match p with
  | .validate => (blocks, 0)
  | .threadJumps => Go.threadJumps blocks
  | .dropAdjacentJumps => Go.dropAdjacentJumps blocks
  | .dropDeadLabels => Go.dropDeadLabels blocks
  | .dropUnreachable => Go.dropUnreachable blocks
  | .mergeFallThrough => Go.mergeFallThrough blocks

/-- No pass refuses valid blocks. -/
theorem Pass.run_of_valid (p : Pass) (h : Valid blocks) :
    p.run blocks = .ok (p.effect blocks) := by
  cases p with
  | validate =>
    rw [Pass.run, (validate_eq_ok_iff blocks).2 h]
    rfl
  | _ => rfl

/-- Every pass leaves blocks valid. -/
theorem Valid.effect (h : Valid blocks) (p : Pass) : Valid (p.effect blocks).1 := by
  cases p with
  | validate => exact h
  | threadJumps => exact h.threadJumps
  | dropAdjacentJumps => exact h.dropAdjacentJumps
  | dropDeadLabels => exact h.dropDeadLabels
  | dropUnreachable => exact h.dropUnreachable
  | mergeFallThrough => exact h.mergeFallThrough

/-- Removing jumps to the next block leaves blocks. -/
theorem dropAdjacentJumps_ne_nil (h : blocks ≠ []) : (dropAdjacentJumps blocks).1 ≠ [] := by
  intro hnil
  have hlabels := dropAdjacentJumps_labels blocks
  rw [hnil, List.map_nil] at hlabels
  exact h (List.map_eq_nil_iff.1 hlabels.symm)

/-- Joining leaves blocks. -/
theorem joinBlocks_ne_nil (b : Block σ ε) (rest : List (Block σ ε)) : joinBlocks b rest ≠ [] := by
  intro hnil
  have hlast := joinBlocks_lastExit b rest
  rw [hnil] at hlast
  simp at hlast

/-- A pass does not remove all blocks. -/
theorem Pass.effect_ne_nil (p : Pass) (h : blocks ≠ []) : (p.effect blocks).1 ≠ [] := by
  obtain ⟨b, rest, rfl⟩ := List.exists_cons_of_ne_nil h
  cases p with
  | validate => exact h
  | threadJumps => exact List.cons_ne_nil _ _
  | dropAdjacentJumps => exact dropAdjacentJumps_ne_nil h
  | dropDeadLabels => exact List.cons_ne_nil _ _
  | dropUnreachable =>
    have hcons := dropUnreachable_cons b rest
    exact hcons ▸ List.cons_ne_nil _ _
  | mergeFallThrough => exact joinBlocks_ne_nil b rest

/-- What a pass reports makes the blocks lighter, unless it has only sent jumps on. -/
theorem Pass.weight_effect {p : Pass} (hp : p ≠ .threadJumps) (blocks : List (Block σ ε)) :
    weight (p.effect blocks).1 + (p.effect blocks).2 ≤ weight blocks := by
  cases p with
  | validate => exact le_rfl
  | threadJumps => exact absurd rfl hp
  | dropAdjacentJumps => exact (weight_dropAdjacentJumps blocks).le
  | dropDeadLabels => exact (weight_dropDeadLabels blocks).le
  | dropUnreachable => exact weight_dropUnreachable blocks
  | mergeFallThrough => exact weight_mergeFallThrough blocks

end Passes

/-! ## Passes and rounds on valid blocks -/

section Runs

variable {blocks : List (Block σ ε)}

/-- Passes leave valid blocks valid, however many of them run and in whatever order. -/
theorem Valid.runPasses (h : Valid blocks) (report : Report) (total : Nat) (passes : List Pass) :
    Valid (runPasses report blocks total passes).1.blocks := by
  induction passes generalizing report blocks total with
  | nil => exact h
  | cons p rest ih =>
    rw [Go.runPasses, p.run_of_valid h]
    exact ih (h.effect p) _ _

/-- A run of rounds keeps functions valid. -/
theorem Valid.runRounds (h : Valid blocks) (rounds : Nat) (report : Report) (limit : Nat) :
    Valid (runRounds rounds report blocks limit).blocks := by
  induction limit generalizing report blocks with
  | zero => exact h
  | succ limit ih =>
    obtain ⟨report', -, -, -, heq⟩ := runRounds_succ h rounds report limit
    rw [heq]
    split
    · exact h.round
    · exact ih h.round report'

/-- The blocks that a pass finds when up to `n` rounds have run, and after them the passes `done`
of another round. -/
def blocksAt (report : Report) (blocks : List (Block σ ε)) (n : Nat) (done : List Pass) :
    List (Block σ ε) :=
  (runPasses report (runRounds n report blocks n).blocks 0 done).1.blocks

/-- Every pass finds valid blocks. -/
theorem Valid.blocksAt (h : Valid blocks) (report : Report) (n : Nat) (done : List Pass) :
    Valid (blocksAt report blocks n done) :=
  (h.runRounds n report n).runPasses report 0 done

end Runs

/-! ## How many rounds are needed -/

/-- In every round on valid blocks, `threadJumps` keeps their weight and has nothing to do right
after itself, and every other pass makes them lighter by at least what it reports. So rounds that
nothing limits come to one that changes nothing, after at most two more of them than the blocks
weigh at first. -/
theorem rounds_bounded_by_weight {blocks : List (Block σ ε)} (h : validate blocks = .ok ())
    (report : Report) :
    (∀ (n : Nat) (done rest : List Pass) (p : Pass), Pass.all = done ++ p :: rest →
      ∃ after changes, p.run (blocksAt report blocks n done) = .ok (after, changes) ∧
        if p = .threadJumps then
          weight after = weight (blocksAt report blocks n done) ∧ (threadJumps after).2 = 0
        else weight after + changes ≤ weight (blocksAt report blocks n done)) ∧
    ∀ limit, weight blocks + 2 ≤ limit →
      (runRounds limit report blocks limit).fault = none ∧
      (runRounds limit report blocks limit).report.rounds ≤ report.rounds + (weight blocks + 2) ∧
      (runPasses report (runRounds limit report blocks limit).blocks 0 Pass.all).2 = 0 := by
  have hv := (validate_eq_ok_iff blocks).1 h
  constructor
  · intro n done rest p _
    have hat := hv.blocksAt report n done
    refine ⟨_, _, p.run_of_valid hat, ?_⟩
    split
    · next hp =>
      subst hp
      exact ⟨weight_threadJumps _, threadJumps_threadJumps hat.nodup⟩
    · next hp => exact Pass.weight_effect hp _
  · intro limit hlimit
    obtain ⟨k, hk, hs⟩ := exists_settles hv
    have hrun := runRounds_of_settles hv hs limit report limit
    rw [if_pos (by omega)] at hrun
    obtain ⟨hfault, hblocks, hrounds⟩ := hrun
    obtain ⟨report', hpasses⟩ := runPasses_all (hv.afterRounds k) report
    refine ⟨hfault, by omega, ?_⟩
    rw [hblocks, hpasses]
    exact hs.1

/-- A cascade of 64 blocks, which is refused for want of one round, is cleaned up when 194 rounds
are allowed. -/
theorem cascade_within_weight :
    validate (cascade 64) = .ok () ∧ weight (cascade 64) = 192 ∧
      (runRounds 194 .empty (cascade 64) 194).fault = none ∧
      (runRounds 194 .empty (cascade 64) 194).report.rounds ≤ 194 := by
  have hv : validate (cascade 64) = .ok () := (validate_eq_ok_iff _).2 (valid_cascade 64)
  have hweight : weight (cascade 64) = 192 := by decide +kernel
  obtain ⟨hfault, hrounds, -⟩ := (rounds_bounded_by_weight hv .empty).2 194 (by rw [hweight])
  rw [hweight] at hrounds
  exact ⟨hv, hweight, hfault, hrounds⟩

/-! ## Which faults are found -/

/-- Is it a fault that `validate` finds? -/
def isInvalidity : BlockFault → Bool
  | .duplicateLabel _ => true
  | .undefinedLabel _ => true
  | .fallsOffEnd => true
  | _ => false

/-- What validation reports is a fault of the blocks. -/
theorem isInvalidity_of_validate {blocks : List (Block σ ε)} {fault : BlockFault}
    (h : validate blocks = .error fault) : isInvalidity fault := by
  rw [validate] at h
  split at h
  · cases h; rfl
  · split at h
    · cases h; rfl
    · split at h
      · cases h; rfl
      · cases h

/-- Blocks that are not valid are refused with the fault that `validate` finds in them. -/
theorem Function.simplify_of_invalid {f : Function σ ε} {fault : BlockFault}
    (h : validate f.blocks = .error fault) (report : Report) :
    f.simplify report = .error fault := by
  have hv : ¬ Valid f.blocks := by
    intro hv
    rw [(validate_eq_ok_iff f.blocks).2 hv] at h
    cases h
  obtain ⟨fault', hfault, hpasses⟩ :=
    runPasses_fault hv { report with rounds := report.rounds + 1 }
  rw [h] at hfault
  cases hfault
  rw [Function.simplify, Go.simplify, maxRounds, runRounds, hpasses]

/-- Every pass runs through on the blocks of a valid function and leaves a valid function, with
blocks if there were any. So clean-up finds a function invalid exactly if `validate` does so at
once, and for the same reason. -/
theorem passes_keep_valid (f : Function σ ε) (report : Report) :
    (validate f.blocks = .ok () → ∀ p : Pass, ∃ after changes, p.run f.blocks =
      .ok (after, changes) ∧
      validate after = .ok () ∧ (f.blocks ≠ [] → after ≠ [])) ∧
    ∀ fault, f.simplify report = .error fault ∧ isInvalidity fault ↔
    validate f.blocks = .error fault := by
  constructor
  · intro h p
    have hv := (validate_eq_ok_iff f.blocks).1 h
    exact ⟨_, _, p.run_of_valid hv, (validate_eq_ok_iff _).2 (hv.effect p), p.effect_ne_nil⟩
  · intro fault
    constructor
    · rintro ⟨hrun, hinvalid⟩
      cases hv : validate f.blocks with
      | error fault' =>
        rw [Function.simplify_of_invalid hv] at hrun
        cases hrun
        rfl
      | ok =>
        -- On valid blocks clean-up succeeds or runs out of rounds, which `validate` never reports.
        have hvalid := (validate_eq_ok_iff f.blocks).1 hv
        obtain ⟨k, -, hs⟩ := exists_settles hvalid
        have hsimplify := Function.simplify_of_settles report hvalid hs
        split at hsimplify
        · obtain ⟨report', hok⟩ := hsimplify
          rw [hok] at hrun
          cases hrun
        · rw [hsimplify] at hrun
          cases hrun
          cases hinvalid
    · intro h
      exact ⟨Function.simplify_of_invalid h report, isInvalidity_of_validate h⟩

/-- A function with a jump to a label that is not there. -/
def danglingJump : Function String String :=
  { trampolines with blocks := [⟨some "_1", [], .jump "_2"⟩] }

/-- Every pass keeps the trampolines valid, and a dangling jump is refused. -/
theorem trampolines_keep_valid :
    validate trampolines.blocks = .ok () ∧
      (∀ p : Pass, ∃ after changes, p.run trampolines.blocks = .ok (after, changes) ∧
        validate after = .ok () ∧
        after ≠ []) ∧
      danglingJump.simplify .empty = .error (.undefinedLabel "_2") := by
  have hv : validate trampolines.blocks = .ok () := rfl
  refine ⟨hv, fun p => ?_, ?_⟩
  · obtain ⟨after, changes, hrun, hafter, hne⟩ := (passes_keep_valid trampolines .empty).1 hv p
    exact ⟨after, changes, hrun, hafter, hne (List.cons_ne_nil _ _)⟩
  · exact (((passes_keep_valid danglingJump .empty).2 (.undefinedLabel "_2")).2 rfl).1

end StackToGo.Go

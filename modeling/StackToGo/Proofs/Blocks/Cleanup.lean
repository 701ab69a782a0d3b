import StackToGo.Proofs.Blocks.Rounds
import Mathlib.Data.List.Range

/-!
# What clean-up guarantees

Clean-up of a function that succeeds changes nothing that a run of the function shows. On valid
blocks it can fail in one way only: when the rounds run out. The number of rounds that blocks need
is bounded by their weight but by nothing less: `cascade n` needs `n` rounds and one more that
changes nothing, since every round removes the last block and with it the only jump to the block
before.
-/

namespace StackToGo.Go

variable {σ ε : Type}

/-! ## Running rounds -/

/-- On valid blocks a round is run and reported, and if it has changed something the next ones
follow. -/
theorem runRounds_succ {blocks : List (Block σ ε)} (h : Valid blocks) (rounds : Nat)
    (report : Report) (limit : Nat) :
    ∃ report', report'.rounds = report.rounds + 1 ∧
      report'.changes = report.changes + (round blocks).2 ∧
      ((round blocks).2 = 0 → ∀ p, report'.changesOf p = report.changesOf p) ∧
      runRounds rounds report blocks (limit + 1) =
        if (round blocks).2 = 0 then ⟨report', (round blocks).1, none⟩
        else runRounds rounds report' (round blocks).1 limit := by
  obtain ⟨report', heq⟩ := runPasses_all h { report with rounds := report.rounds + 1 }
  have hreport := runPasses_report { report with rounds := report.rounds + 1 } blocks 0 Pass.all
  have hcounts := runPasses_changesOf { report with rounds := report.rounds + 1 } blocks 0 Pass.all
  rw [heq] at hreport hcounts
  refine ⟨{ report' with changes := report'.changes + (round blocks).2 }, hreport.1,
    ?_, hcounts, ?_⟩
  · rw [hreport.2]
  · rw [runRounds, heq]

/-- Valid blocks that settle after `k` rounds are cleaned up if there is one more round to see that
they have. -/
theorem runRounds_of_settles {blocks : List (Block σ ε)} {k : Nat} (h : Valid blocks)
    (hs : Settles blocks k) (rounds : Nat) (report : Report) (limit : Nat) :
    if k < limit then
      (runRounds rounds report blocks limit).fault = none ∧
        (runRounds rounds report blocks limit).blocks = afterRounds k blocks ∧
        (runRounds rounds report blocks limit).report.rounds = report.rounds + (k + 1)
    else (runRounds rounds report blocks limit).fault = some (.noFixpoint rounds) := by
  induction limit generalizing blocks k report with
  | zero => rw [if_neg (Nat.not_lt_zero k)]; rfl
  | succ limit ih =>
    obtain ⟨report', hrounds, -, -, heq⟩ := runRounds_succ h rounds report limit
    rw [heq]
    cases k with
    | zero =>
      have hzero : (round blocks).2 = 0 := hs.1
      rw [if_pos (Nat.succ_pos limit), if_pos hzero]
      exact ⟨rfl, round_eq_self hzero, hrounds⟩
    | succ k =>
      obtain ⟨hne, hs⟩ := settles_succ_iff.1 hs
      have hcount : report.rounds + (k + 1 + 1) = report'.rounds + (k + 1) := by omega
      rw [if_neg hne, afterRounds_succ, hcount]
      simpa only [Nat.succ_lt_succ_iff] using ih h.round hs report'

/-- Blocks that are not valid are refused at once. -/
theorem runRounds_fault {blocks : List (Block σ ε)} (h : ¬ Valid blocks) (rounds : Nat)
    (report : Report) (limit : Nat) : (runRounds rounds report blocks limit).fault ≠ none := by
  cases limit with
  | zero => exact Option.some_ne_none _
  | succ limit =>
    obtain ⟨fault, -, heq⟩ := runPasses_fault h { report with rounds := report.rounds + 1 }
    rw [runRounds, heq]
    exact Option.some_ne_none _

/-- Any number of rounds leaves an equivalent function. -/
theorem afterRounds_equivalent {blocks : List (Block σ ε)} (h : Valid blocks) (n : Nat) :
    Equivalent blocks (afterRounds n blocks) := by
  induction n generalizing blocks with
  | zero => exact .refl blocks
  | succ n ih => exact (round_equivalent h).trans (ih h.round)

/-- Clean-up of valid blocks succeeds, with the blocks as their rounds leave them, if these rounds
are fewer than those allowed. If they are not, it reports just that. -/
theorem Function.simplify_of_settles (report : Report) {f : Function σ ε} {k : Nat}
    (hv : Valid f.blocks) (hs : Settles f.blocks k) :
    if k < maxRounds then
      ∃ report', f.simplify report = .ok (report', { f with blocks := afterRounds k f.blocks })
    else f.simplify report = .error (.noFixpoint maxRounds) := by
  have hrun := runRounds_of_settles hv hs maxRounds report maxRounds
  rw [Function.simplify, Go.simplify]
  split at hrun
  · next hlt =>
    obtain ⟨hfault, hblocks, -⟩ := hrun
    rw [if_pos hlt, hfault, ← hblocks]
    exact ⟨_, rfl⟩
  · next hge => rw [if_neg hge, hrun]

/-- Clean-up that succeeds has run the rounds that change something, on valid blocks, and changed
nothing else. -/
theorem Function.simplify_eq_ok {report report' : Report} {f g : Function σ ε}
    (h : f.simplify report = .ok (report', g)) :
    Valid f.blocks ∧ ∃ k, Settles f.blocks k ∧
    g = { f with blocks := afterRounds k f.blocks } := by
  have hv : Valid f.blocks := by
    by_contra hv
    obtain ⟨fault, hfault⟩ :=
      Option.ne_none_iff_exists'.1 (runRounds_fault hv maxRounds report maxRounds)
    rw [Function.simplify, Go.simplify, hfault] at h
    cases h
  obtain ⟨k, -, hs⟩ := exists_settles hv
  have hrun := simplify_of_settles report hv hs
  split at hrun
  · obtain ⟨report'', heq⟩ := hrun
    rw [heq] at h
    cases h
    exact ⟨hv, k, hs, rfl⟩
  · rw [hrun] at h
    cases h

/-! ## Behaviour -/

/-- Clean-up of a function changes only its blocks, and those keep their behaviour: whatever the
oracle, runs before and after get to the same histories, and end in the same way after the same
ones. -/
theorem simplify_preserves_behaviour {report report' : Report} {f g : Function σ ε}
    (h : f.simplify report = .ok (report', g)) :
    g = { f with blocks := g.blocks } ∧ ∀ oracle : Oracle σ ε,
      (∀ history, Emits f.blocks oracle history ↔ Emits g.blocks oracle history) ∧
      ∀ ending history, Halts f.blocks oracle ending history ↔
      Halts g.blocks oracle ending history := by
  obtain ⟨hv, k, -, rfl⟩ := Function.simplify_eq_ok h
  exact ⟨rfl, afterRounds_equivalent hv k⟩

/-- A branch to a block that only jumps on, and two blocks that jump to each other for ever. -/
def trampolines : Function String String where
  name := "_f"
  header := "func _f()"
  comment := none
  locals := []
  blocks := [
    ⟨none, ["a()"], .branch "x == 0" "_1"⟩,
    ⟨none, ["b()"], .jump "_3"⟩,
    ⟨some "_1", [], .jump "_2"⟩,
    ⟨some "_2", ["c()"], .ret⟩,
    ⟨some "_3", [], .jump "_4"⟩,
    ⟨some "_4", [], .jump "_3"⟩]

/-- The same after clean-up: the branch goes straight on, and of the endless loop one block is
left. -/
def straightened : Function String String :=
  { trampolines with blocks := [
    ⟨none, ["a()"], .branch "x == 0" "_2"⟩,
    ⟨none, ["b()"], .jump "_3"⟩,
    ⟨some "_2", ["c()"], .ret⟩,
    ⟨some "_3", [], .jump "_3"⟩] }

/-- The trampolines are straightened, and both behave alike. -/
theorem trampolines_behaviour :
    (trampolines.simplify .empty).map (·.2) = .ok straightened ∧
      ∀ oracle : Oracle String String,
        (∀ history, Emits trampolines.blocks oracle history ↔
          Emits straightened.blocks oracle history) ∧
        ∀ ending history,
          Halts trampolines.blocks oracle ending history ↔
          Halts straightened.blocks oracle ending history := by
  have h : trampolines.simplify .empty = .ok (⟨7, 2, [(.validate, 0), (.threadJumps, 1),
      (.dropAdjacentJumps, 2), (.dropDeadLabels, 2), (.dropUnreachable, 1),
      (.mergeFallThrough, 1)]⟩, straightened) := rfl
  exact ⟨by rw [h]; rfl, (simplify_preserves_behaviour h).2⟩

/-! ## Rounds that run out -/

/-- A function of valid blocks needs a number of rounds that their weight bounds, and that number
decides whether its clean-up succeeds. -/
theorem simplify_of_valid (report : Report) {f : Function σ ε} (h : validate f.blocks = .ok ()) :
    ∃ k ≤ weight f.blocks + 1, Settles f.blocks k ∧
      if k < maxRounds then
        ∃ report', f.simplify report = .ok (report', { f with blocks := afterRounds k f.blocks })
      else f.simplify report = .error (.noFixpoint maxRounds) := by
  have hv := (validate_eq_ok_iff f.blocks).1 h
  obtain ⟨k, hk, hs⟩ := exists_settles hv
  exact ⟨k, hk, hs, Function.simplify_of_settles report hv hs⟩

/-! ## A cascade -/

/-- A block that jumps to the block before it. -/
def link (j : Nat) : Block String String :=
  ⟨some (Nat.repr j), ["step()"], if j = 0 then .ret else .jump (Nat.repr (j - 1))⟩

/-- After a return, `n` blocks of which each but the first jumps to the one before, and nothing
jumps to the last. -/
def cascade (n : Nat) : List (Block String String) :=
  ⟨none, ["main()"], .ret⟩ :: (List.range n).map link

/-- Different blocks have different labels: a number can be read back from its digits. -/
theorem link_label_injective : Function.Injective Nat.repr := by
  intro m n h
  have hdigits := congrArg String.toList h
  rw [Nat.toList_repr, Nat.toList_repr] at hdigits
  rw [← Nat.ofDigitChars_ten_toDigits (n := m), hdigits, Nat.ofDigitChars_ten_toDigits]

/-- A link does not fall through. -/
theorem link_fallsThrough (j : Nat) : (link j).exit.fallsThrough = false := by
  cases j <;> rfl

/-- A link jumps to the one before it. -/
theorem link_targets_succ (j : Nat) : (link (j + 1)).exit.targets = [Nat.repr j] :=
  rfl

/-- A longer cascade has one more link. -/
theorem cascade_succ (n : Nat) : cascade (n + 1) = cascade n ++ [link n] := by
  rw [cascade, List.range_succ, List.map_append, List.map_singleton, cascade, List.cons_append]

/-- No block of a cascade falls through. -/
theorem fallsThrough_of_mem_cascade {n : Nat} {b : Block String String} (hb : b ∈ cascade n) :
    b.exit.fallsThrough = false := by
  rcases List.mem_cons.1 hb with rfl | hb
  · rfl
  · obtain ⟨j, -, rfl⟩ := List.mem_map.1 hb
    exact link_fallsThrough j

/-- The labels of a cascade are the numbers of its links. -/
theorem blockLabels_cascade (n : Nat) : blockLabels (cascade n) = (List.range n).map Nat.repr := by
  rw [cascade, blockLabels, List.filterMap_cons_none rfl, List.filterMap_map]
  exact List.filterMap_eq_map_iff_forall_eq_some.2 fun j _ => rfl

/-- The labels that are jumped to are all but the last. -/
theorem exitTargets_cascade_succ (n : Nat) :
    exitTargets (cascade (n + 1)) = (List.range n).map Nat.repr := by
  induction n with
  | zero => rfl
  | succ n ih =>
    rw [cascade_succ, exitTargets, List.flatMap_append]
    rw [exitTargets] at ih
    rw [ih, List.flatMap_singleton, link_targets_succ, List.range_succ, List.map_append,
      List.map_singleton]

/-- Cascades are valid. -/
theorem valid_cascade (n : Nat) : Valid (cascade n) := by
  refine ⟨?_, fun t ht => ?_, fun b hb => fallsThrough_of_mem_cascade (List.mem_of_getLast? hb)⟩
  · rw [blockLabels_cascade]
    exact List.nodup_range.map link_label_injective
  · cases n with
    | zero => cases ht
    | succ n =>
      rw [exitTargets_cascade_succ] at ht
      rw [blockLabels_cascade]
      obtain ⟨j, hj, rfl⟩ := List.mem_map.1 ht
      refine List.mem_map_of_mem (List.mem_range.2 ?_)
      exact Nat.lt_succ_of_lt (List.mem_range.1 hj)

/-- No block of a cascade is empty, so no jump is sent on. -/
theorem threadJumps_cascade (n : Nat) : threadJumps (cascade n) = (cascade n, 0) := by
  have hnone : forwards (cascade n) = [] := by
    rw [forwards, List.filterMap_eq_nil_iff]
    intro b hb
    rcases List.mem_cons.1 hb with rfl | hb
    · rfl
    · obtain ⟨j, -, rfl⟩ := List.mem_map.1 hb
      rfl
  have hzero : (threadJumps (cascade n)).2 = 0 := by
    rw [threadJumps_changes_eq_zero_iff, hnone]
    exact fun _ _ => rfl
  exact Prod.ext (threadJumps_eq_self hzero) hzero

/-- No block of a cascade jumps to the next one. -/
theorem dropAdjacentJumps_cascade (n : Nat) : dropAdjacentJumps (cascade n) = (cascade n, 0) := by
  have hlinks : ∀ (b : Block String String) (m k : Nat), (∀ t, b.exit = .jump t → t ≠ Nat.repr m) →
      (dropAdjacentJumps (b :: (List.range' m k).map link)).2 = 0 := by
    intro b m k
    induction k generalizing b m with
    | zero => exact fun _ => rfl
    | succ k ih =>
      intro hb
      have hjump : b.exit.jumpsTo (link m).label = false := by
        rw [Bool.eq_false_iff]
        intro h
        obtain ⟨t, ht, hl⟩ := Exit.jumpsTo_iff.1 h
        exact hb t ht (Option.some.inj hl).symm
      have hrest := ih (link m) (m + 1) (fun t ht => by
        cases m with
        | zero => cases ht
        | succ m =>
          rw [← Exit.jump.inj ht]
          intro h
          have := link_label_injective h
          omega)
      rw [List.range'_succ, List.map_cons, dropAdjacentJumps, hjump]
      exact hrest
  have hzero : (dropAdjacentJumps (cascade n)).2 = 0 := by
    rw [cascade, List.range_eq_range']
    exact hlinks _ 0 n (fun t ht => by cases ht)
  exact Prod.ext (dropAdjacentJumps_eq_self hzero) hzero

/-- The last label goes, and only that one. -/
theorem dropDeadLabels_cascade_succ (n : Nat) :
    (dropDeadLabels (cascade (n + 1))).1 = cascade n ++ [{ link n with label := none }] := by
  rw [dropDeadLabels_blocks, exitTargets_cascade_succ, cascade_succ, List.map_append,
    List.map_singleton]
  congr 1
  · conv_rhs => rw [← List.map_id (cascade n)]
    refine List.map_congr_left fun b hb => if_neg ?_
    rcases List.mem_cons.1 hb with rfl | hb
    · exact Bool.false_ne_true
    · obtain ⟨j, hj, rfl⟩ := List.mem_map.1 hb
      have hmem : Nat.repr j ∈ (List.range n).map Nat.repr := List.mem_map_of_mem hj
      exact fun hdead => of_decide_eq_true hdead hmem
  · have hmem : Nat.repr n ∉ (List.range n).map Nat.repr := by
      intro h
      obtain ⟨j, hj, heq⟩ := List.mem_map.1 h
      rw [link_label_injective heq] at hj
      exact absurd (List.mem_range.1 hj) (lt_irrefl n)
    have hdead : (link n).labelIsDead ((List.range n).map Nat.repr) = true := decide_eq_true hmem
    rw [Block.trimmed, if_pos hdead]

/-- The last block is not entered once its label is gone. -/
theorem dropUnreachable_cascade (n : Nat) (b : Block String String) (hb : b.label = none) :
    (dropUnreachable (cascade n ++ [b])).1 = cascade n := by
  have hlinks : ∀ js : List Nat, reachableAfter false (js.map link ++ [b]) = js.map link := by
    intro js
    induction js with
    | nil => rw [List.map_nil, List.nil_append, reachableAfter, hb]; rfl
    | cons j js ih =>
      rw [List.map_cons, List.cons_append, reachableAfter, link_fallsThrough, ih]
      rfl
  rw [cascade, List.cons_append, dropUnreachable_cons]
  exact congrArg _ (hlinks (List.range n))

/-- Blocks that do not fall through are not joined. -/
theorem joinBlocks_eq_self {b : Block σ ε} {rest : List (Block σ ε)}
    (h : ∀ c ∈ b :: rest, c.exit.fallsThrough = false) : joinBlocks b rest = b :: rest := by
  induction rest generalizing b with
  | nil => rfl
  | cons next rest ih =>
    have hb : b.exit.isFallThrough = false := by
      have := h b List.mem_cons_self
      cases hexit : b.exit <;> simp_all [Exit.fallsThrough, Exit.isFallThrough]
    rw [joinBlocks, hb, Bool.and_false, Bool.and_false, if_neg Bool.false_ne_true,
      if_neg Bool.false_ne_true, ih fun c hc => h c (List.mem_cons_of_mem _ hc)]

/-- One round takes off the last block. -/
theorem round_cascade_succ (n : Nat) : (round (cascade (n + 1))).1 = cascade n := by
  simp only [round, threadJumps_cascade, dropAdjacentJumps_cascade, dropDeadLabels_cascade_succ]
  rw [dropUnreachable_cascade n _ rfl]
  exact joinBlocks_eq_self fun c hc => fallsThrough_of_mem_cascade (n := n) hc

/-- A cascade settles after as many rounds as it has links. -/
theorem settles_cascade (n : Nat) : Settles (cascade n) n := by
  induction n with
  | zero => exact settles_zero rfl
  | succ n ih =>
    refine settles_succ_iff.2 ⟨fun hzero => ?_, ?_⟩
    · have heq := round_eq_self hzero
      rw [round_cascade_succ, cascade_succ, List.self_eq_append_right] at heq
      cases heq
    · rwa [round_cascade_succ]

/-- Of a cascade only the first block is left. -/
theorem afterRounds_cascade (n : Nat) : afterRounds n (cascade n) = cascade 0 := by
  induction n with
  | zero => rfl
  | succ n ih => rw [afterRounds_succ, round_cascade_succ, ih]

/-- The function of a cascade. -/
def cascadeFunction (n : Nat) : Function String String :=
  ⟨"_f", "func _f()", none, [], cascade n⟩

/-- A cascade of 63 blocks is the longest that is cleaned up. Its return is all that is left. -/
theorem simplify_cascadeFunction :
    validate (cascadeFunction 63).blocks = .ok () ∧
      ∃ report', (cascadeFunction 63).simplify .empty = .ok (report', cascadeFunction 0) := by
  have hv : validate (cascadeFunction 63).blocks = .ok () :=
    (validate_eq_ok_iff _).2 (valid_cascade 63)
  obtain ⟨k, -, hs, hrun⟩ := simplify_of_valid .empty hv
  have hk : k = 63 := hs.unique (settles_cascade 63)
  have hblocks : afterRounds k (cascadeFunction 63).blocks = cascade 0 := by
    rw [hk, cascadeFunction, afterRounds_cascade]
  rw [if_pos (by rw [hk]; decide), hblocks] at hrun
  exact ⟨hv, hrun⟩

/-- A cascade of 64 blocks is valid, but needs one round more than are allowed. -/
theorem cascade_exceeds_rounds :
    validate (cascadeFunction 64).blocks = .ok () ∧
      (cascadeFunction 64).simplify .empty = .error (.noFixpoint maxRounds) := by
  have hv : Valid (cascadeFunction 64).blocks := valid_cascade 64
  have hs : Settles (cascadeFunction 64).blocks 64 := settles_cascade 64
  have hrun := Function.simplify_of_settles .empty hv hs
  rw [if_neg (by decide)] at hrun
  exact ⟨(validate_eq_ok_iff _).2 hv, hrun⟩

end StackToGo.Go

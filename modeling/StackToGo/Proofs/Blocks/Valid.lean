import StackToGo.Proofs.Blocks.Machine
import Mathlib.Data.List.Nodup

/-!
# Valid blocks

What `validate` asks for, as a proposition (`Valid`, `validate_eq_ok_iff`), and what it gives: the
label of an exit names exactly one place of the program (`Valid.enter_eq`). Every pass keeps blocks
valid. The pass that sends jumps on is treated in `Blocks.Threading`; the other four are here.
-/

namespace StackToGo.Go

variable {σ ε : Type}

/-- Labels are unique, every exit names labels that exist, and control does not fall off the
end. -/
structure Valid (blocks : List (Block σ ε)) : Prop where
  nodup : (blockLabels blocks).Nodup
  defined : ∀ t ∈ exitTargets blocks, t ∈ blockLabels blocks
  closed : ∀ b ∈ blocks.getLast?, b.exit.fallsThrough = false

/-- No label is found twice exactly if there are no duplicates, neither among the labels nor with
those seen. -/
theorem firstRepeated_eq_none_iff (labels seen : List String) :
    firstRepeated seen labels = none ↔ labels.Nodup ∧ ∀ l ∈ labels, l ∉ seen := by
  induction labels generalizing seen with
  | nil => simp [firstRepeated]
  | cons l rest ih =>
    rw [firstRepeated]
    split
    · next hl => simp [hl]
    · next hl =>
      rw [ih, List.nodup_cons]
      constructor
      · rintro ⟨hnd, hseen⟩
        refine ⟨⟨fun hmem => hseen l hmem (by simp), hnd⟩, ?_⟩
        rintro x hx
        rcases List.mem_cons.1 hx with rfl | hx
        · exact hl
        · exact fun hmem => hseen x hx (List.mem_cons_of_mem _ hmem)
      · rintro ⟨⟨hnot, hnd⟩, hseen⟩
        refine ⟨hnd, fun x hx hmem => ?_⟩
        rcases List.mem_cons.1 hmem with rfl | hmem
        · exact hnot hx
        · exact hseen x (List.mem_cons_of_mem _ hx) hmem

/-- `validate` accepts exactly the valid blocks. -/
theorem validate_eq_ok_iff (blocks : List (Block σ ε)) :
    validate blocks = .ok () ↔ Valid blocks := by
  rw [validate]
  constructor
  · intro h
    split at h
    · cases h
    · next hrep =>
      split at h
      · cases h
      · next hfind =>
        split at h
        · cases h
        · next hlast =>
          refine ⟨((firstRepeated_eq_none_iff _ _).1 hrep).1, fun t ht => ?_, fun b hb => ?_⟩
          · simpa using List.find?_eq_none.1 hfind t ht
          · rw [Option.mem_def.1 hb, Option.any_some, Bool.not_eq_true] at hlast
            exact hlast
  · intro h
    have hrep : firstRepeated [] (blockLabels blocks) = none :=
      (firstRepeated_eq_none_iff _ _).2 ⟨h.nodup, by simp⟩
    have hfind : (exitTargets blocks).find? (· ∉ blockLabels blocks) = none := by
      rw [List.find?_eq_none]
      intro t ht
      simpa using h.defined t ht
    have hlast : blocks.getLast?.any (·.exit.fallsThrough) = false := by
      cases hb : blocks.getLast? with
      | none => rfl
      | some b => exact h.closed b hb
    rw [hrep]
    dsimp only
    rw [hfind, hlast]
    rfl

/-! ## The place of a label -/

/-- The labels are those that blocks have. -/
theorem mem_blockLabels {blocks : List (Block σ ε)} {t : String} :
    t ∈ blockLabels blocks ↔ ∃ b ∈ blocks, b.label = some t := by
  simp [blockLabels]

/-- The targets are those that exits of blocks name. -/
theorem mem_exitTargets {blocks : List (Block σ ε)} {t : String} :
    t ∈ exitTargets blocks ↔ ∃ b ∈ blocks, t ∈ b.exit.targets := by
  simp [exitTargets]

/-- The block with the label is where a jump to it enters. -/
theorem enter_cons_self {b : Block σ ε} {t : String} (h : b.label = some t)
    (later : List (Block σ ε)) : enter (b :: later) t = b :: later := by
  rw [enter, List.dropWhile_cons_of_neg (by simp [h])]

/-- A block with another label is passed over. -/
theorem enter_cons_ne {b : Block σ ε} {t : String} (h : b.label ≠ some t)
    (later : List (Block σ ε)) : enter (b :: later) t = enter later t := by
  rw [enter, List.dropWhile_cons_of_pos (by simp [h]), enter]

/-- What is entered is a rest of the blocks. -/
theorem enter_suffix (blocks : List (Block σ ε)) (t : String) : enter blocks t <:+ blocks :=
  List.dropWhile_suffix _

/-- Changing blocks one by one keeps the place of a label, if no block loses or gains it. -/
theorem enter_map {f : Block σ ε → Block σ ε} {t : String}
    (h : ∀ b, (f b).label = some t ↔ b.label = some t) (blocks : List (Block σ ε)) :
    enter (blocks.map f) t = (enter blocks t).map f := by
  induction blocks with
  | nil => rfl
  | cons b rest ih =>
    rw [List.map_cons]
    by_cases hb : b.label = some t
    · rw [enter_cons_self ((h b).2 hb), enter_cons_self hb, List.map_cons]
    · rw [enter_cons_ne (mt (h b).1 hb), enter_cons_ne hb, ih]

/-- If labels are unique, a label names the place of every block that has it. -/
theorem enter_eq_of_nodup {blocks later : List (Block σ ε)} {b : Block σ ε} {t : String}
    (hnd : (blockLabels blocks).Nodup) (hb : b.label = some t) (hsuf : (b :: later) <:+ blocks) :
    enter blocks t = b :: later := by
  obtain ⟨front, rfl⟩ := hsuf
  induction front with
  | nil => exact enter_cons_self hb later
  | cons c front ih =>
    have hmem : t ∈ blockLabels (front ++ b :: later) := mem_blockLabels.2 ⟨b, by simp, hb⟩
    have hc : c.label ≠ some t := by
      intro hc
      rw [List.cons_append, blockLabels, List.filterMap_cons_some hc, List.nodup_cons] at hnd
      exact hnd.1 hmem
    rw [List.cons_append, enter_cons_ne hc]
    refine ih ?_
    rw [List.cons_append] at hnd
    exact hnd.sublist (List.Sublist.filterMap _ (List.sublist_cons_self _ _))

/-! ## Passes keep blocks valid -/

section AdjacentJumps

/-- The block, falling through if it jumps to the label of the next block. -/
def Block.relaxed (b : Block σ ε) (nextLabel : Option String) : Block σ ε :=
  if b.exit.jumpsTo nextLabel then { b with exit := .fallThrough } else b

/-- The label stays. -/
@[simp] theorem Block.relaxed_label (b : Block σ ε) (l : Option String) :
    (b.relaxed l).label = b.label := by
  rw [relaxed]; split <;> rfl

/-- No targets are added. -/
theorem Block.relaxed_targets (b : Block σ ε) (l : Option String) :
    (b.relaxed l).exit.targets ⊆ b.exit.targets := by
  rw [relaxed]
  split
  · exact List.nil_subset _
  · exact List.Subset.refl _

/-- A block is relaxed by the label of the block after it. -/
theorem dropAdjacentJumps_cons_cons (b next : Block σ ε) (rest : List (Block σ ε)) :
    (dropAdjacentJumps (b :: next :: rest)).1 =
      b.relaxed next.label :: (dropAdjacentJumps (next :: rest)).1 := by
  rw [dropAdjacentJumps, Block.relaxed]
  dsimp only
  split <;> rfl

/-- Removing jumps to the next block leaves the labels. -/
theorem dropAdjacentJumps_labels (blocks : List (Block σ ε)) :
    (dropAdjacentJumps blocks).1.map (·.label) = blocks.map (·.label) := by
  induction blocks with
  | nil => rfl
  | cons b rest ih =>
    cases rest with
    | nil => rfl
    | cons next rest =>
      rw [dropAdjacentJumps_cons_cons, List.map_cons, ih, Block.relaxed_label]
      rfl

/-- Removing jumps to the next block adds no targets. -/
theorem dropAdjacentJumps_targets (blocks : List (Block σ ε)) :
    exitTargets (dropAdjacentJumps blocks).1 ⊆ exitTargets blocks := by
  induction blocks with
  | nil => exact List.Subset.refl _
  | cons b rest ih =>
    cases rest with
    | nil => exact List.Subset.refl _
    | cons next rest =>
      rw [dropAdjacentJumps_cons_cons]
      intro t ht
      rcases List.mem_append.1 ht with ht | ht
      · exact List.mem_append_left _ (b.relaxed_targets next.label ht)
      · exact List.mem_append_right _ (ih ht)

/-- Removing jumps to the next block leaves the last block. -/
theorem dropAdjacentJumps_getLast? (blocks : List (Block σ ε)) :
    (dropAdjacentJumps blocks).1.getLast? = blocks.getLast? := by
  induction blocks with
  | nil => rfl
  | cons b rest ih =>
    cases rest with
    | nil => rfl
    | cons next rest =>
      have hne : (dropAdjacentJumps (next :: rest)).1 ≠ [] := by
        intro h
        have := dropAdjacentJumps_labels (next :: rest)
        simp [h] at this
      rw [dropAdjacentJumps_cons_cons, List.getLast?_cons_of_ne_nil hne, ih,
        List.getLast?_cons_of_ne_nil (List.cons_ne_nil _ _)]

end AdjacentJumps

/-- Blocks with the same labels one by one have the same labels. -/
theorem blockLabels_eq_of_map {blocks blocks' : List (Block σ ε)}
    (h : blocks'.map (·.label) = blocks.map (·.label)) :
    blockLabels blocks' = blockLabels blocks := by
  have hmap : ∀ l : List (Block σ ε), blockLabels l = (l.map (·.label)).filterMap id := by
    intro l
    rw [List.filterMap_map]
    rfl
  rw [hmap, hmap, h]

/-- Jumps that fall through instead leave blocks valid. -/
theorem Valid.dropAdjacentJumps {blocks : List (Block σ ε)} (h : Valid blocks) :
    Valid (dropAdjacentJumps blocks).1 := by
  have hlabels := blockLabels_eq_of_map (dropAdjacentJumps_labels blocks)
  refine ⟨hlabels ▸ h.nodup, fun t ht => ?_, fun b hb => ?_⟩
  · rw [hlabels]
    exact h.defined t (dropAdjacentJumps_targets blocks ht)
  · rw [dropAdjacentJumps_getLast?] at hb
    exact h.closed b hb

section DeadLabels

/-- The block without its label if the label is not among those named. -/
def Block.trimmed (named : List String) (b : Block σ ε) : Block σ ε :=
  if b.labelIsDead named then { b with label := none } else b

/-- The exit stays. -/
@[simp] theorem Block.trimmed_exit (named : List String) (b : Block σ ε) :
    (b.trimmed named).exit = b.exit := by
  rw [trimmed]; split <;> rfl

/-- A block keeps exactly the labels that are named. -/
theorem Block.trimmed_label_eq_some_iff {named : List String} {b : Block σ ε} {t : String} :
    (b.trimmed named).label = some t ↔ b.label = some t ∧ t ∈ named := by
  rw [trimmed, labelIsDead]
  cases hb : b.label with
  | none => simp [hb]
  | some l =>
    by_cases hl : l ∈ named
    · simp only [Option.any_some, hl, not_true_eq_false, decide_false,
        Bool.false_eq_true, if_false, hb, Option.some.injEq]
      exact ⟨fun h => ⟨h, h ▸ hl⟩, fun h => h.1⟩
    · simp only [Option.any_some, hl, not_false_eq_true, decide_true, if_true, reduceCtorEq,
        Option.some.injEq, false_iff, not_and]
      rintro rfl
      exact hl

/-- Removing labels trims every block by the targets of all of them. -/
theorem dropDeadLabels_blocks (blocks : List (Block σ ε)) :
    (dropDeadLabels blocks).1 = blocks.map (Block.trimmed (exitTargets blocks)) :=
  rfl

/-- Removing labels leaves the targets. -/
theorem dropDeadLabels_targets (blocks : List (Block σ ε)) :
    exitTargets (dropDeadLabels blocks).1 = exitTargets blocks := by
  simp only [exitTargets, dropDeadLabels_blocks, List.flatMap_map, Block.trimmed_exit]

/-- Trimming leaves the labels that are named. -/
theorem blockLabels_map_trimmed (named : List String) (blocks : List (Block σ ε)) :
    blockLabels (blocks.map (Block.trimmed named)) = (blockLabels blocks).filter (· ∈ named) := by
  induction blocks with
  | nil => rfl
  | cons b rest ih =>
    rw [List.map_cons, blockLabels, blockLabels, List.filterMap_cons, List.filterMap_cons]
    cases hb : b.label with
    | none =>
      have : (b.trimmed named).label = none := by
        rw [Option.eq_none_iff_forall_ne_some]
        intro t ht
        rw [Block.trimmed_label_eq_some_iff, hb] at ht
        cases ht.1
      simp only [this]
      exact ih
    | some l =>
      by_cases hl : l ∈ named
      · have := Block.trimmed_label_eq_some_iff.2 ⟨hb, hl⟩
        simp only [this]
        rw [List.filter_cons_of_pos (by simpa using hl)]
        exact congrArg _ ih
      · have : (b.trimmed named).label = none := by
          rw [Option.eq_none_iff_forall_ne_some]
          intro t ht
          obtain ⟨hbt, ht⟩ := Block.trimmed_label_eq_some_iff.1 ht
          rw [hb] at hbt
          cases hbt
          exact hl ht
        simp only [this]
        rw [List.filter_cons_of_neg (by simpa using hl)]
        exact ih

/-- Removing labels that nothing names leaves blocks valid. -/
theorem Valid.dropDeadLabels {blocks : List (Block σ ε)} (h : Valid blocks) :
    Valid (dropDeadLabels blocks).1 := by
  have hlabels := blockLabels_map_trimmed (exitTargets blocks) blocks
  refine ⟨?_, fun t ht => ?_, fun b hb => ?_⟩
  · rw [dropDeadLabels_blocks, hlabels]
    exact h.nodup.filter _
  · rw [dropDeadLabels_targets] at ht
    rw [dropDeadLabels_blocks, hlabels, List.mem_filter]
    exact ⟨h.defined t ht, by simpa using ht⟩
  · rw [dropDeadLabels_blocks, List.getLast?_map, Option.mem_map] at hb
    obtain ⟨c, hc, rfl⟩ := hb
    rw [Block.trimmed_exit]
    exact h.closed c hc

end DeadLabels

section Unreachable

/-- The blocks that can be entered among those after one that goes on to them, or does not. -/
def reachableAfter (falls : Bool) : List (Block σ ε) → List (Block σ ε)
  | [] => []
  | b :: rest =>
    if b.label.isNone && !falls then reachableAfter falls rest
    else b :: reachableAfter b.exit.fallsThrough rest

/-- The blocks that are kept are the previous one and those that can be entered after it. -/
theorem keepReachable_eq (previous : Block σ ε) (rest : List (Block σ ε)) :
    keepReachable previous rest = previous :: reachableAfter previous.exit.fallsThrough rest := by
  induction rest generalizing previous with
  | nil => rfl
  | cons b rest ih =>
    rw [keepReachable, reachableAfter]
    split
    · exact ih previous
    · rw [ih b]

/-- The first block is always kept. -/
theorem dropUnreachable_cons (b : Block σ ε) (rest : List (Block σ ε)) :
    (dropUnreachable (b :: rest)).1 = b :: reachableAfter b.exit.fallsThrough rest :=
  keepReachable_eq b rest

/-- Only blocks without a label are left out. -/
theorem reachableAfter_labels (falls : Bool) (rest : List (Block σ ε)) :
    blockLabels (reachableAfter falls rest) = blockLabels rest := by
  induction rest generalizing falls with
  | nil => rfl
  | cons b rest ih =>
    rw [reachableAfter]
    split
    · next hb =>
      rw [Bool.and_eq_true, Option.isNone_iff_eq_none] at hb
      rw [ih, blockLabels, blockLabels, List.filterMap_cons_none hb.1]
    · have := ih b.exit.fallsThrough
      rw [blockLabels, blockLabels] at this
      rw [blockLabels, List.filterMap_cons, this, blockLabels, List.filterMap_cons]

/-- Blocks are kept in their order. -/
theorem reachableAfter_sublist (falls : Bool) (rest : List (Block σ ε)) :
    (reachableAfter falls rest).Sublist rest := by
  induction rest generalizing falls with
  | nil => exact List.Sublist.refl _
  | cons b rest ih =>
    rw [reachableAfter]
    split
    · exact (ih falls).cons b
    · exact (ih _).cons_cons b

/-- A block that is left out at the end stands after one that control does not go on from. -/
theorem reachableAfter_closed {b : Block σ ε} {rest : List (Block σ ε)}
    (h : ∀ c ∈ (b :: rest).getLast?, c.exit.fallsThrough = false) :
    ∀ c ∈ (b :: reachableAfter b.exit.fallsThrough rest).getLast?,
    c.exit.fallsThrough = false := by
  induction rest generalizing b with
  | nil => exact h
  | cons d rest ih =>
    rw [List.getLast?_cons_cons] at h
    rw [reachableAfter]
    split
    · next hd =>
      rw [Bool.and_eq_true, Bool.not_eq_true'] at hd
      -- `d` is left out, so the last block is `b` itself if nothing follows `d`.
      refine ih ?_
      cases rest with
      | nil =>
        intro c hc
        rw [List.getLast?_singleton, Option.mem_some] at hc
        exact hc ▸ hd.2
      | cons e rest =>
        rw [List.getLast?_cons_cons] at h ⊢
        exact h
    · rw [List.getLast?_cons_cons]
      exact ih h

/-- Removing blocks that cannot be entered leaves blocks valid. -/
theorem Valid.dropUnreachable {blocks : List (Block σ ε)} (h : Valid blocks) :
    Valid (dropUnreachable blocks).1 := by
  cases blocks with
  | nil => exact h
  | cons b rest =>
    rw [dropUnreachable_cons]
    have hlabels : blockLabels (b :: reachableAfter b.exit.fallsThrough rest) =
        blockLabels (b :: rest) := by
      have := reachableAfter_labels b.exit.fallsThrough rest
      rw [blockLabels, blockLabels] at this
      rw [blockLabels, List.filterMap_cons, this, blockLabels, List.filterMap_cons]
    refine ⟨hlabels ▸ h.nodup, fun t ht => ?_, reachableAfter_closed h.closed⟩
    rw [hlabels]
    refine h.defined t ?_
    obtain ⟨c, hc, hct⟩ := mem_exitTargets.1 ht
    exact mem_exitTargets.2 ⟨c, ((reachableAfter_sublist _ rest).cons_cons b).subset hc, hct⟩

end Unreachable

section Merging

/-- A block that falls through has no targets of its own, so joining it with the next one keeps all
targets. -/
theorem Exit.targets_of_isFallThrough {exit : Exit ε} (h : exit.isFallThrough = true) :
    exit.targets = [] := by
  cases exit <;> first | rfl | cases h

/-- Joining blocks leaves the labels. -/
theorem joinBlocks_labels (previous : Block σ ε) (rest : List (Block σ ε)) :
    blockLabels (joinBlocks previous rest) = blockLabels (previous :: rest) := by
  fun_induction joinBlocks previous rest with
  | case1 => rfl
  | case2 previous b rest hb ih =>
    rw [Bool.and_eq_true, Option.isNone_iff_eq_none] at hb
    rw [ih, blockLabels, blockLabels, List.filterMap_cons, List.filterMap_cons,
      List.filterMap_cons_none hb.1]
  | case3 previous b rest _ hprev ih =>
    rw [Bool.and_eq_true, Bool.and_eq_true, Option.isNone_iff_eq_none] at hprev
    rw [ih, blockLabels, blockLabels, List.filterMap_cons_none hprev.1.1]
  | case4 previous b rest _ _ ih =>
    rw [blockLabels, blockLabels] at ih
    rw [blockLabels, List.filterMap_cons, ih, blockLabels, List.filterMap_cons (a := previous)]

/-- Joining blocks leaves the targets. -/
theorem joinBlocks_targets (previous : Block σ ε) (rest : List (Block σ ε)) :
    exitTargets (joinBlocks previous rest) = exitTargets (previous :: rest) := by
  fun_induction joinBlocks previous rest with
  | case1 => rfl
  | case2 previous b rest hb ih =>
    rw [Bool.and_eq_true] at hb
    have := Exit.targets_of_isFallThrough hb.2
    rw [ih, exitTargets, exitTargets, List.flatMap_cons, List.flatMap_cons,
      List.flatMap_cons, this, List.nil_append]
  | case3 previous b rest _ hprev ih =>
    rw [Bool.and_eq_true] at hprev
    have := Exit.targets_of_isFallThrough hprev.2
    rw [ih, exitTargets, exitTargets, List.flatMap_cons (x := previous), this, List.nil_append]
  | case4 previous b rest _ _ ih =>
    rw [exitTargets, exitTargets] at ih
    rw [exitTargets, List.flatMap_cons, ih, exitTargets, List.flatMap_cons (x := previous)]

/-- The exit of the last block is that of the last block before. -/
theorem joinBlocks_lastExit (previous : Block σ ε) (rest : List (Block σ ε)) :
    (joinBlocks previous rest).getLast?.map (·.exit) =
      (previous :: rest).getLast?.map (·.exit) := by
  fun_induction joinBlocks previous rest with
  | case1 => rfl
  | case2 previous b rest hb ih =>
    rw [ih, List.getLast?_cons_cons]
    cases rest with
    | nil => rfl
    | cons c rest => rw [List.getLast?_cons_cons, List.getLast?_cons_cons]
  | case3 previous b rest _ hprev ih => rw [ih, List.getLast?_cons_cons]
  | case4 previous b rest _ _ ih =>
    have hne : joinBlocks b rest ≠ [] := by
      intro h
      rw [h, List.getLast?_nil, Option.map_none] at ih
      simp at ih
    rw [List.getLast?_cons_of_ne_nil hne, ih, List.getLast?_cons_cons]

/-- Joining blocks leaves them valid. -/
theorem Valid.mergeFallThrough {blocks : List (Block σ ε)} (h : Valid blocks) :
    Valid (mergeFallThrough blocks).1 := by
  cases blocks with
  | nil => exact h
  | cons b rest =>
    show Valid (joinBlocks b rest)
    refine ⟨joinBlocks_labels b rest ▸ h.nodup, fun t ht => ?_, fun c hc => ?_⟩
    · rw [joinBlocks_labels]
      exact h.defined t (joinBlocks_targets b rest ▸ ht)
    · have hlast := joinBlocks_lastExit b rest
      rw [Option.mem_def.1 hc, Option.map_some] at hlast
      obtain ⟨d, hd, hcd⟩ := Option.map_eq_some_iff.1 hlast.symm
      exact hcd ▸ h.closed d hd

end Merging

end StackToGo.Go

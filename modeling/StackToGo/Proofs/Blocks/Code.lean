import StackToGo.Proofs.Blocks.Cleanup
import StackToGo.Proofs.Flow.Rules

/-!
# Clean-up adds no code

Passes move statements and exits from block to block, and leave some out, but none makes a new one:
what holds of all statements and of all expressions in exits before clean-up holds of those after
it. In a file nothing but the blocks of functions changes.
-/

namespace StackToGo.Go

variable {σ ε : Type}

/-- The expressions of an exit: a condition, or a scrutinee and constants. -/
def Exit.parts : Exit ε → List ε
  | .branch condition _ => [condition]
  | .switch scrutinee cases _ => scrutinee :: cases.map (·.1)
  | _ => []

/-- Other targets leave the expressions of an exit. -/
@[simp] theorem Exit.parts_mapTargets (g : String → String) (exit : Exit ε) :
    (exit.mapTargets g).parts = exit.parts := by
  cases exit <;> simp [Exit.mapTargets, Exit.parts]

/-- The statements of the block have the property `P`, and the expressions of its exit the property
`Q`. -/
structure Block.Consists (P : σ → Prop) (Q : ε → Prop) (b : Block σ ε) : Prop where
  statements : ∀ s ∈ b.statements, P s
  parts : ∀ x ∈ b.exit.parts, Q x

variable {P : σ → Prop} {Q : ε → Prop} {blocks : List (Block σ ε)}

/-! ## Passes -/

/-- A block that falls through instead has fewer expressions. -/
theorem Block.Consists.fallThrough {b : Block σ ε} (h : b.Consists P Q) :
    Block.Consists P Q { b with exit := .fallThrough } :=
  ⟨h.statements, fun _ hx => absurd hx List.not_mem_nil⟩

/-- Threading jumps makes no new code. -/
theorem consists_threadJumps (h : ∀ b ∈ blocks, b.Consists P Q) :
    ∀ b ∈ (threadJumps blocks).1, b.Consists P Q := by
  rw [threadJumps_blocks]
  intro b hb
  obtain ⟨b, hmem, rfl⟩ := List.mem_map.1 hb
  refine ⟨(h b hmem).statements, ?_⟩
  rw [Block.threaded, Exit.parts_mapTargets]
  exact (h b hmem).parts

/-- Dropping jumps to the next block makes no new code. -/
theorem consists_dropAdjacentJumps (h : ∀ b ∈ blocks, b.Consists P Q) :
    ∀ b ∈ (dropAdjacentJumps blocks).1, b.Consists P Q := by
  induction blocks with
  | nil => exact h
  | cons b rest ih =>
    rw [List.forall_mem_cons] at h
    rw [dropAdjacentJumps_cons, List.forall_mem_cons]
    refine ⟨?_, ih h.2⟩
    rw [Block.relaxed]
    split
    · exact h.1.fallThrough
    · exact h.1

/-- Dropping labels makes no new code. -/
theorem consists_dropDeadLabels (h : ∀ b ∈ blocks, b.Consists P Q) :
    ∀ b ∈ (dropDeadLabels blocks).1, b.Consists P Q := by
  intro b hb
  obtain ⟨b, hmem, rfl⟩ := List.mem_map.1 hb
  split
  · exact ⟨(h b hmem).statements, (h b hmem).parts⟩
  · exact h b hmem

/-- Dropping blocks that are not reached makes no new code. -/
theorem consists_dropUnreachable (h : ∀ b ∈ blocks, b.Consists P Q) :
    ∀ b ∈ (dropUnreachable blocks).1, b.Consists P Q := by
  cases blocks with
  | nil => exact h
  | cons b rest =>
    rw [List.forall_mem_cons] at h
    rw [dropUnreachable_cons, List.forall_mem_cons]
    exact ⟨h.1, fun b hb => h.2 b ((reachableAfter_sublist _ rest).subset hb)⟩

/-- Joining blocks makes no new code. -/
theorem consists_joinBlocks {previous : Block σ ε} (hprevious : previous.Consists P Q)
    (h : ∀ b ∈ blocks, b.Consists P Q) : ∀ b ∈ joinBlocks previous blocks, b.Consists P Q := by
  induction blocks generalizing previous with
  | nil =>
    intro b hb
    rw [List.mem_singleton.1 hb]
    exact hprevious
  | cons b rest ih =>
    rw [List.forall_mem_cons] at h
    rw [joinBlocks]
    split_ifs
    · refine ih ⟨fun s hs => ?_, h.1.parts⟩ h.2
      rcases List.mem_append.1 hs with hs | hs
      · exact hprevious.statements s hs
      · exact h.1.statements s hs
    · exact ih h.1 h.2
    · rw [List.forall_mem_cons]
      exact ⟨hprevious, ih h.1 h.2⟩

/-- Merging blocks makes no new code. -/
theorem consists_mergeFallThrough (h : ∀ b ∈ blocks, b.Consists P Q) :
    ∀ b ∈ (mergeFallThrough blocks).1, b.Consists P Q := by
  cases blocks with
  | nil => exact h
  | cons b rest =>
    rw [List.forall_mem_cons] at h
    exact consists_joinBlocks h.1 h.2

/-- A round makes no new code. -/
theorem consists_round (h : ∀ b ∈ blocks, b.Consists P Q) :
    ∀ b ∈ (round blocks).1, b.Consists P Q :=
  consists_mergeFallThrough <| consists_dropUnreachable <| consists_dropDeadLabels <|
    consists_dropAdjacentJumps <|
    consists_threadJumps h

/-- Rounds make no new code. -/
theorem consists_afterRounds (h : ∀ b ∈ blocks, b.Consists P Q) (n : Nat) :
    ∀ b ∈ afterRounds n blocks, b.Consists P Q := by
  induction n generalizing blocks with
  | zero => exact h
  | succ n ih =>
    rw [afterRounds_succ]
    exact ih (consists_round h)

/-! ## Files -/

/-- What clean-up makes of a part of a file: new blocks for a function, and everything else as it
was. -/
inductive Cleaned : Item σ ε → Item σ ε → Prop
  | function {f : Function σ ε} {blocks : List (Block σ ε)} {before after : Report}
      (h : f.simplify before = .ok (after, { f with blocks })) :
      Cleaned (.function f) (.function { f with blocks })
  | init (statement : σ) : Cleaned (.init statement) (.init statement)
  | text (s : String) : Cleaned (.text s) (.text s)

/-- Clean-up goes through a file part by part. -/
theorem forall₂_cleaned {report report' : Report} {items items' : List (Item σ ε)}
    (h : simplifyItems report items = .ok (report', items')) :
    List.Forall₂ Cleaned items items' := by
  induction items generalizing report report' items' with
  | nil =>
    cases h
    exact .nil
  | cons item rest ih =>
    cases item with
    | function f =>
      rw [simplifyItems] at h
      split at h
      case h_1 => cases h
      case h_2 report₁ g hg =>
        obtain ⟨⟨report₂, rest'⟩, hrest, h⟩ := Flow.bind_eq_ok h
        cases h
        obtain ⟨-, k, -, rfl⟩ := Function.simplify_eq_ok hg
        exact .cons (.function hg) (ih hrest)
    | init statement =>
      obtain ⟨⟨report₁, rest'⟩, hrest, h⟩ := Flow.bind_eq_ok h
      cases h
      exact .cons (.init statement) (ih hrest)
    | text s =>
      obtain ⟨⟨report₁, rest'⟩, hrest, h⟩ := Flow.bind_eq_ok h
      cases h
      exact .cons (.text s) (ih hrest)

/-- The blocks of a cleaned-up function consist of what its blocks consisted of. -/
theorem consists_of_simplify {f g : Function σ ε} {before after : Report}
    (h : f.simplify before = .ok (after, g)) (hf : ∀ b ∈ f.blocks, b.Consists P Q) :
    ∀ b ∈ g.blocks, b.Consists P Q := by
  obtain ⟨-, k, -, rfl⟩ := Function.simplify_eq_ok h
  exact consists_afterRounds hf k

end StackToGo.Go

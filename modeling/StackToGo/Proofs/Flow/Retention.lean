import StackToGo.Proofs.Flow.Duplicates

/-!
# No tree is lost

A tree that the builder has made is taken as an operand, goes in front of another tree as a side
effect, or becomes a statement or the condition of an exit. So what holds of some tree, and of
every tree that has it as a part, still holds of some tree in the nodes; an argument that the body
refers to is found there (`exists_tree_of_argument`).
-/

namespace StackToGo

/-- The property passes on from the parts of a tree to the tree. -/
def Tree.Inherited (P : Tree → Prop) : Prop :=
  ∀ shape type position comma, (∃ t ∈ comma ++ shape.operands, P t) →
    P (.mk shape type position comma)

namespace Flow

namespace Builder

variable {types : TypeTable} {b b' : Builder} {position : Position} {op : Op} {P : Tree → Prop}

/-- All trees that the builder has. -/
def allTrees (b : Builder) : List Tree := b.trees ++ (b.stack.flatMap Slot.trees ++ b.pending)

/-- The property holds of some tree that the builder has. -/
def Holds (P : Tree → Prop) (b : Builder) : Prop := ∃ t ∈ b.allTrees, P t

/-- The trees after a shape was pushed. -/
theorem allTrees_pushShape (below : List Slot) (shape : Shape) (type : Option TypeId) :
    ({ b with stack := below }.pushShape shape type position).allTrees =
      b.trees ++ .mk shape type position b.pending :: below.flatMap Slot.trees := by
  simp [allTrees, trees, pushShape, pushTree, Tree.before, Slot.trees]

/-- A tree that is pushed takes the place of its operands. -/
theorem Holds.push (h : b.Holds P) (hP : Tree.Inherited P) {below : List Slot} {shape : Shape}
    (hstack : b.stack.flatMap Slot.trees ⊆ shape.operands ++ below.flatMap Slot.trees)
    (type : Option TypeId) :
    ({ b with stack := below }.pushShape shape type position).Holds P := by
  obtain ⟨t, ht, htree⟩ := h
  rw [Holds, allTrees_pushShape]
  have hpart (hmem : t ∈ b.pending ++ shape.operands) : P (.mk shape type position b.pending) :=
    hP _ _ _ _ ⟨t, hmem, htree⟩
  rcases List.mem_append.1 ht with ht | ht
  · exact ⟨t, List.mem_append_left _ ht, htree⟩
  rcases List.mem_append.1 ht with ht | ht
  · rcases List.mem_append.1 (hstack ht) with ht | ht
    · exact ⟨_, List.mem_append_right _ List.mem_cons_self, hpart (List.mem_append_right _ ht)⟩
    · exact ⟨t, List.mem_append_right _ (List.mem_cons_of_mem _ ht), htree⟩
  · exact ⟨_, List.mem_append_right _ List.mem_cons_self, hpart (List.mem_append_left _ ht)⟩

/-- The trees of operands on the stack are the operands. -/
theorem flatMap_trees_operands (operands : List Tree) (below : List Slot) :
    (operands.reverse.map Slot.value ++ below).flatMap Slot.trees ⊆
      operands ++ below.flatMap Slot.trees := by
  intro t ht
  simpa [Slot.trees] using ht

/-- A call without a result is a tree of its operands too. -/
theorem Holds.call (h : b.Holds P) (hP : Tree.Inherited P) (position : Position) {shape : Shape}
    {operands : List Tree} {below : List Slot} (hoperands : shape.operands = operands)
    (hstack : b.stack = operands.reverse.map .value ++ .marker :: below)
    (hsub : b.trees ++ .mk shape none position [] :: (below.flatMap Slot.trees ++ b.pending) ⊆
      b'.allTrees) :
    b'.Holds P := by
  obtain ⟨t, ht, htree⟩ := h
  rw [allTrees, hstack] at ht
  rcases List.mem_append.1 ht with ht | ht
  · exact ⟨t, hsub (List.mem_append_left _ ht), htree⟩
  rcases List.mem_append.1 ht with ht | ht
  · rcases List.mem_append.1 (flatMap_trees_operands operands _ ht) with ht | ht
    · refine ⟨_, hsub (List.mem_append_right _ List.mem_cons_self), hP _ _ _ _ ⟨t, ?_, htree⟩⟩
      rwa [hoperands]
    · exact ⟨t,
        hsub (List.mem_append_right _ (List.mem_cons_of_mem _ (List.mem_append_left _ ht))), htree⟩
  · exact ⟨t, hsub (List.mem_append_right _ (List.mem_cons_of_mem _ (List.mem_append_right _ ht))),
      htree⟩

/-- A builder with more trees has a tree with the property too. -/
theorem Holds.of_subset (h : b.Holds P) (hsub : b.allTrees ⊆ b'.allTrees) : b'.Holds P := by
  obtain ⟨t, ht, htree⟩ := h
  exact ⟨t, hsub ht, htree⟩

/-- What works inside a node loses no tree with the property. -/
theorem Inner.holds (h : Inner types b position op b') (hP : Tree.Inherited P) (hb : b.Holds P) :
    b'.Holds P := by
  cases h with
  | idle | otherwise => exact hb
  | declare h hstack hpending =>
    exact hb.of_subset (by simp [allTrees, trees, addStatement, Statement.trees])
  | allocResult | arguments => exact hb.of_subset (by simp [allTrees, trees, push, Slot.trees])
  | operate operands hop hstack hpending hshape =>
    refine hb.push hP ?_ _
    rw [hstack, operands_of_strict hshape.strict]
    exact flatMap_trees_operands operands _
  | call hop htype hstack hpending hshape =>
    refine hb.push hP ?_ _
    rw [hstack, operands_of_strict hshape.strict]
    exact flatMap_trees_operands _ _
  | callStatement hop htype hstack hpending hshape =>
    refine hb.call hP position (operands_of_strict hshape.strict) hstack ?_
    intro t ht
    simpa [allTrees, trees, addStatement, Statement.trees, or_assoc] using ht
  | callEffect hop htype hstack hbelow hpending hshape =>
    refine hb.call hP position (operands_of_strict hshape.strict) hstack ?_
    intro t ht
    simp only [allTrees, List.mem_append, List.mem_cons, List.not_mem_nil, or_false] at ht ⊢
    tauto
  | dropStatement hstack =>
    refine hb.of_subset fun t ht => ?_
    simp only [allTrees, trees, hstack, List.flatMap_append, flatMap_trees_eval, List.mem_append,
      List.flatMap_cons, List.flatMap_nil, Slot.trees, List.append_nil, List.mem_cons,
      List.not_mem_nil, or_false] at ht ⊢
    tauto
  | dropEffect hstack hbelow =>
    refine hb.of_subset fun t ht => ?_
    simp only [allTrees, trees, hstack, List.mem_append, List.flatMap_cons, Slot.trees,
      List.mem_cons, List.not_mem_nil, or_false] at ht ⊢
    tauto
  | guard hstack hpending => exact hb.of_subset (by simp [allTrees, trees, hstack, Slot.trees])
  | endArm hstack hpending =>
    refine hb.of_subset fun t ht => ?_
    simp only [allTrees, trees, hstack, List.mem_append, List.flatMap_cons, Slot.trees,
      List.mem_cons, List.not_mem_nil, or_false] at ht ⊢
    tauto
  | logical hstack hpending =>
    refine hb.push hP (fun t ht => ?_) _
    simp only [hstack, List.flatMap_cons, Slot.trees, Shape.operands, List.mem_append,
      List.mem_cons, List.not_mem_nil, or_false] at ht ⊢
    tauto
  | @join cond first second onZero elseLabel label below hstack hpending =>
    refine hb.push hP (fun t ht => ?_) _
    simp only [hstack, List.flatMap_cons, Slot.trees, Shape.operands, List.mem_append,
      List.mem_cons, List.not_mem_nil, or_false] at ht ⊢
    cases onZero <;> simp only [Bool.false_eq_true, if_false, if_true] <;> tauto

/-- Ending a node loses no tree with the property. -/
theorem Holds.endNode (h : b.Holds P) {exit : Exit}
    (hstack : b.stack.flatMap Slot.trees = exit.trees) :
    ({ b with stack := [] }.endNode exit).Holds P := by
  refine h.of_subset fun t ht => ?_
  simp only [allTrees, trees, Builder.endNode, Node.trees, hstack, List.flatMap_append,
    List.flatMap_cons, List.flatMap_nil, List.append_nil, List.nil_append, List.mem_append] at ht ⊢
  tauto

/-- No step loses a tree with the property. -/
theorem step_holds (h : b.step types ⟨op, position⟩ = .ok b') (hP : Tree.Inherited P)
    (hb : b.Holds P) : b'.Holds P := by
  rcases rule_or_dup h with hrule | ⟨type, address, below, rfl, hstack, hpending, rfl⟩
  · cases hrule with
    | inner hinner => exact hinner.holds hP hb
    | exit hexit hstack hpending =>
      refine hb.endNode ?_
      rw [hstack, hexit.trees_eq, List.flatMap_map]
      simp [Slot.trees]
    | label hstack hpending =>
      have hempty : b = { b with stack := [] } := by rw [← hstack]
      by_cases hblank : b.isBlank
      · rw [if_pos hblank]
        exact hb
      · rw [if_neg hblank, hempty]
        exact hb.endNode (by rw [hstack]; rfl)
  · have hfirst :
        ({ b with stack := below }.pushShape (.dup address) address.type position).Holds P :=
      hb.push hP (by simp [hstack, Slot.trees, Shape.operands]) _
    exact hfirst.push hP (List.Subset.refl _) _

end Builder

/-- What holds of a reference to an argument holds of some tree in the nodes. -/
theorem exists_tree_of_argument {types : TypeTable} {body : List Instruction} {nodes : List Node}
    {P : Tree → Prop} (h : build types body = .ok nodes) (hP : Tree.Inherited P) {index : Nat}
    {type : TypeId} {address : Bool} {position : Position}
    (hmem : ⟨.argument index type address, position⟩ ∈ body)
    (hleaf : ∀ comma, P (.mk (.argument index address) (some type) position comma)) :
    ∃ t ∈ nodes.flatMap Node.trees, P t := by
  obtain ⟨b, hrun, hfinish⟩ := bind_eq_ok h
  have hb : b.Holds P := by
    refine Builder.run_induction (P := fun front b => ⟨.argument index type address, position⟩ ∈
      front → b.Holds P)
      nofun ?_ hrun hmem
    intro front b instruction b' _ ih hstep hmem
    rcases List.mem_append.1 hmem with hmem | hmem
    · exact Builder.step_holds hstep hP (ih hmem)
    · obtain rfl := List.mem_singleton.1 hmem
      cases hstep
      refine ⟨.mk (.argument index address) (some type) position b.pending, ?_, hleaf b.pending⟩
      exact Builder.allTrees_pushShape b.stack _ _ ▸ List.mem_append_right _ List.mem_cons_self
  obtain ⟨hstack, hpending, htrees⟩ := trees_of_finish hfinish
  obtain ⟨t, ht, htree⟩ := hb
  rw [Builder.allTrees, hstack, hpending, ← htrees] at ht
  exact ⟨t, by simpa using ht, htree⟩

end Flow

end StackToGo

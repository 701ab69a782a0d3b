import StackToGo.Tree

/-!
# Trees by their operands

What is said about all trees mostly looks at one tree, its comma list and its operands, whatever
its shape is. `Tree.fold` computes by that pattern, and `Tree.inductionOn` proves by it.
`Tree.relocate` moves a tree to other positions.
-/

namespace StackToGo

/-- The operands of a shape. -/
def Shape.operands : Shape → List Tree
  | .argument .. => []
  | .localVar .. => []
  | .result .. => []
  | .global .. => []
  | .const32 _ => []
  | .const64 _ => []
  | .stringConst _ => []
  | .null => []
  | .binary _ lhs rhs => [lhs, rhs]
  | .compare _ _ lhs rhs => [lhs, rhs]
  | .unary _ _ operand => [operand]
  | .convert _ operand => [operand]
  | .load _ pointer => [pointer]
  | .store _ _ address value => [address, value]
  | .copy _ dst src => [dst, src]
  | .element _ _ base index => [base, index]
  | .field _ _ base => [base]
  | .increment _ _ _ operand => [operand]
  | .ptrDiff _ lhs rhs => [lhs, rhs]
  | .call _ _ arguments => arguments
  | .callPointer _ callee arguments => callee :: arguments
  | .logical _ lhs rhs => [lhs, rhs]
  | .conditional cond whenTrue whenFalse => [cond, whenTrue, whenFalse]
  | .dup address => [address]
  | .dupRef => []

/-- The shape with other operands, as many as it has. -/
def Shape.withOperands : Shape → List Tree → Shape
  | .binary op _ _, [lhs, rhs] => .binary op lhs rhs
  | .compare op type _ _, [lhs, rhs] => .compare op type lhs rhs
  | .unary op type _, [operand] => .unary op type operand
  | .convert source _, [operand] => .convert source operand
  | .load type _, [pointer] => .load type pointer
  | .store bits bitOffset _ _, [address, value] => .store bits bitOffset address value
  | .copy type _ _, [dst, src] => .copy type dst src
  | .element address neg _ _, [base, index] => .element address neg base index
  | .field index address _, [base] => .field index address base
  | .increment pre delta bits _, [operand] => .increment pre delta bits operand
  | .ptrDiff type _ _, [lhs, rhs] => .ptrDiff type lhs rhs
  | .call index type _, arguments => .call index type arguments
  | .callPointer type _ _, callee :: arguments => .callPointer type callee arguments
  | .logical isAnd _ _, [lhs, rhs] => .logical isAnd lhs rhs
  | .conditional _ _ _, [cond, whenTrue, whenFalse] => .conditional cond whenTrue whenFalse
  | .dup _, [address] => .dup address
  | shape, _ => shape

/-- The operands that a shape is given are the operands that it has. -/
theorem Shape.operands_withOperands (shape : Shape) (f : Tree → Tree) :
    (shape.withOperands (shape.operands.map f)).operands = shape.operands.map f := by
  cases shape <;> rfl

section

variable {α : Type}

mutual
/-- Computes a value for a tree from those for its comma list and its operands. -/
def Tree.fold (f : Shape → Option TypeId → Position → List α → List α → α) : Tree → α
  | .mk shape type position comma =>
    f shape type position (Tree.folds f comma) (Shape.folds f shape)

/-- The values for trees in a list. -/
def Tree.folds (f : Shape → Option TypeId → Position → List α → List α → α) : List Tree → List α
  | [] => []
  | t :: later => t.fold f :: Tree.folds f later

/-- The values for the operands of a shape. -/
def Shape.folds (f : Shape → Option TypeId → Position → List α → List α → α) : Shape → List α
  | .argument .. => []
  | .localVar .. => []
  | .result .. => []
  | .global .. => []
  | .const32 _ => []
  | .const64 _ => []
  | .stringConst _ => []
  | .null => []
  | .binary _ lhs rhs => [lhs.fold f, rhs.fold f]
  | .compare _ _ lhs rhs => [lhs.fold f, rhs.fold f]
  | .unary _ _ operand => [operand.fold f]
  | .convert _ operand => [operand.fold f]
  | .load _ pointer => [pointer.fold f]
  | .store _ _ address value => [address.fold f, value.fold f]
  | .copy _ dst src => [dst.fold f, src.fold f]
  | .element _ _ base index => [base.fold f, index.fold f]
  | .field _ _ base => [base.fold f]
  | .increment _ _ _ operand => [operand.fold f]
  | .ptrDiff _ lhs rhs => [lhs.fold f, rhs.fold f]
  | .call _ _ arguments => Tree.folds f arguments
  | .callPointer _ callee arguments => callee.fold f :: Tree.folds f arguments
  | .logical _ lhs rhs => [lhs.fold f, rhs.fold f]
  | .conditional cond whenTrue whenFalse => [cond.fold f, whenTrue.fold f, whenFalse.fold f]
  | .dup address => [address.fold f]
  | .dupRef => []
end

/-- The values for trees in a list are those for its trees. -/
theorem Tree.folds_eq_map (f : Shape → Option TypeId → Position → List α → List α → α)
    (list : List Tree) : Tree.folds f list = list.map (Tree.fold f) := by
  induction list with
  | nil => rw [Tree.folds, List.map_nil]
  | cons t later ih => rw [Tree.folds, ih, List.map_cons]

/-- The value for a tree is made of those for its comma list and its operands. -/
theorem Tree.fold_mk (f : Shape → Option TypeId → Position → List α → List α → α) (shape : Shape)
    (type : Option TypeId) (position : Position) (comma : List Tree) :
    (Tree.mk shape type position comma).fold f =
      f shape type position (comma.map (Tree.fold f)) (shape.operands.map (Tree.fold f)) := by
  have hoperands : Shape.folds f shape = shape.operands.map (Tree.fold f) := by
    cases shape <;> simp [Shape.folds, Shape.operands, Tree.folds_eq_map]
  rw [Tree.fold, Tree.folds_eq_map, hoperands]

end

/-- An operand is smaller than its shape. -/
theorem Shape.sizeOf_lt_of_mem_operands {shape : Shape} {t : Tree} (h : t ∈ shape.operands) :
    sizeOf t < sizeOf shape := by
  cases shape <;> simp only [Shape.operands, List.mem_cons, List.not_mem_nil, or_false] at h
  case unary | convert | load | field | increment | dup =>
    subst h
    simp only [Shape.unary.sizeOf_spec, Shape.convert.sizeOf_spec, Shape.load.sizeOf_spec,
      Shape.field.sizeOf_spec, Shape.increment.sizeOf_spec, Shape.dup.sizeOf_spec]
    omega
  case binary | compare | store | copy | element | ptrDiff | logical =>
    simp only [Shape.binary.sizeOf_spec, Shape.compare.sizeOf_spec, Shape.store.sizeOf_spec,
      Shape.copy.sizeOf_spec, Shape.element.sizeOf_spec, Shape.ptrDiff.sizeOf_spec,
      Shape.logical.sizeOf_spec]
    rcases h with rfl | rfl <;> omega
  case conditional =>
    simp only [Shape.conditional.sizeOf_spec]
    rcases h with rfl | rfl | rfl <;> omega
  case call =>
    have := List.sizeOf_lt_of_mem h
    simp only [Shape.call.sizeOf_spec]
    omega
  case callPointer =>
    simp only [Shape.callPointer.sizeOf_spec]
    rcases h with rfl | h
    · omega
    · have := List.sizeOf_lt_of_mem h
      omega

/-- What holds of a tree if it holds of its comma list and its operands holds of all trees. -/
theorem Tree.inductionOn {P : Tree → Prop} (t : Tree)
    (mk : ∀ shape type position comma, (∀ x ∈ comma, P x) → (∀ x ∈ shape.operands, P x) →
      P (.mk shape type position comma)) : P t := by
  obtain ⟨shape, type, position, comma⟩ := t
  refine mk shape type position comma (fun x hx => ?_) (fun x hx => ?_)
  · exact Tree.inductionOn x mk
  · exact Tree.inductionOn x mk
termination_by sizeOf t
decreasing_by
  · have := List.sizeOf_lt_of_mem hx
    simp only [Tree.mk.sizeOf_spec]
    omega
  · have := Shape.sizeOf_lt_of_mem_operands hx
    simp only [Tree.mk.sizeOf_spec]
    omega

/-! ## Moving trees -/

/-- The tree with all positions changed. -/
def Tree.relocate (g : Position → Position) : Tree → Tree :=
  Tree.fold fun shape type position comma operands =>
    .mk (shape.withOperands operands) type (g position) comma

/-- The shape with the positions of its operands changed. -/
def Shape.relocate (g : Position → Position) (shape : Shape) : Shape :=
  shape.withOperands (shape.operands.map (Tree.relocate g))

section

variable (g : Position → Position)

/-- Moving a tree moves its shape, its position and its comma list. -/
@[simp] theorem Tree.relocate_mk (shape : Shape) (type : Option TypeId) (position : Position)
    (comma : List Tree) :
    (Tree.mk shape type position comma).relocate g =
      .mk (shape.relocate g) type (g position) (comma.map (Tree.relocate g)) :=
  Tree.fold_mk _ shape type position comma

@[simp] theorem Shape.operands_relocate (shape : Shape) :
    (shape.relocate g).operands = shape.operands.map (Tree.relocate g) :=
  shape.operands_withOperands _

/-- Other positions leave the type of a tree. -/
@[simp] theorem Tree.type_relocate (t : Tree) : (t.relocate g).type = t.type := by
  cases t
  rw [Tree.relocate_mk]
  rfl

/-- Other positions leave a duplicated address one. -/
@[simp] theorem Tree.isDuplicate_relocate (t : Tree) :
    (t.relocate g).shape.isDuplicate = t.shape.isDuplicate := by
  obtain ⟨shape, type, position, comma⟩ := t
  rw [Tree.relocate_mk]
  cases shape <;> rfl

/-- Side effects before a tree get their new positions with it. -/
theorem Tree.relocate_before (effects : List Tree) (t : Tree) :
    (t.before effects).relocate g = (t.relocate g).before (effects.map (Tree.relocate g)) := by
  cases t
  simp [Tree.before]

end

end StackToGo

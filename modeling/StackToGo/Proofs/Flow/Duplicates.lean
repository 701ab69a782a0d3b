import StackToGo.Proofs.Compound
import StackToGo.Proofs.Flow.Pending
import StackToGo.Proofs.Flow.Relocation

/-!
# Duplicated addresses

The builder leaves a duplicated address on the stack below its second use, and takes operands from
the top only. So wherever the second use goes, the address is still below it, until one tree takes
both (`Scoped`). In the trees of a body that is complete, a second use is therefore always to the
right of its address (`build_closed`). Each duplication makes one address and one second use
(`build_numbered_count`).
-/

namespace StackToGo.Flow

/-! ## What the builder has made -/

def Statement.trees : Statement → List Tree
  | .eval t => [t]
  | .init .. => []

/-- The tree that an exit depends on. -/
def Exit.trees : Exit → List Tree
  | .branch cond _ _ => [cond]
  | .switch value _ _ _ => [value]
  | _ => []

def Node.trees (n : Node) : List Tree := n.statements.flatMap Statement.trees ++ n.exit.trees

def Slot.trees : Slot → List Tree
  | .value t => [t]
  | .guard cond _ _ => [cond]
  | .firstArm cond arm _ _ _ => [cond, arm]
  | _ => []

/-- The origin of the duplicated address in an entry of the stack. One that has become a condition
or an arm is no longer there to be taken. -/
def Slot.binder : Slot → List Position
  | .value t => t.binder
  | _ => []

/-- The origins of the duplicated addresses on the stack. -/
def binders (stack : List Slot) : List Position := stack.flatMap Slot.binder

/-- The addresses of the second uses in every entry of the stack are below it. -/
def StackClosed : List Slot → Prop
  | [] => True
  | slot :: below => (∀ t ∈ slot.trees, t.Closed (binders below)) ∧ StackClosed below

/-- The duplicated addresses on the stack are among those of the operands and those below. -/
theorem binders_operands (operands : List Tree) (below : List Slot) :
    binders (operands.reverse.map .value ++ below) ⊆
      operands.flatMap Tree.binder ++ binders below := by
  intro origin h
  simpa [binders, Slot.binder] using h

/-- Operands that are taken from the top of the stack are closed in what is below. -/
theorem StackClosed.operands {operands : List Tree} {below : List Slot}
    (h : StackClosed (operands.reverse.map .value ++ below)) :
    StackClosed below ∧ OperandsClosed (binders below) operands := by
  induction operands using List.reverseRecOn with
  | nil => exact ⟨h, operandsClosed_nil _⟩
  | append_singleton operands t ih =>
    rw [List.reverse_concat, List.map_cons, List.cons_append] at h
    obtain ⟨hbelow, hoperands⟩ := ih h.2
    refine ⟨hbelow, hoperands.concat ?_⟩
    exact (h.1 t List.mem_cons_self).mono (binders_operands operands below)

/-- A shape that computes all of its operands has no others. -/
theorem operands_of_strict {shape : Shape} {operands : List Tree}
    (h : strictOperands? shape = some operands) :
    shape.operands = operands := by
  cases shape <;> cases h <;> rfl

/-- A tree that performs an operation is no second use, if the operation is none. -/
theorem Computes.ne_dupRef {shape : Shape} {type : Option TypeId} {position : Position}
    {operation : Operation} {operands : List Tree}
    (h : Computes shape type position operation operands)
    (hoperator : operation.operator ≠ .dupRef) : shape ≠ .dupRef := by
  rintro rfl
  have hstrict := h.strict
  cases hstrict
  -- Both are performed, and recorded, in one and the same world.
  let I : Interpretation Unit Unit :=
    ⟨fun _ _ _ => ((), ()), fun _ _ _ => (), fun _ => false, fun _ => (), fun _ _ _ => none⟩
  have htrace := congrArg (fun r => r.2.trace) (h.eval I ⟨(), []⟩)
  simp [evalShape, evalTrees, Interpretation.operate] at htrace
  exact hoperator (by rw [← htrace])

/-- An operation uses no address a second time. -/
theorem operator_of_operation {types : TypeTable} {position : Position} {op : Op}
    {operation : Operation} {count : Nat}
    (h : operation? types position op = some (operation, count)) :
    operation.operator ≠ .dupRef := by
  cases op
  case load | element | field =>
    obtain ⟨result, -, heq⟩ := Option.map_eq_some_iff.1 h
    cases heq
    exact Operator.noConfusion
  all_goals cases h
  all_goals exact Operator.noConfusion

/-- A call uses no address a second time. -/
theorem operator_of_call {types : TypeTable} {position : Position} {op : Op}
    {operation : Operation} {count : Nat} (h : call? types position op = some (operation, count)) :
    operation.operator ≠ .dupRef := by
  cases op
  case call | callPointer =>
    obtain ⟨result, -, heq⟩ := Option.map_eq_some_iff.1 h
    cases heq
    exact Operator.noConfusion
  all_goals cases h

/-- Does an instruction duplicate an address? -/
def isDuplication : Op → Bool
  | .dup _ => true
  | _ => false

/-- The trees of statements are those that they compute. -/
theorem flatMap_trees_eval (list : List Tree) :
    (list.map Statement.eval).flatMap Statement.trees = list := by
  simp [List.flatMap_map, Statement.trees]

namespace Builder

variable {types : TypeTable} {b b' : Builder} {position : Position} {op : Op}

/-- The trees of the statements and exits that are complete. -/
def trees (b : Builder) : List Tree :=
  b.nodes.flatMap Node.trees ++ b.statements.flatMap Statement.trees

/-- Every second use has its address below it on the stack, or to its left in a tree. -/
structure Scoped (b : Builder) : Prop where
  stack : StackClosed b.stack
  pending : ∀ t ∈ b.pending, t.Closed (binders b.stack)
  trees : ∀ t ∈ b.trees, t.Closed []

/-- A duplicated address is not dropped. -/
theorem not_isDuplicate_of_drop {type : TypeId} {t : Tree} {below : List Slot}
    (h : b.step types ⟨.drop type, position⟩ = .ok b') (hstack : b.stack = .value t :: below) :
    t.binder = [] := by
  have hdrop : b.dropValue position = .ok b' := h
  rw [dropValue, hstack] at hdrop
  dsimp only at hdrop
  split at hdrop
  case isTrue => cases hdrop
  case isFalse hdup =>
    obtain ⟨shape, _, _, _⟩ := t
    cases shape
    case dup => exact absurd rfl hdup
    all_goals rfl

/-- What an operation finds on the stack below its operands. Either there are no operands, or
nothing is pending. -/
theorem Scoped.below {operands : List Tree} {below : List Slot} (hb : b.Scoped)
    (hstack : b.stack = operands.reverse.map .value ++ below)
    (hpending : operands = [] ∨ b.pending = []) :
    StackClosed below ∧ OperandsClosed (binders below) operands ∧ ∀ t ∈ b.pending,
    t.Closed (binders below) := by
  obtain ⟨hbelow, hoperands⟩ := StackClosed.operands (hstack ▸ hb.stack)
  refine ⟨hbelow, hoperands, ?_⟩
  rcases hpending with rfl | hnil
  · have hpending := hb.pending
    rw [hstack] at hpending
    exact hpending
  · simp [hnil]

/-- The tree of an operation is closed if its operands are. -/
theorem closed_of_computes {operation : Operation} {shape : Shape} {type : Option TypeId}
    {operands comma : List Tree} {scope : List Position} (hoperator : operation.operator ≠ .dupRef)
    (hshape : Computes shape type position operation operands)
    (hoperands : OperandsClosed scope operands) (hcomma : ∀ t ∈ comma, t.Closed scope) :
    (Tree.mk shape type position comma).Closed scope := by
  refine .mk hcomma (fun heq => absurd heq (hshape.ne_dupRef hoperator)) ?_
  rw [operands_of_strict hshape.strict]
  exact hoperands

/-- A tree that is closed over what is below can be pushed. -/
theorem Scoped.pushTree {below : List Slot} {t : Tree} (hb : b.Scoped) (hbelow : StackClosed below)
    (ht : (t.before b.pending).Closed (binders below)) :
    ({ b with stack := below }.pushTree t).Scoped where
  stack := ⟨fun _ hmem => List.mem_singleton.1 hmem ▸ ht, hbelow⟩
  pending := fun _ hmem => by cases hmem
  trees := hb.trees

/-- An operation on closed operands keeps second uses in scope. -/
theorem Scoped.operate {operation : Operation} {shape : Shape} {type : Option TypeId}
    {operands : List Tree} {below : List Slot} (hb : b.Scoped)
    (hoperator : operation.operator ≠ .dupRef) (hbelow : StackClosed below)
    (hoperands : OperandsClosed (binders below) operands)
    (hpending : ∀ t ∈ b.pending, t.Closed (binders below))
    (hshape : Computes shape type position operation operands) :
    ({ b with stack := below }.pushShape shape type position).Scoped := by
  refine hb.pushTree hbelow (closed_of_computes hoperator hshape hoperands ?_)
  rw [List.append_nil]
  exact hpending

/-- A tree that no operation makes takes its operands while nothing is pending. -/
theorem Scoped.fold {shape : Shape} {type : Option TypeId} {below : List Slot} (hb : b.Scoped)
    (hpending : b.pending = []) (hbelow : StackClosed below)
    (hown : shape = .dupRef → position ∈ binders below)
    (hoperands : ∀ x ∈ shape.operands, x.Closed (binders below)) :
    ({ b with stack := below }.pushShape shape type position).Scoped := by
  refine hb.pushTree hbelow (.mk ?_ hown (operandsClosed_of_forall hoperands))
  simp [hpending]

/-- Closed trees can become statements. -/
theorem Scoped.addTrees {stack : List Slot} {pending list : List Tree}
    {statements : List Statement} (hb : b.Scoped) (hstack : StackClosed stack)
    (hpending : ∀ t ∈ pending, t.Closed (binders stack))
    (hstatements : statements.flatMap Statement.trees = list) (hlist : ∀ t ∈ list, t.Closed []) :
    Scoped { b with stack, pending, statements := b.statements ++ statements } where
  stack := hstack
  pending := hpending
  trees := by
    intro t ht
    rw [Builder.trees, List.flatMap_append, hstatements, ← List.append_assoc,
      List.mem_append] at ht
    exact ht.elim (hb.trees t) (hlist t)

/-- What works inside a node keeps second uses in scope. -/
theorem Inner.scoped (h : Inner types b position op b')
    (hstep : b.step types ⟨op, position⟩ = .ok b') (hb : b.Scoped) : b'.Scoped := by
  have hslots := hb.stack
  cases h with
  | idle h => exact hb
  | declare h hstack hpending =>
    exact hb.addTrees hb.stack hb.pending rfl (by simp [Statement.trees])
  | allocResult | arguments => exact ⟨⟨by simp [Slot.trees], hb.stack⟩, hb.pending, hb.trees⟩
  | operate operands hop hstack hpending hshape =>
    obtain ⟨hbelow, hoperands, hpending'⟩ := hb.below hstack hpending
    exact hb.operate (operator_of_operation hop) hbelow hoperands hpending' hshape
  | call hop htype hstack hpending hshape =>
    obtain ⟨hbelow, hoperands, hpending'⟩ := hb.below hstack hpending
    exact hb.operate (operator_of_call hop) hbelow.2.2 hoperands hpending' hshape
  | callStatement hop htype hstack hpending hshape =>
    obtain ⟨-, hoperands, hpending'⟩ := hb.below hstack hpending
    refine hb.addTrees trivial hpending' rfl fun t ht => ?_
    obtain rfl := List.mem_singleton.1 ht
    exact closed_of_computes (operator_of_call hop) hshape hoperands (by simp)
  | callEffect hop htype hstack hbelow hpending hshape =>
    obtain ⟨hbelow, hoperands, hpending'⟩ := hb.below hstack hpending
    refine ⟨hbelow.2, fun t ht => ?_, hb.trees⟩
    rcases List.mem_append.1 ht with ht | ht
    · exact hpending' t ht
    · obtain rfl := List.mem_singleton.1 ht
      exact closed_of_computes (operator_of_call hop) hshape hoperands (by simp)
  | @dropStatement type tree hstack =>
    have hpending := hb.pending
    rw [hstack] at hslots hpending
    rw [binders, List.flatMap_singleton, Slot.binder,
      not_isDuplicate_of_drop hstep hstack] at hpending
    refine hb.addTrees trivial (by simp) (flatMap_trees_eval _) fun t ht => ?_
    rcases List.mem_cons.1 ht with rfl | ht
    · exact hslots.1 t List.mem_cons_self
    · exact hpending t ht
  | @dropEffect type tree below hstack hbelow =>
    have hpending := hb.pending
    rw [hstack] at hslots hpending
    rw [binders, List.flatMap_cons, Slot.binder, not_isDuplicate_of_drop hstep hstack] at hpending
    refine ⟨hslots.2, fun t ht => ?_, hb.trees⟩
    rcases List.mem_cons.1 ht with rfl | ht
    · exact hslots.1 t List.mem_cons_self
    · exact hpending t ht
  | guard hstack hpending =>
    rw [hstack] at hslots
    exact ⟨⟨hslots.1, hslots.2⟩, by simp [hpending], hb.trees⟩
  | endArm hstack hpending =>
    rw [hstack] at hslots
    obtain ⟨harm, hcond, hbelow⟩ := hslots
    refine ⟨⟨fun t ht => ?_, hbelow⟩, by simp [hpending], hb.trees⟩
    rcases List.mem_cons.1 ht with rfl | ht
    · exact hcond t List.mem_cons_self
    · exact harm t ht
  | @logical lhs rhs label isAnd below hstack hpending =>
    rw [hstack] at hslots
    obtain ⟨hrhs, hlhs, hbelow⟩ := hslots
    refine hb.fold hpending hbelow (fun heq => by cases heq) fun x hx => ?_
    rcases List.mem_cons.1 hx with rfl | hx
    · exact hlhs x List.mem_cons_self
    · exact hrhs x hx
  | otherwise hstack => exact hb
  | @join cond first second onZero elseLabel label below hstack hpending =>
    rw [hstack] at hslots
    obtain ⟨hsecond, harm, hbelow⟩ := hslots
    have hsecond' : second.Closed (binders below) := hsecond second List.mem_cons_self
    have hcond : cond.Closed (binders below) := harm cond List.mem_cons_self
    have hfirst : first.Closed (binders below) :=
      harm first (List.mem_cons_of_mem _ List.mem_cons_self)
    refine hb.fold hpending hbelow (fun heq => by cases heq) fun x hx => ?_
    cases onZero <;> simp [Shape.operands] at hx <;> rcases hx with rfl | rfl | rfl <;> assumption

/-- The trees of an exit are the operands that were taken for it. -/
theorem Exits.trees_eq {operands : List Tree} {exit : Exit} (h : Exits op operands exit) :
    exit.trees = operands := by
  cases h <;> rfl

/-- An exit depends on operands that are alone on the stack. -/
theorem closed_of_exits {operands : List Tree} {exit : Exit} (h : Exits op operands exit)
    (hslots : StackClosed (operands.map .value)) : ∀ t ∈ operands, t.Closed [] := by
  cases h with
  | branch | switch => exact hslots.1
  | jump | ret | abort => simp

/-- A node can be ended by an exit with closed trees. -/
theorem Scoped.endNode {exit : Exit} {stack : List Slot} (hb : b.Scoped)
    (hstack : StackClosed stack) (hpending : b.pending = [])
    (hexit : ∀ t ∈ exit.trees, t.Closed []) :
    ({ b with stack }.endNode exit).Scoped where
  stack := hstack
  pending := by simp [Builder.endNode, hpending]
  trees := by
    intro t ht
    have hmem : t ∈ b.trees ∨ t ∈ exit.trees := by
      simpa [Builder.trees, Builder.endNode, Node.trees, or_assoc] using ht
    exact hmem.elim (hb.trees t) (hexit t)

/-- Every step keeps second uses in scope. -/
theorem step_scoped (h : b.step types ⟨op, position⟩ = .ok b') (hb : b.Scoped) : b'.Scoped := by
  rcases rule_or_dup h with hrule | ⟨type, address, below, rfl, hstack, hpending, rfl⟩
  · cases hrule with
    | inner hinner => exact hinner.scoped h hb
    | exit hexit hstack hpending =>
      refine hb.endNode trivial hpending ?_
      rw [hexit.trees_eq]
      exact closed_of_exits hexit (hstack ▸ hb.stack)
    | @label label hstack hpending =>
      by_cases hblank : b.isBlank
      · rw [if_pos hblank]
        exact ⟨hb.stack, hb.pending, hb.trees⟩
      · rw [if_neg hblank]
        have hend : (b.endNode (.jump label)).Scoped :=
          hb.endNode hb.stack hpending (by simp [Exit.trees])
        exact ⟨hend.stack, hend.pending, hend.trees⟩
  · have hslots := hb.stack
    rw [hstack] at hslots
    have hfirst :
        ({ b with stack := below }.pushShape (.dup address) address.type position).Scoped :=
      hb.fold hpending hslots.2 (fun heq => by cases heq) hslots.1
    refine hfirst.fold rfl hfirst.stack (fun _ => ?_) (by simp [Shape.operands])
    exact List.mem_append_left _ List.mem_cons_self

/-- Every run keeps second uses in scope. -/
theorem run_scoped {body : List Instruction} (h : start.run types body = .ok b) : b.Scoped := by
  refine run_induction (P := fun _ b => b.Scoped)
    ⟨trivial, by simp [start], by simp [start, trees]⟩ ?_ h
  intro front b instruction b' _ hb hstep
  exact step_scoped hstep hb

/-! ## Duplications are counted -/

/-- How many trees so far are the given part of the duplication at `origin`. -/
def count (part : Part) (origin : Position) (b : Builder) : Nat :=
  Tree.countAll part origin b.trees + Tree.countAll part origin (b.stack.flatMap Slot.trees) +
    Tree.countAll part origin b.pending

variable {part : Part} {origin : Position}

/-- The parts on the stack are those of the operands and those below. -/
theorem countAll_operands (operands : List Tree) (below : List Slot) :
    Tree.countAll part origin ((operands.reverse.map Slot.value ++ below).flatMap Slot.trees) =
      Tree.countAll part origin operands + Tree.countAll part origin
        (below.flatMap Slot.trees) := by
  have hvalues : (operands.reverse.map Slot.value).flatMap Slot.trees = operands.reverse := by
    rw [List.flatMap_map]
    simp [Slot.trees]
  rw [List.flatMap_append, hvalues, Tree.countAll_append, Tree.countAll_reverse]

/-- A tree that is pushed has the operands that were taken from the stack for it. -/
theorem count_pushShape {below : List Slot} {shape : Shape} {type : Option TypeId}
    (hstack : Tree.countAll part origin (b.stack.flatMap Slot.trees) =
      Tree.countAll part origin shape.operands +
        Tree.countAll part origin (below.flatMap Slot.trees)) :
    ({ b with stack := below }.pushShape shape type position).count part origin =
      b.count part origin + if shape.part? = some part ∧ position = origin then 1 else 0 := by
  simp only [count, pushShape, Builder.pushTree, Tree.before, List.flatMap_cons, Slot.trees,
    Tree.countAll_append, Tree.countAll_cons, Tree.countAll_nil, Tree.count_mk, hstack, trees]
  omega

/-- What performs an operation is no part of a duplication. -/
theorem part?_of_computes {operation : Operation} {shape : Shape} {type : Option TypeId}
    {operands : List Tree} (hshape : Computes shape type position operation operands)
    (hoperator : operation.operator ≠ .dupRef) :
    shape.part? = none := by
  have hstrict := hshape.strict
  cases shape
  case dup => cases hstrict
  case dupRef => exact absurd rfl (hshape.ne_dupRef hoperator)
  all_goals rfl

/-- An operation leaves the number of parts. -/
theorem count_operate {operation : Operation} {shape : Shape} {type : Option TypeId}
    {operands : List Tree} {below : List Slot} (hoperator : operation.operator ≠ .dupRef)
    (hstack : Tree.countAll part origin (b.stack.flatMap Slot.trees) =
      Tree.countAll part origin operands + Tree.countAll part origin (below.flatMap Slot.trees))
    (hshape : Computes shape type position operation operands) :
    ({ b with stack := below }.pushShape shape type position).count part origin =
      b.count part origin := by
  rw [count_pushShape (by rw [hstack, operands_of_strict hshape.strict]),
    part?_of_computes hshape hoperator]
  simp

/-- The parts of what performs an operation are those of its operands. -/
theorem count_of_computes {operation : Operation} {shape : Shape} {type : Option TypeId}
    {operands : List Tree} (hoperator : operation.operator ≠ .dupRef)
    (hshape : Computes shape type position operation operands) :
    (Tree.mk shape type position []).count part origin = Tree.countAll part origin operands := by
  rw [Tree.count_mk, part?_of_computes hshape hoperator, operands_of_strict hshape.strict]
  simp

/-- What works inside a node leaves the number of parts. -/
theorem Inner.count_eq (h : Inner types b position op b') :
    b'.count part origin = b.count part origin := by
  cases h with
  | idle | otherwise => rfl
  | declare h hstack hpending => simp [count, trees, addStatement, Statement.trees]
  | allocResult | arguments => simp [count, trees, push, Slot.trees]
  | operate operands hop hstack hpending hshape =>
    exact count_operate (operator_of_operation hop) (by rw [hstack, countAll_operands]) hshape
  | call hop htype hstack hpending hshape =>
    exact count_operate (operator_of_call hop) (by rw [hstack, countAll_operands]; rfl) hshape
  | @callStatement _ operation shape operands hop htype hstack hpending hshape =>
    have hcall : (Tree.mk shape none position []).count part origin =
        Tree.countAll part origin operands :=
      count_of_computes (operator_of_call hop) hshape
    rw [count, count, hstack, countAll_operands]
    simp [trees, addStatement, Statement.trees, Slot.trees, hcall]
    omega
  | @callEffect _ operation shape operands below hop htype hstack hbelow hpending hshape =>
    have hcall : (Tree.mk shape none position []).count part origin =
        Tree.countAll part origin operands :=
      count_of_computes (operator_of_call hop) hshape
    rw [count, count, hstack, countAll_operands]
    simp [trees, Slot.trees, hcall]
    omega
  | dropStatement hstack =>
    rw [count, count, hstack, trees, List.flatMap_append, flatMap_trees_eval]
    simp [trees, Slot.trees]
    omega
  | dropEffect hstack hbelow =>
    simp [count, trees, hstack, Slot.trees]
    omega
  | guard hstack hpending => simp [count, trees, hstack, Slot.trees]
  | endArm hstack hpending =>
    simp [count, trees, hstack, Slot.trees]
    omega
  | logical hstack hpending =>
    rw [count_pushShape (by simp [hstack, Slot.trees, Shape.operands]; omega)]
    simp [Shape.part?]
  | @join cond first second onZero elseLabel label below hstack hpending =>
    rw [count_pushShape (by cases onZero <;> simp [hstack, Slot.trees, Shape.operands] <;> omega)]
    simp [Shape.part?]

/-- Ending a node leaves the number of parts. -/
theorem count_endNode {exit : Exit} {stack : List Slot}
    (hstack : b.stack.flatMap Slot.trees = exit.trees) (hempty : stack = []) :
    ({ b with stack }.endNode exit).count part origin = b.count part origin := by
  simp [count, trees, endNode, Node.trees, hstack, hempty]
  omega

/-- A step adds a part just if it duplicates. -/
theorem step_count (h : b.step types ⟨op, position⟩ = .ok b') : b'.count part origin =
    b.count part origin + if isDuplication op ∧ position = origin then 1 else 0 := by
  by_cases hdup : ∃ type, op = .dup type
  · obtain ⟨type, rfl⟩ := hdup
    obtain ⟨address, below, hstack, hpending, rfl⟩ := step_dup h
    have hfirst :
        ({ b with stack := below }.pushShape (.dup address) address.type position).count
          part origin = _ :=
      count_pushShape (by simp [hstack, Slot.trees, Shape.operands])
    have hsecond (b₁ : Builder) :
        (b₁.pushShape .dupRef address.type position).count part origin = _ :=
      count_pushShape (by simp [Shape.operands])
    refine (hsecond _).trans ?_
    rw [hfirst]
    cases part <;> simp [Shape.part?, isDuplication]
  · have hplain : isDuplication op = false := by
      cases op
      case dup type => exact absurd ⟨type, rfl⟩ hdup
      all_goals rfl
    have hrule := step_rule (fun type hop => hdup ⟨type, hop⟩) h
    simp only [hplain, Bool.false_eq_true, false_and, if_false, Nat.add_zero]
    cases hrule with
    | inner hinner => exact hinner.count_eq
    | exit hexit hstack hpending =>
      refine count_endNode ?_ rfl
      rw [hstack, hexit.trees_eq, List.flatMap_map]
      simp [Slot.trees]
    | label hstack hpending =>
      by_cases hblank : b.isBlank
      · rw [if_pos hblank]
        rfl
      · rw [if_neg hblank]
        exact count_endNode (by rw [hstack]; rfl) hstack

/-- After a run there are as many parts as duplications. -/
theorem run_count {body : List Instruction} (h : start.run types body = .ok b) :
    b.count part origin = body.countP fun i => isDuplication i.op ∧ i.position = origin := by
  refine run_induction (P := fun front b => b.count part origin =
    front.countP fun i => isDuplication i.op ∧ i.position = origin) rfl ?_ h
  intro front b instruction b' _ hb hstep
  rw [step_count hstep, hb, List.countP_append, List.countP_singleton]
  simp

end Builder

/-- The nodes of a run that is complete have the trees that the builder has made. -/
theorem trees_of_finish {b : Builder} {nodes : List Node} (h : b.finish = .ok nodes) :
    b.stack = [] ∧ b.pending = [] ∧ nodes.flatMap Node.trees = b.trees := by
  obtain ⟨hstack, hpending, ⟨rfl, hblank, -⟩ | rfl⟩ := Builder.finish_eq_ok h
  · exact ⟨hstack, hpending, by simp [Builder.trees, (Builder.isBlank_iff.1 hblank).2]⟩
  · exact ⟨hstack, hpending, by simp [Builder.trees, Node.trees, Exit.trees]⟩

/-- In the trees of a body every second use is to the right of its address. -/
theorem build_closed {types : TypeTable} {body : List Instruction} {nodes : List Node}
    (h : build types body = .ok nodes) : ∀ t ∈ nodes.flatMap Node.trees, t.Closed [] := by
  obtain ⟨b, hrun, hfinish⟩ := bind_eq_ok h
  rw [(trees_of_finish hfinish).2.2]
  exact (Builder.run_scoped hrun).trees

/-- In the nodes of a body there are as many parts as duplications in it. -/
theorem build_count {types : TypeTable} {body : List Instruction} {nodes : List Node}
    (h : build types body = .ok nodes) (part : Part) (origin : Position) :
    Tree.countAll part origin (nodes.flatMap Node.trees) =
      body.countP fun i => isDuplication i.op ∧ i.position = origin := by
  obtain ⟨b, hrun, hfinish⟩ := bind_eq_ok h
  obtain ⟨hstack, hpending, htrees⟩ := trees_of_finish hfinish
  have hcount : b.count part origin = _ := Builder.run_count hrun
  rw [htrees, ← hcount, Builder.count, hstack, hpending]
  simp

/-- The places of a body with one more instruction. -/
theorem numbered_concat (body : List Instruction) (i : Instruction) :
    numbered (body ++ [i]) = numbered body ++ [⟨i.op, place body.length⟩] := by
  simp [numbered, List.mapIdx_append]

/-- Places are told by their number. -/
theorem place_inj {i j : Nat} : place i = place j ↔ i = j := by simp [place]

/-- At each place there is one duplication or none. -/
theorem countP_numbered (body : List Instruction) (index : Nat) :
    ((numbered body).countP fun i => isDuplication i.op ∧ i.position = place index) =
      if body[index]?.any (isDuplication ·.op) then 1 else 0 := by
  induction body using List.reverseRecOn with
  | nil => rfl
  | append_singleton body last ih =>
    rw [numbered_concat, List.countP_append, ih, List.countP_singleton]
    simp only [place_inj]
    rcases Nat.lt_trichotomy index body.length with hlt | rfl | hgt
    · rw [List.getElem?_append_left hlt]
      simp [hlt.ne']
    · simp
    · rw [List.getElem?_eq_none (by omega), List.getElem?_eq_none (by simp; omega)]
      simp [hgt.ne]

/-- In the nodes of a numbered body, the place of a duplication stands for it: of each of its two
trees there is one at that place, and no other instruction makes any. -/
theorem build_numbered_count {types : TypeTable} {body : List Instruction} {nodes : List Node}
    (h : build types (numbered body) = .ok nodes) (part : Part) (index : Nat) :
    Tree.countAll part (place index) (nodes.flatMap Node.trees) =
      if body[index]?.any (isDuplication ·.op) then 1 else 0 :=
  (build_count h part (place index)).trans (countP_numbered body index)

end StackToGo.Flow

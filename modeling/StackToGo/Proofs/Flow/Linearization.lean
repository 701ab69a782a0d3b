import StackToGo.Proofs.Flow.Pending
import StackToGo.Proofs.Tree

/-!
# The instructions of a tree

The code of a tree (`linearize`) computes the operands in order and then runs the instruction of
the tree itself. A call first reserves the place of its result and marks the start of its operands.
The short-circuit operators and `?:` jump between their operands, and end at a label. What a tree
does not determine, above all the labels, is free to choose (`Choice`).

The builder undoes this: run on the code of a tree whose types are the ones it computes itself
(`Consistent`), it pushes the tree and changes nothing else (`run_linearize`). Code is described by
what it makes of the top of the stack (`Turns`), so that the descriptions of two pieces give that
of both in a row.
-/

namespace StackToGo.Flow

/-! ## Code -/

/-- What the code of a tree has that the tree does not determine. -/
structure Choice where
  /-- The label that ends `&&` or `||`, or begins the second arm of `?:`. -/
  inner : Label
  /-- The label that ends `?:`. -/
  outer : Label
  indexType : TypeId
  bitOffset : Nat
  /-- The positions of the instructions that push no tree, in order. -/
  silent : Nat → Position

/-- The choices for a tree and, by their path from it, for the trees in it. -/
abbrev Choices := List Nat → Choice

/-- The choices for the operand at a place. -/
def Choices.operand (choices : Choices) (place : Nat) : Choices :=
  fun path => choices (place :: path)

/-- The type that an instruction has that steps to an element or field of the given type: the first
pointer to it in the table. -/
def steppedType (types : TypeTable) (address : Bool) (type : TypeId) : TypeId :=
  if address then type else ((types.entries.idxOf? (.pointer type)).map TypeId.mk).getD type

/-- The instruction that makes a tree of its operands. A duplicated address has none of its own. -/
def operator (types : TypeTable) (choice : Choice) (type : TypeId) : Shape → Op
  | .argument index address => .argument index type address
  | .localVar index address => .localVar index type address
  | .result index address => .result index type address
  | .global index name linkage address => .global index name linkage type address
  | .const32 value => .const32 type value
  | .const64 value => .const64 type value
  | .stringConst id => .stringConst type id
  | .null => .null type
  | .binary op _ _ => .binary op type
  | .compare op operandType _ _ => .compare op operandType
  | .unary op operandType _ => .unary op operandType
  | .convert source _ => .convert source type
  | .load pointerType _ => .load pointerType
  | .store bits bitOffset _ _ => .store type bits bitOffset
  | .copy copied _ _ => .copy copied
  | .element address neg _ _ =>
    .element (steppedType types address type) choice.indexType address neg
  | .field index address _ => .field (steppedType types address type) index address
  | .increment true delta bits _ => .preIncrement type delta bits choice.bitOffset
  | .increment false delta bits _ => .postIncrement type delta bits choice.bitOffset
  | .ptrDiff pointerType _ _ => .ptrDiff type pointerType
  | .call index functionType arguments => .call index arguments.length functionType
  | .callPointer pointerType _ arguments => .callPointer arguments.length pointerType
  | .logical isAnd _ _ => .label choice.inner (logicalRole isAnd)
  | .conditional .. => .label choice.outer .join
  | .dup _ => .dup type
  | .dupRef => .dup type

/-- The code in front of the operator, made of the code of the operands. -/
def operandCode (choice : Choice) (type : Option TypeId) :
    Shape → List (List Instruction) → List Instruction
  | .call .., codes | .callPointer .., codes =>
    (type.map fun result => ⟨.allocResult result, choice.silent 0⟩).toList ++
      ⟨.arguments, choice.silent 1⟩ :: codes.flatten
  | .logical isAnd _ _, [lhs, rhs] =>
    lhs ++ ⟨conditionalJump isAnd choice.inner true, choice.silent 0⟩ :: rhs
  | .conditional .., [cond, whenTrue, whenFalse] =>
    cond ++ ⟨.jumpZero choice.inner true, choice.silent 0⟩ :: whenTrue ++
      ⟨.jump choice.outer true, choice.silent 1⟩ ::
        ⟨.label choice.inner .otherwise, choice.silent 2⟩ :: whenFalse
  | _, codes => codes.flatten

/-- The code of a tree. A call without a result has no type, and its instruction needs none. -/
def linearize (types : TypeTable) : Tree → Choices → List Instruction :=
  Tree.fold fun shape type position _ operands choices =>
    operandCode (choices []) type shape (operands.mapIdx fun place code =>
      code (choices.operand place)) ++
        [⟨operator types (choices []) (type.getD TypeTable.int32) shape, position⟩]

/-- The code of a tree is that of its operands, and then its operator. -/
theorem linearize_mk (types : TypeTable) (shape : Shape) (type : Option TypeId)
    (position : Position) (comma : List Tree) (choices : Choices) :
    linearize types (.mk shape type position comma) choices =
      operandCode (choices []) type shape
          (shape.operands.mapIdx fun place t => linearize types t (choices.operand place)) ++
        [⟨operator types (choices []) (type.getD TypeTable.int32) shape, position⟩] := by
  rw [linearize, Tree.fold_mk]
  simp only [List.mapIdx_eq_zipIdx_map, List.zipIdx_map, List.map_map]
  rfl

/-! ## Types -/

/-- The type is the one that the builder gives to a tree of the shape. -/
def Annotated (types : TypeTable) (type : Option TypeId) : Shape → Prop
  | .compare .. => type = some TypeTable.int32
  | .unary .neg operandType _ | .unary .cpl operandType _ => type = some operandType
  | .unary .not _ _ | .unary .bool _ _ => type = some TypeTable.int32
  | .load pointerType _ => ∃ loaded, types.element pointerType = .ok loaded ∧ type = some loaded
  | .copy _ dst _ => type = dst.type
  | .element address .. | .field _ address _ =>
    ∃ stepped result, Builder.addressedType types stepped address = .ok result ∧ type = some result
  | .call _ functionType _ => Builder.resultType types functionType = .ok type
  | .callPointer pointerType _ _ =>
    ∃ function, types.element pointerType = .ok function ∧
      Builder.resultType types function = .ok type
  | .logical .. => type = some TypeTable.int32
  | .conditional _ whenTrue _ => type = whenTrue.type
  | .dup _ | .dupRef => False
  | _ => type.isSome

/-- The tree and the trees in it have the types that the builder gives them, no side effects in
front and no duplicated addresses. Only the tree itself may be a call without a result. -/
inductive Consistent (types : TypeTable) : Tree → Prop
  | mk {shape : Shape} {type : Option TypeId} {position : Position}
      (annotated : Annotated types type shape)
      (operands : ∀ t ∈ shape.operands, Consistent types t)
      (valued : ∀ t ∈ shape.operands, t.type.isSome) :
      Consistent types (.mk shape type position [])

/-- What a pointer points to has a pointer to it among the types. -/
theorem mem_entries_of_element {types : TypeTable} {pointer pointee : TypeId}
    (h : types.element pointer = .ok pointee) :
    Ty.pointer pointee ∈ types.entries := by
  obtain ⟨ty, hget, hty⟩ := bind_eq_ok h
  rw [TypeTable.get] at hget
  split at hget
  case h_1 hentry =>
    cases hget
    split at hty
    case h_1 =>
      cases hty
      exact List.mem_of_getElem? hentry
    case h_2 => cases hty
  case h_2 => cases hget

/-- A type that the builder can compute for an element or field is what it computes for the
code. -/
theorem addressedType_steppedType {types : TypeTable} {stepped result : TypeId} {address : Bool}
    (h : Builder.addressedType types stepped address = .ok result) :
    Builder.addressedType types (steppedType types address result) address = .ok result := by
  cases address with
  | true => rfl
  | false =>
    obtain ⟨place, hfirst⟩ :=
      Option.isSome_iff_exists.1 (List.isSome_idxOf?.2 (mem_entries_of_element h))
    obtain ⟨hlt, hentry, -⟩ := List.idxOf?_eq_some_iff.1 hfirst
    rw [Builder.addressedType, if_neg Bool.false_ne_true, steppedType, if_neg Bool.false_ne_true,
      hfirst]
    show types.element ⟨place⟩ = .ok result
    rw [TypeTable.element, TypeTable.get, List.getElem?_eq_getElem hlt, hentry]
    rfl

/-! ## What code makes of the stack -/

/-- While nothing is pending, the code takes the slots `before` from the stack and leaves the slots
`after`, and changes nothing else. -/
def Turns (types : TypeTable) (code : List Instruction) (before after : List Slot) : Prop :=
  ∀ b : Builder, b.pending = [] →
    { b with stack := before ++ b.stack }.run types code = .ok { b with stack := after ++ b.stack }

section

variable {types : TypeTable} {front back code : List Instruction} {before middle after : List Slot}

/-- A run of instructions in front and behind is two runs in a row. -/
theorem run_append (b : Builder) :
    b.run types (front ++ back) = b.run types front >>= fun b' => b'.run types back := by
  induction front generalizing b with
  | nil => rfl
  | cons first front ih =>
    rw [List.cons_append, Builder.run, Builder.run, bind_assoc]
    exact congrArg _ (funext ih)

/-- Without code nothing changes. -/
theorem turns_nil : Turns types [] before before := fun _ _ => rfl

/-- Code in front turns the stack, and then the code behind. -/
theorem Turns.append (hfront : Turns types front before middle)
    (hback : Turns types back middle after) : Turns types (front ++ back) before after := by
  intro b hb
  rw [run_append, hfront b hb]
  exact hback b hb

/-- One instruction turns the stack, and then the code behind it. -/
theorem Turns.cons {instruction : Instruction} (hfirst : Turns types [instruction] before middle)
    (hrest : Turns types code middle after) : Turns types (instruction :: code) before after :=
  hfirst.append hrest

/-- Slots below those that the code takes stay. -/
theorem Turns.frame (h : Turns types code before after) (below : List Slot) :
    Turns types code (before ++ below) (after ++ below) := by
  intro b hb
  simpa only [List.append_assoc] using h { b with stack := below ++ b.stack } hb

/-- An instruction is described by what the builder does with it. -/
theorem turns_of_step {instruction : Instruction}
    (h : ∀ b : Builder, b.pending = [] →
      { b with stack := before ++ b.stack }.step types instruction =
        .ok { b with stack := after ++ b.stack }) :
    Turns types [instruction] before after := by
  intro b hb
  rw [Builder.run, h b hb]
  rfl

end

/-! ## Operands and operators -/

/-- A step that succeeds hands its result on. -/
theorem bind_of_ok {ε α β : Type} {x : Except ε α} {a : α} (h : x = .ok a) (f : α → Except ε β) :
    (x >>= f) = f a := by
  rw [h]
  rfl

namespace Builder

variable {b : Builder}

/-- While nothing is pending, a value is popped as it is. -/
theorem popValue_of_pending (hb : b.pending = []) (t : Tree) (below : List Slot)
    (position : Position) :
    { b with stack := .value t :: below }.popValue position =
      .ok (t, { b with stack := below }) := by
  simp [popValue, hb]

/-- While nothing is pending, values are popped as they are. -/
theorem popValues_of_pending (hb : b.pending = []) (operands later : List Tree) (below : List Slot)
    (position : Position) :
    popValues position operands.length later
      { b with stack := operands.reverse.map .value ++ below } =
        .ok (operands ++ later, { b with stack := below }) := by
  induction operands using List.reverseRecOn generalizing later with
  | nil => rfl
  | append_singleton operands t ih =>
    rw [List.length_append, List.length_singleton, popValues, List.reverse_concat, List.map_cons,
      List.cons_append, popValue_of_pending hb, List.append_assoc]
    exact ih (t :: later)

/-- While nothing is pending, arguments are popped as they are, up to the marker. -/
theorem popArguments_of_pending (hb : b.pending = []) (operands : List Tree) (below : List Slot)
    (position : Position) :
    { b with stack := operands.reverse.map Slot.value ++ Slot.marker :: below }.popArguments
      operands.length position = .ok (operands, { b with stack := below }) := by
  rw [popArguments, popValues_of_pending hb, List.append_nil]
  rfl

/-- While nothing is pending, a tree is pushed without side effects in front. -/
theorem pushShape_of_pending (hb : b.pending = []) (shape : Shape) (type : Option TypeId)
    (position : Position) :
    b.pushShape shape type position =
      { b with stack := .value (.mk shape type position []) :: b.stack } := by
  obtain ⟨stack, pending, nodes, label, statements⟩ := b
  cases hb
  rfl

end Builder

/-- The slots that the operator of a tree takes. -/
def operandSlots (choice : Choice) (type : Option TypeId) : Shape → List Slot
  | .logical isAnd lhs rhs => [.value rhs, .guard lhs choice.inner isAnd]
  | .conditional cond whenTrue whenFalse =>
    [.value whenFalse, .firstArm cond whenTrue true choice.inner choice.outer]
  | .call _ _ arguments => arguments.reverse.map .value ++ .marker :: (type.map Slot.result).toList
  | .callPointer _ callee arguments =>
    (callee :: arguments).reverse.map .value ++ .marker :: (type.map Slot.result).toList
  | shape => shape.operands.reverse.map .value

section

variable {types : TypeTable} {choice : Choice} {type : Option TypeId} {shape : Shape}
  {codes : List (List Instruction)}

/-- The code of several trees leaves all of them. -/
theorem turns_flatten {operands : List Tree}
    (h : List.Forall₂ (fun t code => Turns types code [] [.value t]) operands codes) :
    Turns types codes.flatten [] (operands.reverse.map .value) := by
  induction h with
  | nil => exact turns_nil
  | cons hfirst _ ih =>
    rw [List.flatten_cons, List.reverse_cons, List.map_append]
    exact hfirst.append (ih.frame _)

/-- A conditional jump makes a guard of a condition. -/
theorem turns_guard (cond : Tree) (label : Label) (onZero : Bool) (position : Position) :
    Turns types [⟨conditionalJump onZero label true, position⟩] [.value cond]
      [.guard cond label onZero] := by
  refine turns_of_step fun b hb => ?_
  have hpop := Builder.popValue_of_pending hb cond b.stack position
  cases onZero <;> exact bind_of_ok hpop _

/-- A jump ends the first arm. -/
theorem turns_endArm (cond arm : Tree) (elseLabel endLabel : Label) (onZero : Bool)
    (position : Position) :
    Turns types [⟨.jump endLabel true, position⟩] [.value arm, .guard cond elseLabel onZero]
      [.firstArm cond arm onZero elseLabel endLabel] :=
  turns_of_step fun _ hb => bind_of_ok (Builder.popValue_of_pending hb arm _ position) _

/-- The label of the second arm keeps the first. -/
theorem turns_otherwise (cond arm : Tree) (elseLabel endLabel : Label) (onZero : Bool)
    (position : Position) :
    Turns types [⟨.label elseLabel .otherwise, position⟩]
      [.firstArm cond arm onZero elseLabel endLabel]
      [.firstArm cond arm onZero elseLabel endLabel] :=
  turns_of_step fun _ _ => if_pos rfl

/-- The operands of a call lie on a mark, and that on the place of the result. -/
theorem turns_arguments (type : Option TypeId) (first second : Position) {operands : List Tree}
    (h : List.Forall₂ (fun t code => Turns types code [] [.value t]) operands codes) :
    Turns types ((type.map fun result => ⟨.allocResult result, first⟩).toList ++
        ⟨.arguments, second⟩ :: codes.flatten) []
      (operands.reverse.map .value ++ .marker :: (type.map Slot.result).toList) := by
  have hplace : Turns types (type.map fun result => ⟨.allocResult result, first⟩).toList []
      (type.map Slot.result).toList := by
    cases type with
    | none => exact turns_nil
    | some result => exact turns_of_step fun _ _ => rfl
  have hmark : Turns types [⟨.arguments, second⟩] (type.map Slot.result).toList
      (.marker :: (type.map Slot.result).toList) := turns_of_step fun _ _ => rfl
  exact hplace.append (hmark.cons ((turns_flatten h).frame _))

/-- The code of the operands leaves the slots that the operator takes. -/
theorem turns_operandCode
    (h : List.Forall₂ (fun t code => Turns types code [] [.value t]) shape.operands codes) :
    Turns types (operandCode choice type shape codes) [] (operandSlots choice type shape) := by
  cases shape with
  | logical isAnd lhs rhs =>
    obtain _ | ⟨hlhs, _ | ⟨hrhs, _ | _⟩⟩ := h
    exact hlhs.append ((turns_guard lhs choice.inner isAnd _).cons (hrhs.frame _))
  | conditional cond whenTrue whenFalse =>
    obtain _ | ⟨hcond, _ | ⟨hwhenTrue, _ | ⟨hwhenFalse, _ | _⟩⟩⟩ := h
    have hfirst := (turns_guard cond choice.inner true (choice.silent 0)).cons
      (hwhenTrue.frame [.guard cond choice.inner true])
    have hsecond :=
      (turns_endArm cond whenTrue choice.inner choice.outer true (choice.silent 1)).cons
      ((turns_otherwise cond whenTrue choice.inner choice.outer true (choice.silent 2)).cons
        (hwhenFalse.frame _))
    exact (hcond.append hfirst).append hsecond
  | call index functionType arguments => exact turns_arguments type _ _ h
  | callPointer pointerType callee arguments => exact turns_arguments type _ _ h
  | _ => exact turns_flatten h

/-- A tree is pushed as it is while nothing is pending. -/
theorem turns_of_pushShape {instruction : Instruction} {before : List Slot} {position : Position}
    (h : ∀ b : Builder, b.pending = [] →
      { b with stack := before ++ b.stack }.step types instruction =
        .ok (b.pushShape shape type position)) :
    Turns types [instruction] before [.value (.mk shape type position [])] := by
  refine turns_of_step fun b hb => ?_
  rw [h b hb, Builder.pushShape_of_pending hb]
  rfl

/-- An instruction with one operand makes a tree of it. -/
theorem turns_unary {op : Op} {position : Position} {make : Tree → Shape} {value : TypeId}
    (hop : ∀ b : Builder, b.step types ⟨op, position⟩ = b.unary position make value)
    (operand : Tree) :
    Turns types [⟨op, position⟩] [.value operand]
      [.value (.mk (make operand) (some value) position [])] := by
  refine turns_of_pushShape fun b hb => ?_
  rw [hop]
  exact bind_of_ok (Builder.popValue_of_pending hb operand b.stack position) _

/-- An instruction with two operands makes a tree of them. -/
theorem turns_binary {op : Op} {position : Position} {make : Tree → Tree → Shape} {value : TypeId}
    (hop : ∀ b : Builder, b.step types ⟨op, position⟩ = b.binary position make value)
    (lhs rhs : Tree) :
    Turns types [⟨op, position⟩] [.value rhs, .value lhs]
      [.value (.mk (make lhs rhs) (some value) position [])] := by
  refine turns_of_pushShape fun b hb => ?_
  rw [hop]
  have hrhs := Builder.popValue_of_pending hb rhs (.value lhs :: b.stack) position
  have hlhs := Builder.popValue_of_pending hb lhs b.stack position
  exact (bind_of_ok hrhs _).trans (bind_of_ok hlhs _)

/-- A call takes its arguments and leaves its result. -/
theorem step_call {b : Builder} (hb : b.pending = []) {functionType : TypeId}
    (h : Builder.resultType types functionType = .ok type) (index : Nat) (arguments : List Tree)
    (below : List Slot) (position : Position) :
    { b with stack := arguments.reverse.map Slot.value ++ Slot.marker :: below }.step types
        ⟨.call index arguments.length functionType, position⟩ =
      { b with stack := below }.finishCall (.call index functionType arguments) type position :=
  (bind_of_ok (Builder.popArguments_of_pending hb arguments below position) _).trans
    (bind_of_ok h _)

/-- A call through a pointer takes its arguments and callee, and leaves its result. -/
theorem step_callPointer {b : Builder} (hb : b.pending = []) {pointerType function : TypeId}
    (hfunction : types.element pointerType = .ok function)
    (h : Builder.resultType types function = .ok type) (callee : Tree) (arguments : List Tree)
    (below : List Slot) (position : Position) :
    { b with stack := (callee :: arguments).reverse.map Slot.value ++ Slot.marker :: below }.step
      types
        ⟨.callPointer arguments.length pointerType, position⟩ =
      { b with stack := below }.finishCall (.callPointer pointerType callee arguments)
        type position :=
  (bind_of_ok (Builder.popArguments_of_pending hb (callee :: arguments) below position) _).trans <|
    (bind_of_ok hfunction _).trans (bind_of_ok h _)

/-- The operator makes the tree of its operands. -/
theorem turns_operator {value : TypeId} {position : Position}
    (h : Annotated types (some value) shape) :
    Turns types [⟨operator types choice value shape, position⟩]
      (operandSlots choice (some value) shape) [.value (.mk shape (some value) position [])] := by
  cases shape with
  | argument | localVar | result | global | const32 | const64 | stringConst | null =>
    exact turns_of_pushShape fun _ _ => rfl
  | binary op lhs rhs => exact turns_binary (fun _ => rfl) lhs rhs
  | compare op operandType lhs rhs =>
    cases h
    exact turns_binary (fun _ => rfl) lhs rhs
  | unary op operandType operand =>
    cases op <;> cases h <;> exact turns_unary (fun _ => rfl) operand
  | convert source operand => exact turns_unary (fun _ => rfl) operand
  | load pointerType pointer =>
    obtain ⟨loaded, hloaded, ⟨⟩⟩ := h
    refine turns_of_pushShape fun b hb => ?_
    have hpop := Builder.popValue_of_pending hb pointer b.stack position
    exact (bind_of_ok hpop _).trans (bind_of_ok hloaded _)
  | store bits bitOffset address stored => exact turns_binary (fun _ => rfl) address stored
  | copy copied dst src =>
    refine turns_of_pushShape fun b hb => ?_
    have hsrc := Builder.popValue_of_pending hb src (.value dst :: b.stack) position
    have hdst := Builder.popValue_of_pending hb dst b.stack position
    rw [show some value = dst.type from h]
    exact (bind_of_ok hsrc _).trans (bind_of_ok hdst _)
  | element address neg base index =>
    obtain ⟨stepped, result, hstepped, ⟨⟩⟩ := h
    refine turns_of_pushShape fun b hb => ?_
    have hindex := Builder.popValue_of_pending hb index (.value base :: b.stack) position
    have hbase := Builder.popValue_of_pending hb base b.stack position
    exact (bind_of_ok hindex _).trans <| (bind_of_ok hbase _).trans <|
      bind_of_ok (addressedType_steppedType hstepped) _
  | field index address base =>
    obtain ⟨stepped, result, hstepped, ⟨⟩⟩ := h
    refine turns_of_pushShape fun b hb => ?_
    have hbase := Builder.popValue_of_pending hb base b.stack position
    exact (bind_of_ok hbase _).trans (bind_of_ok (addressedType_steppedType hstepped) _)
  | increment pre delta bits operand => cases pre <;> exact turns_unary (fun _ => rfl) operand
  | ptrDiff pointerType lhs rhs => exact turns_binary (fun _ => rfl) lhs rhs
  | call index functionType arguments =>
    refine turns_of_pushShape fun b hb => ?_
    have hstep := step_call hb h index arguments (.result value :: b.stack) position
    rw [operandSlots, List.append_assoc]
    exact hstep.trans (if_pos rfl)
  | callPointer pointerType callee arguments =>
    obtain ⟨function, hfunction, hresult⟩ := h
    refine turns_of_pushShape fun b hb => ?_
    have hstep :=
      step_callPointer hb hfunction hresult callee arguments (.result value :: b.stack) position
    rw [operandSlots, List.append_assoc]
    exact hstep.trans (if_pos rfl)
  | logical isAnd lhs rhs =>
    cases h
    refine turns_of_pushShape fun b hb => ?_
    have hrhs :=
      Builder.popValue_of_pending hb rhs (.guard lhs choice.inner isAnd :: b.stack) position
    cases isAnd <;> exact (bind_of_ok hrhs _).trans (if_pos ⟨rfl, rfl⟩)
  | conditional cond whenTrue whenFalse =>
    refine turns_of_pushShape fun b hb => ?_
    have hpop := Builder.popValue_of_pending hb whenFalse
      (.firstArm cond whenTrue true choice.inner choice.outer :: b.stack) position
    rw [show some value = whenTrue.type from h]
    exact (bind_of_ok hpop _).trans (if_pos rfl)
  | dup address => exact h.elim
  | dupRef => exact h.elim

/-- A tree without a value is a call. -/
theorem step_operator_none (h : Annotated types none shape)
    (hvalued : ∀ t ∈ shape.operands, t.type.isSome) {b : Builder} (hb : b.pending = [])
    (value : TypeId) (position : Position) :
    { b with stack := operandSlots choice none shape ++ b.stack }.step types
        ⟨operator types choice value shape, position⟩ = b.finishCall shape none position := by
  cases shape with
  | call index functionType arguments =>
    rw [operandSlots, List.append_assoc]
    exact step_call hb h index arguments b.stack position
  | callPointer pointerType callee arguments =>
    obtain ⟨function, hfunction, hresult⟩ := h
    rw [operandSlots, List.append_assoc]
    exact step_callPointer hb hfunction hresult callee arguments b.stack position
  | copy copied dst src =>
    have hdst := hvalued dst List.mem_cons_self
    rw [← show none = dst.type from h] at hdst
    cases hdst
  | conditional cond whenTrue whenFalse =>
    have hwhenTrue := hvalued whenTrue (List.mem_cons_of_mem _ List.mem_cons_self)
    rw [← show none = whenTrue.type from h] at hwhenTrue
    cases hwhenTrue
  | unary op => cases op <;> cases h
  | load | element | field => simp [Annotated] at h
  | _ => cases h

end

/-! ## Trees -/

section

variable {types : TypeTable}

/-- A list is related to its indexed image if each of it is, at every place. -/
theorem forall₂_mapIdx {α β : Type} {R : α → β → Prop} {list : List α} {f : Nat → α → β}
    (h : ∀ a ∈ list, ∀ place, R a (f place a)) : List.Forall₂ R list (list.mapIdx f) := by
  induction list generalizing f with
  | nil => exact .nil
  | cons a rest ih =>
    rw [List.mapIdx_cons]
    exact .cons (h a List.mem_cons_self 0)
      (ih fun a ha place => h a (List.mem_cons_of_mem _ ha) (place + 1))

/-- The code of the operands leaves them, if that of each of them does. -/
theorem turns_operands {shape : Shape} (type : Option TypeId) (choices : Choices)
    (h : ∀ t ∈ shape.operands, ∀ choices, Turns types (linearize types t choices) [] [.value t]) :
    Turns types (operandCode (choices []) type shape
        (shape.operands.mapIdx fun place t => linearize types t (choices.operand place))) []
      (operandSlots (choices []) type shape) :=
  turns_operandCode (forall₂_mapIdx fun t ht place => h t ht (choices.operand place))

/-- The code of a tree that has a value pushes it. -/
theorem turns_linearize {e : Tree} (h : Consistent types e) (hvalue : e.type.isSome)
    (choices : Choices) : Turns types (linearize types e choices) [] [.value e] := by
  induction h generalizing choices with
  | @mk shape type position annotated operands valued ih =>
    obtain ⟨value, rfl⟩ := Option.isSome_iff_exists.1 hvalue
    rw [linearize_mk]
    exact (turns_operands _ choices fun t ht => ih t ht (valued t ht)).append
      (turns_operator annotated)

/-- Run on the code of a tree with consistent types, the builder pushes the tree and changes
nothing else. A call without a result has no value to push: it becomes a statement, or is pending
if there is something on the stack. -/
theorem run_linearize {e : Tree} (h : Consistent types e) (choices : Choices) {b : Builder}
    (hb : b.pending = []) :
    (e.type.isSome → b.run types (linearize types e choices) = .ok (b.push (.value e))) ∧
    (e.type = none → b.run types (linearize types e choices) =
      .ok (if b.stack = [] then b.addStatement (.eval e) else { b with pending := [e] })) := by
  constructor
  · exact fun hvalue => turns_linearize h hvalue choices b hb
  · intro hnone
    cases h with
    | @mk shape type position annotated operands valued =>
      cases hnone
      have hoperands := turns_operands none choices fun t ht =>
        turns_linearize (operands t ht) (valued t ht)
      rw [linearize_mk, run_append]
      refine (bind_of_ok (hoperands b hb) _).trans ?_
      rw [Builder.run, step_operator_none annotated valued hb, Builder.finishCall, hb]
      cases hstack : b.stack with
      | nil => rfl
      | cons slot below => rfl

end

/-- The predefined types, a function type and a pointer type. -/
def sampleTypes : TypeTable :=
  TypeTable.empty.internEach [.function [TypeTable.int32] [TypeTable.int32] false,
    .pointer TypeTable.int32]

def sampleIndex : Tree := .mk (.localVar 0 false) (some TypeTable.int32) .unknown []

def samplePointer : Tree := .mk (.localVar 1 false) (some ⟨15⟩) .unknown []

def sampleLoad : Tree := .mk (.load ⟨15⟩ samplePointer) (some TypeTable.int32) .unknown []

def sampleTest : Tree :=
  .mk (.logical true sampleIndex sampleLoad) (some TypeTable.int32) .unknown []

def sampleElement : Tree :=
  .mk (.element false false samplePointer sampleIndex) (some TypeTable.int32) .unknown []

def sampleArgument : Tree :=
  .mk (.conditional sampleTest sampleElement sampleIndex) (some TypeTable.int32) .unknown []

/-- The call `f(i && *p ? p[i] : i)`. -/
def sampleCall : Tree := .mk (.call 0 ⟨14⟩ [sampleArgument]) (some TypeTable.int32) .unknown []

/-- The call has the types that the builder gives. -/
theorem consistent_sampleCall : Consistent sampleTypes sampleCall := by
  have hindex : Consistent sampleTypes sampleIndex := .mk rfl nofun nofun
  have hpointer : Consistent sampleTypes samplePointer := .mk rfl nofun nofun
  have hload : Consistent sampleTypes sampleLoad :=
    .mk ⟨_, rfl, rfl⟩ (by simpa [Shape.operands]) (by decide)
  have htest : Consistent sampleTypes sampleTest :=
    .mk rfl (by simp [Shape.operands, *]) (by decide)
  have helement : Consistent sampleTypes sampleElement :=
    .mk ⟨⟨15⟩, _, rfl, rfl⟩ (by simp [Shape.operands, *]) (by decide)
  have hargument : Consistent sampleTypes sampleArgument :=
    .mk rfl (by simp [Shape.operands, *]) (by decide)
  exact .mk rfl (by simpa [Shape.operands]) (by decide)

def sampleChoices : Choices :=
  fun path => ⟨.number path.length.toInt32, .named ⟨1⟩, TypeTable.int32, 0, fun _ => .unknown⟩

/-- Building the code of the call gives the call again. -/
theorem run_linearize_sampleCall :
    (Builder.start.push .marker).run sampleTypes (linearize sampleTypes sampleCall sampleChoices) =
      .ok ((Builder.start.push .marker).push (.value sampleCall)) :=
  (run_linearize consistent_sampleCall sampleChoices rfl).1 rfl

end StackToGo.Flow

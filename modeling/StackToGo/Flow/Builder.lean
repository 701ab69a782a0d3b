import StackToGo.Flow.Node

/-!
# From instructions to nodes

`Flow.build` runs the instructions of a body on a symbolic evaluation stack. Operands are trees; an
operator takes its operands from the stack and puts one tree back. A plain label begins a node, and
a jump between statements ends one. The jumps inside an expression leave a mark on the stack, and
the label that they go to folds the mark and the operands above it into one tree.

A side effect whose value is not wanted becomes a statement when nothing else is on the stack.
Otherwise it is *pending*, and goes in front of the next tree that is pushed. While something is
pending no operand may be taken, because the operand comes before the side effect and its consumer
after it.
-/

namespace StackToGo.Flow

/-- An entry of the evaluation stack. -/
inductive Slot where
  | value (tree : Tree)
  /-- The place of the result of a call. -/
  | result (type : TypeId)
  /-- The start of the operands of a call. -/
  | marker
  /-- The left side of `&&` or `||`, or the condition of `?:`, that waits for its label. -/
  | guard (cond : Tree) (label : Label) (onZero : Bool)
  /-- The condition and the first arm of `?:`, which wait for the second arm. -/
  | firstArm (cond arm : Tree) (onZero : Bool) (elseLabel endLabel : Label)

/-- The state between two instructions. -/
structure Builder where
  /-- The evaluation stack, its top first. -/
  stack : List Slot
  /-- Side effects that wait for the next tree, in order. -/
  pending : List Tree
  /-- The nodes that are complete. -/
  nodes : List Node
  /-- The label of the node being filled. -/
  label : Option Label
  /-- The statements of the node being filled. -/
  statements : List Statement

namespace Builder

/-- The state before the first instruction. -/
def start : Builder := ⟨[], [], [], none, []⟩

/-- Is neither a value on the stack nor a side effect pending? -/
def atBoundary (b : Builder) : Bool := b.stack.isEmpty && b.pending.isEmpty

/-- Refuses to go on in the midst of an expression. -/
def expectBoundary (b : Builder) (position : Position) (what : String) : Except Error Unit :=
  if b.atBoundary then .ok () else .error (.unsupported position (.busyStack what))

/-- Is the node being filled still without label and statements? -/
def isBlank (b : Builder) : Bool := b.label.isNone && b.statements.isEmpty

/-- Completes the node being filled. -/
def endNode (b : Builder) (exit : Exit) : Builder :=
  { b with nodes := b.nodes ++ [⟨b.label, b.statements, exit⟩], label := none, statements := [] }

def addStatement (b : Builder) (s : Statement) : Builder :=
  { b with statements := b.statements ++ [s] }

def push (b : Builder) (slot : Slot) : Builder := { b with stack := slot :: b.stack }

/-- Pushes a tree, which takes the pending side effects with it. -/
def pushTree (b : Builder) (t : Tree) : Builder :=
  { b with stack := .value (t.before b.pending) :: b.stack, pending := [] }

/-- Pushes a tree of the given shape and type. -/
def pushShape (b : Builder) (shape : Shape) (type : Option TypeId) (position : Position) :
    Builder :=
  b.pushTree (.mk shape type position [])

/-- Takes an operand from the stack. -/
def popValue (b : Builder) (position : Position) : Except Error (Tree × Builder) :=
  if !b.pending.isEmpty then .error (.unsupported position .sideEffectBeforeConsumer)
  else match b.stack with
    | .value t :: rest => .ok (t, { b with stack := rest })
    | _ :: _ => .error (.unsupported position .operandExpected)
    | [] => .error (.unsupported position .stackUnderflow)

/-- Takes `count` operands from the stack, and puts them in front of `later` in the order in which
they were pushed. -/
def popValues (position : Position) :
    Nat → List Tree → Builder → Except Error (List Tree × Builder)
  | 0, later, b => .ok (later, b)
  | count + 1, later, b => do
    let (t, b) ← b.popValue position
    popValues position count (t :: later) b

/-- Takes the operands of a call and the mark below them from the stack. -/
def popArguments (b : Builder) (count : Nat) (position : Position) :
    Except Error (List Tree × Builder) := do
  let (args, b) ← popValues position count [] b
  match b.stack with
  | .marker :: rest => return (args, { b with stack := rest })
  | _ => throw (.unsupported position .argumentsWithoutMarker)

/-- The result type of a function type, if it has one. -/
def resultType (types : TypeTable) (function : TypeId) : Except Error (Option TypeId) := do
  match ← types.get function with
  | .function _ results _ => return results.head?
  | other => throw (.breach (.resultOfNonFunction other))

/-- Ends a call: its result goes into the place reserved for it, and a call without a result is a
side effect. -/
def finishCall (b : Builder) (call : Shape) (result : Option TypeId) (position : Position) :
    Except Error Builder :=
  match result with
  | some type =>
    match b.stack with
    | .result slot :: rest =>
      if slot = type then .ok ({ b with stack := rest }.pushShape call (some type) position)
      else .error (.unsupported position (.resultSlotMismatch type slot))
    | _ => .error (.unsupported position .resultWithoutSlot)
  | none =>
    let t := Tree.mk call none position []
    if b.stack.isEmpty then .ok (b.addStatement (.eval t))
      else .ok { b with pending := b.pending ++ [t] }

/-- Gives up the value on top of the stack. What is pending came after it, so it goes in front. -/
def dropValue (b : Builder) (position : Position) : Except Error Builder :=
  match b.stack with
  | .value t :: rest =>
    if t.shape.isDuplicate then .error (.unsupported position .dropOfDuplicate)
    else if rest.isEmpty then
      .ok { b with
        stack := rest, pending := [], statements := b.statements ++ (t :: b.pending).map .eval }
    else .ok { b with stack := rest, pending := t :: b.pending }
  | _ => .error (.unsupported position .dropWithoutValue)

/-- The type of an element or field, or of the pointer to it. -/
def addressedType (types : TypeTable) (pointer : TypeId) (address : Bool) : Except Error TypeId :=
  if address then .ok pointer else types.element pointer

/-- Takes one operand, and pushes the tree made of it. -/
def unary (b : Builder) (position : Position) (shape : Tree → Shape) (type : TypeId) :
    Except Error Builder := do
  let (operand, b) ← b.popValue position
  return b.pushShape (shape operand) (some type) position

/-- Takes two operands, and pushes the tree made of them. -/
def binary (b : Builder) (position : Position) (shape : Tree → Tree → Shape) (type : TypeId) :
    Except Error Builder := do
  let (rhs, b) ← b.popValue position
  let (lhs, b) ← b.popValue position
  return b.pushShape (shape lhs rhs) (some type) position

/-- Leaves the left side of a short-circuit operator, or a condition, on the stack. -/
def guard (b : Builder) (label : Label) (onZero : Bool) (position : Position) :
    Except Error Builder := do
  let (cond, b) ← b.popValue position
  return b.push (.guard cond label onZero)

/-- Ends the node with a conditional jump. -/
def branch (b : Builder) (target : Label) (onZero : Bool) (position : Position) :
    Except Error Builder := do
  let (cond, b) ← b.popValue position
  b.expectBoundary position "conditional jump"
  return b.endNode (.branch cond target onZero)

/-- Ends the first arm of `?:`. -/
def endArm (b : Builder) (label : Label) (position : Position) : Except Error Builder := do
  let (arm, b) ← b.popValue position
  match b.stack with
  | .guard cond elseLabel onZero :: rest =>
    return { b with stack := .firstArm cond arm onZero elseLabel label :: rest }
  | _ => throw (.unsupported position .armWithoutCondition)

/-- A label between statements begins a node; the node before it goes on to it. -/
def plainLabel (b : Builder) (label : Label) (position : Position) : Except Error Builder := do
  b.expectBoundary position "label"
  if b.isBlank then return { b with label := some label }
  else return { b.endNode (.jump label) with label := some label }

/-- The end of `&&` or `||`. -/
def logicalLabel (b : Builder) (label : Label) (isAnd : Bool) (position : Position) :
    Except Error Builder := do
  let (rhs, b) ← b.popValue position
  match b.stack with
  | .guard lhs guardLabel onZero :: rest =>
    if guardLabel = label ∧ onZero = isAnd then
      return { b with stack := rest }.pushShape (.logical isAnd lhs rhs)
        (some TypeTable.int32) position
    else throw (.unsupported position .logicalLabelWithoutGuard)
  | _ => throw (.unsupported position .logicalLabelWithoutGuard)

/-- The start of the second arm of `?:`. -/
def elseLabel (b : Builder) (label : Label) (position : Position) : Except Error Builder :=
  match b.stack with
  | .firstArm _ _ _ expected _ :: _ =>
    if expected = label then .ok b else .error (.unsupported position .elseLabelWithoutArm)
  | _ => .error (.unsupported position .elseLabelWithoutArm)

/-- The end of `?:`. A guard that jumps when the condition is not zero runs the first arm when it
is zero. -/
def endLabel (b : Builder) (label : Label) (position : Position) : Except Error Builder := do
  let (arm, b) ← b.popValue position
  match b.stack with
  | .firstArm cond first onZero _ expected :: rest =>
    if expected = label then
      let (whenTrue, whenFalse) := if onZero then (first, arm) else (arm, first)
      return { b with stack := rest }.pushShape (.conditional cond whenTrue whenFalse)
        whenTrue.type position
    else throw (.unsupported position .endLabelWithoutArm)
  | _ => throw (.unsupported position .endLabelWithoutArm)

/-- Runs one instruction. -/
def step (types : TypeTable) (b : Builder) (instruction : Instruction) : Except Error Builder :=
  let position := instruction.position
  match instruction.op with
  | .beginScope => .ok b
  | .endScope => .ok b
  | .declare declaration =>
    if declaration.value.isNone then .ok b
    else do
      b.expectBoundary position "initialized declaration"
      return b.addStatement (.init declaration.index position)
  | .allocResult type => .ok (b.push (.result type))
  | .arguments => .ok (b.push .marker)
  | .argument index type address =>
    .ok (b.pushShape (.argument index address) (some type) position)
  | .localVar index type address =>
    .ok (b.pushShape (.localVar index address) (some type) position)
  | .result index type address => .ok (b.pushShape (.result index address) (some type) position)
  | .global index name linkage type address =>
    .ok (b.pushShape (.global index name linkage address) (some type) position)
  | .const32 type value => .ok (b.pushShape (.const32 value) (some type) position)
  | .const64 type value => .ok (b.pushShape (.const64 value) (some type) position)
  | .stringConst type value => .ok (b.pushShape (.stringConst value) (some type) position)
  | .null type => .ok (b.pushShape .null (some type) position)
  | .binary op type => b.binary position (.binary op) type
  | .compare op type => b.binary position (.compare op type) TypeTable.int32
  | .unary op type =>
    b.unary position (.unary op type) (match op with
      | .neg | .cpl => type
      | .not | .bool => TypeTable.int32)
  | .convert type result => b.unary position (.convert type) result
  | .load type => do
    let (pointer, b) ← b.popValue position
    let loaded ← types.element type
    return b.pushShape (.load type pointer) (some loaded) position
  | .store type bits bitOffset => b.binary position (.store bits bitOffset) type
  | .dup _ => do
    let (address, b) ← b.popValue position
    return (b.pushShape (.dup address) address.type position).pushShape .dupRef
      address.type position
  | .drop _ => b.dropValue position
  | .copy type => do
    let (src, b) ← b.popValue position
    let (dst, b) ← b.popValue position
    return b.pushShape (.copy type dst src) dst.type position
  | .element type _ address neg => do
    let (index, b) ← b.popValue position
    let (base, b) ← b.popValue position
    let result ← addressedType types type address
    return b.pushShape (.element address neg base index) (some result) position
  | .field type index address => do
    let (base, b) ← b.popValue position
    let result ← addressedType types type address
    return b.pushShape (.field index address base) (some result) position
  | .postIncrement type delta bits _ => b.unary position (.increment false delta bits) type
  | .preIncrement type delta bits _ => b.unary position (.increment true delta bits) type
  | .ptrDiff type pointerType => b.binary position (.ptrDiff pointerType) type
  | .call index count type => do
    let (args, b) ← b.popArguments count position
    let result ← resultType types type
    b.finishCall (.call index type args) result position
  | .callPointer count type => do
    let (args, b) ← b.popArguments (count + 1) position
    let function ← types.element type
    let result ← resultType types function
    match args with
    | callee :: args => b.finishCall (.callPointer type callee args) result position
    | [] => throw (.unsupported position .stackUnderflow)
  | .jump label true => b.endArm label position
  | .jump label false => do
    b.expectBoundary position "jump"
    return b.endNode (.jump label)
  | .jumpZero label true => b.guard label true position
  | .jumpNonzero label true => b.guard label false position
  | .jumpZero label false => b.branch label true position
  | .jumpNonzero label false => b.branch label false position
  | .label label .plain => b.plainLabel label position
  | .label label .logicalAnd => b.logicalLabel label true position
  | .label label .logicalOr => b.logicalLabel label false position
  | .label label .otherwise => b.elseLabel label position
  | .label label .join => b.endLabel label position
  | .switch type cases default => do
    let (value, b) ← b.popValue position
    b.expectBoundary position "switch"
    return b.endNode (.switch value type cases default)
  | .ret => do
    b.expectBoundary position "return"
    return b.endNode .ret
  | .abort => do
    b.expectBoundary position "panic"
    return b.endNode .abort

/-- Runs instructions one after the other. -/
def run (types : TypeTable) : Builder → List Instruction → Except Error Builder
  | b, [] => .ok b
  | b, instruction :: rest => do run types (← b.step types instruction) rest

/-- Completes the last node, which returns. It is left out if it is blank and cannot be reached
from the node before it. -/
def finish (b : Builder) : Except Error (List Node) :=
  if !b.atBoundary then .error (.unsupported .unknown .unfinishedBody)
  else if b.isBlank && b.nodes.getLast?.any (!·.exit.fallsThrough) then .ok b.nodes
  else .ok (b.endNode .ret).nodes

end Builder

/-- The nodes of a body. -/
def build (types : TypeTable) (body : List Instruction) : Except Error (List Node) := do
  (← Builder.start.run types body).finish

end StackToGo.Flow

import Mathlib.Computability.StateTransition
import StackToGo.Flow.Builder
import StackToGo.Proofs.Blocks.Machine

/-!
# What instructions and nodes do

Instructions run on a stack machine, and nodes run by computing their trees. What a single
operation does to the state of the program is left open: an `Interpretation` gives every operation
a meaning. Both machines record the operations that they perform, with the values of the operands
and of the result, in the trace of their world.

A tree computes its comma list first, then its operands from left to right. `&&`, `||` and `?:`
compute only the operands that they need. In the instructions the same is done by jumps: one inside
an expression goes to the label that folds the expression, and one between statements goes to a
plain label.
-/

namespace StackToGo.Flow

open StateTransition
open Go (Ending)

/-! ## Operations -/

/-- What an operation does with its operands. Of the data of an instruction this leaves out two
that no tree holds: the type of an index, which is a value with a type of its own, and the offset
of an incremented bit field, which is refused later wherever `bits` is not zero. -/
inductive Operator where
  | argument (index : Nat) (address : Bool)
  | localVar (index : Nat) (address : Bool)
  | result (index : Nat) (address : Bool)
  | global (index : Nat) (name : NameId) (linkage : Linkage) (address : Bool)
  | const32 (value : Int32)
  | const64 (value : Int64)
  | stringConst (id : StringId)
  | null
  | binary (op : BinaryOp)
  | compare (op : CompareOp) (operandType : TypeId)
  | unary (op : UnaryOp) (operandType : TypeId)
  | convert (source : TypeId)
  | load (pointerType : TypeId)
  | store (bits bitOffset : Nat)
  | copy (type : TypeId)
  | element (address neg : Bool)
  | field (index : Nat) (address : Bool)
  | increment (pre : Bool) (delta : Int64) (bits : Nat)
  | ptrDiff (pointerType : TypeId)
  | call (index : Nat) (functionType : TypeId)
  | callPointer (pointerType : TypeId)
  /-- The second use of a duplicated address. -/
  | dupRef
  deriving DecidableEq

/-- An operation: what it does, the type of its result if it has one of its own, and where it comes
from. -/
structure Operation where
  operator : Operator
  type : Option TypeId
  position : Position

/-- The meaning of operations on values of type `V` and a state of type `S`. -/
structure Interpretation (V S : Type) where
  perform : Operation → List V → S → V × S
  /-- Sets the local with the given index to the value of its declaration. -/
  declare : Nat → Position → S → S
  isZero : V → Bool
  ofBool : Bool → V
  /-- The case of a switch that a value selects; the default if there is none. -/
  select : TypeId → List Value → V → Option Nat

/-- What a machine does to the state. -/
inductive Event (V : Type) where
  | performed (operation : Operation) (operands : List V) (result : V)
  | declared (index : Nat) (position : Position)

/-- The state of a program, and what has been done to it so far. -/
structure World (V S : Type) where
  state : S
  trace : List (Event V)

section

variable {V S : Type} (I : Interpretation V S)

/-- The truth value of a value. -/
def Interpretation.truth (v : V) : V := I.ofBool (!I.isZero v)

/-- Performs an operation, and records it. -/
def Interpretation.operate (operation : Operation) (operands : List V) (w : World V S) :
    V × World V S :=
  let r := I.perform operation operands w.state
  (r.1, ⟨r.2, w.trace ++ [.performed operation operands r.1]⟩)

/-- Sets a local to the value of its declaration, and records it. -/
def Interpretation.declareLocal (index : Nat) (position : Position) (w : World V S) : World V S :=
  ⟨I.declare index position w.state, w.trace ++ [.declared index position]⟩

/-- The label that a switch goes to. -/
def Interpretation.target (type : TypeId) (cases : List (Value × Label)) (default : Label)
    (v : V) : Label :=
  (((I.select type (cases.map (·.1)) v).bind (cases[·]?)).map (·.2)).getD default

/-! ## Trees -/

mutual
/-- Computes a tree: its side effects first, and then what it stands for. -/
def evalTree : Tree → World V S → V × World V S
  | .mk shape type position comma, w => evalShape shape type position (evalTrees comma w).2

/-- Computes a tree without side effects of the given shape and type. -/
def evalShape : Shape → Option TypeId → Position → World V S → V × World V S
  | .argument index address, type, position, w =>
    I.operate ⟨.argument index address, type, position⟩ [] w
  | .localVar index address, type, position, w =>
    I.operate ⟨.localVar index address, type, position⟩ [] w
  | .result index address, type, position, w =>
    I.operate ⟨.result index address, type, position⟩ [] w
  | .global index name linkage address, type, position, w =>
    I.operate ⟨.global index name linkage address, type, position⟩ [] w
  | .const32 value, type, position, w => I.operate ⟨.const32 value, type, position⟩ [] w
  | .const64 value, type, position, w => I.operate ⟨.const64 value, type, position⟩ [] w
  | .stringConst id, type, position, w => I.operate ⟨.stringConst id, type, position⟩ [] w
  | .null, type, position, w => I.operate ⟨.null, type, position⟩ [] w
  | .binary op lhs rhs, type, position, w =>
    let l := evalTree lhs w
    let r := evalTree rhs l.2
    I.operate ⟨.binary op, type, position⟩ [l.1, r.1] r.2
  | .compare op operandType lhs rhs, type, position, w =>
    let l := evalTree lhs w
    let r := evalTree rhs l.2
    I.operate ⟨.compare op operandType, type, position⟩ [l.1, r.1] r.2
  | .unary op operandType operand, type, position, w =>
    let v := evalTree operand w
    I.operate ⟨.unary op operandType, type, position⟩ [v.1] v.2
  | .convert source operand, type, position, w =>
    let v := evalTree operand w
    I.operate ⟨.convert source, type, position⟩ [v.1] v.2
  | .load pointerType pointer, type, position, w =>
    let v := evalTree pointer w
    I.operate ⟨.load pointerType, type, position⟩ [v.1] v.2
  | .store bits bitOffset address value, type, position, w =>
    let a := evalTree address w
    let v := evalTree value a.2
    I.operate ⟨.store bits bitOffset, type, position⟩ [a.1, v.1] v.2
  | .copy type dst src, _, position, w =>
    let d := evalTree dst w
    let s := evalTree src d.2
    I.operate ⟨.copy type, none, position⟩ [d.1, s.1] s.2
  | .element address neg base index, type, position, w =>
    let b := evalTree base w
    let i := evalTree index b.2
    I.operate ⟨.element address neg, type, position⟩ [b.1, i.1] i.2
  | .field index address base, type, position, w =>
    let b := evalTree base w
    I.operate ⟨.field index address, type, position⟩ [b.1] b.2
  | .increment pre delta bits operand, type, position, w =>
    let v := evalTree operand w
    I.operate ⟨.increment pre delta bits, type, position⟩ [v.1] v.2
  | .ptrDiff pointerType lhs rhs, type, position, w =>
    let l := evalTree lhs w
    let r := evalTree rhs l.2
    I.operate ⟨.ptrDiff pointerType, type, position⟩ [l.1, r.1] r.2
  | .call index functionType arguments, type, position, w =>
    let args := evalTrees arguments w
    I.operate ⟨.call index functionType, type, position⟩ args.1 args.2
  | .callPointer pointerType callee arguments, type, position, w =>
    let c := evalTree callee w
    let args := evalTrees arguments c.2
    I.operate ⟨.callPointer pointerType, type, position⟩ (c.1 :: args.1) args.2
  | .logical isAnd lhs rhs, _, _, w =>
    let l := evalTree lhs w
    if I.isZero l.1 == isAnd then (I.truth l.1, l.2)
    else
      let r := evalTree rhs l.2
      (I.truth r.1, r.2)
  | .conditional cond whenTrue whenFalse, _, _, w =>
    let c := evalTree cond w
    if I.isZero c.1 then evalTree whenFalse c.2 else evalTree whenTrue c.2
  | .dup address, _, _, w => evalTree address w
  | .dupRef, type, position, w => I.operate ⟨.dupRef, type, position⟩ [] w

/-- Computes trees from left to right. -/
def evalTrees : List Tree → World V S → List V × World V S
  | [], w => ([], w)
  | t :: later, w =>
    let v := evalTree t w
    let vs := evalTrees later v.2
    (v.1 :: vs.1, vs.2)
end

/-! ## The stack machine -/

/-- An entry of the evaluation stack. -/
inductive Entry (V : Type) where
  | value (v : V)
  /-- The place of the result of a call. -/
  | result (type : TypeId)
  /-- The start of the operands of a call. -/
  | marker

/-- Where control is: in front of instructions or nodes, at the end of the run, or nowhere after a
jump to a label that does not exist or is of the wrong kind. -/
inductive Place (α : Type) where
  | running (ahead : List α)
  | ended (ending : Ending)
  | lost

/-- The state of a run of instructions. -/
structure Config (V S : Type) where
  place : Place Instruction
  stack : List (Entry V)
  world : World V S

/-- The role of a label in a body, and the instructions after it. -/
def landing : List Instruction → Label → Option (LabelRole × List Instruction)
  | [], _ => none
  | ⟨.label label role, _⟩ :: rest, target =>
    if label = target then some (role, rest) else landing rest target
  | _ :: rest, target => landing rest target

/-- The place after a label that has the given role. -/
def enter (body : List Instruction) (label : Label) (role : LabelRole) : Place Instruction :=
  match landing body label with
  | some (found, rest) => if found = role then .running rest else .lost
  | none => .lost

/-- A jump from a condition with the value `v` to the label that folds the expression. After `&&`
and `||` the truth value of the condition is the result; the second arm of `?:` has a result of its
own. -/
def shortCircuit (body : List Instruction) (label : Label) (v : V) (stack : List (Entry V))
    (w : World V S) : Config V S :=
  match landing body label with
  | some (.logicalAnd, rest) => ⟨.running rest, .value (I.truth v) :: stack, w⟩
  | some (.logicalOr, rest) => ⟨.running rest, .value (I.truth v) :: stack, w⟩
  | some (.otherwise, rest) => ⟨.running rest, stack, w⟩
  | _ => ⟨.lost, stack, w⟩

/-- Takes `count` values from the stack, and puts them in front of `later` in the order in which
they were pushed. -/
def takeValues : Nat → List V → List (Entry V) → Option (List V × List (Entry V))
  | 0, later, stack => some (later, stack)
  | count + 1, later, .value v :: below => takeValues count (v :: later) below
  | _ + 1, _, _ => none

/-- What an instruction does that takes operands from the stack and pushes a result, and the number
of operands. None for all other instructions. -/
def operation? (types : TypeTable) (position : Position) : Op → Option (Operation × Nat)
  | .argument index type address => some (⟨.argument index address, type, position⟩, 0)
  | .localVar index type address => some (⟨.localVar index address, type, position⟩, 0)
  | .result index type address => some (⟨.result index address, type, position⟩, 0)
  | .global index name linkage type address =>
    some (⟨.global index name linkage address, type, position⟩, 0)
  | .const32 type value => some (⟨.const32 value, type, position⟩, 0)
  | .const64 type value => some (⟨.const64 value, type, position⟩, 0)
  | .stringConst type value => some (⟨.stringConst value, type, position⟩, 0)
  | .null type => some (⟨.null, type, position⟩, 0)
  | .binary op type => some (⟨.binary op, type, position⟩, 2)
  | .compare op type => some (⟨.compare op type, TypeTable.int32, position⟩, 2)
  | .unary op type =>
    let result : TypeId := match op with
      | .neg | .cpl => type
      | .not | .bool => TypeTable.int32
    some (⟨.unary op type, result, position⟩, 1)
  | .convert type result => some (⟨.convert type, result, position⟩, 1)
  | .load type =>
    (types.element type).toOption.map fun loaded => (⟨.load type, loaded, position⟩, 1)
  | .store type bits bitOffset => some (⟨.store bits bitOffset, type, position⟩, 2)
  | .copy type => some (⟨.copy type, none, position⟩, 2)
  | .element type _ address neg =>
    (Builder.addressedType types type address).toOption.map fun result =>
      (⟨.element address neg, result, position⟩, 2)
  | .field type index address =>
    (Builder.addressedType types type address).toOption.map fun result =>
      (⟨.field index address, result, position⟩, 1)
  | .postIncrement type delta bits _ => some (⟨.increment false delta bits, type, position⟩, 1)
  | .preIncrement type delta bits _ => some (⟨.increment true delta bits, type, position⟩, 1)
  | .ptrDiff type pointerType => some (⟨.ptrDiff pointerType, type, position⟩, 2)
  | _ => none

/-- The call that an instruction makes, and the number of operands above the mark. A called pointer
is the first of them. -/
def call? (types : TypeTable) (position : Position) : Op → Option (Operation × Nat)
  | .call index count type =>
    (Builder.resultType types type).toOption.map fun result =>
      (⟨.call index type, result, position⟩, count)
  | .callPointer count type =>
    (types.element type >>= Builder.resultType types).toOption.map fun result =>
      (⟨.callPointer type, result, position⟩, count + 1)
  | _ => none

/-- Puts the result of a call in its place, if the call has one. -/
def returnValue (result : Option TypeId) (v : V) (stack : List (Entry V)) :
    Option (List (Entry V)) :=
  match result, stack with
  | some _, .result _ :: below => some (.value v :: below)
  | some _, _ => none
  | none, stack => some stack

/-- Takes the operands from the stack, and pushes the result. -/
def executeOperation (operation : Operation) (count : Nat) (rest : List Instruction)
    (stack : List (Entry V)) (w : World V S) : Option (Config V S) := do
  let (operands, below) ← takeValues count [] stack
  let r := I.operate operation operands w
  return ⟨.running rest, .value r.1 :: below, r.2⟩

/-- Takes the operands and their mark from the stack, and puts the result in its place. -/
def executeCall (operation : Operation) (count : Nat) (rest : List Instruction)
    (stack : List (Entry V)) (w : World V S) : Option (Config V S) := do
  match ← takeValues count [] stack with
  | (operands, .marker :: below) =>
    let r := I.operate operation operands w
    return ⟨.running rest, ← returnValue operation.type r.1 below, r.2⟩
  | _ => none

/-- Takes a condition from the stack, and jumps if it is zero (or not zero). -/
def executeJump (body : List Instruction) (label : Label) (logical onZero : Bool)
    (rest : List Instruction) (stack : List (Entry V)) (w : World V S) : Option (Config V S) :=
  match stack with
  | .value v :: below => some <|
    if I.isZero v == onZero then
      if logical then shortCircuit I body label v below w else ⟨enter body label .plain, below, w⟩
    else ⟨.running rest, below, w⟩
  | _ => none

/-- Executes an instruction of `body` that has `rest` after it. -/
def execute (types : TypeTable) (body : List Instruction) (position : Position)
    (rest : List Instruction) (stack : List (Entry V)) (w : World V S) :
    Op → Option (Config V S)
  | .beginScope => some ⟨.running rest, stack, w⟩
  | .endScope => some ⟨.running rest, stack, w⟩
  | .declare declaration =>
    some ⟨.running rest, stack,
      if declaration.value.isNone then w else I.declareLocal declaration.index position w⟩
  | .allocResult type => some ⟨.running rest, .result type :: stack, w⟩
  | .arguments => some ⟨.running rest, .marker :: stack, w⟩
  | .drop _ => match stack with
    | .value _ :: below => some ⟨.running rest, below, w⟩
    | _ => none
  | .jump label true => some ⟨enter body label .join, stack, w⟩
  | .jump label false => some ⟨enter body label .plain, stack, w⟩
  | .jumpZero label logical => executeJump I body label logical true rest stack w
  | .jumpNonzero label logical => executeJump I body label logical false rest stack w
  | .label _ role => match role, stack with
    | .plain, _ | .otherwise, _ | .join, _ => some ⟨.running rest, stack, w⟩
    | _, .value v :: below => some ⟨.running rest, .value (I.truth v) :: below, w⟩
    | _, _ => none
  | .switch type cases default => match stack with
    | .value v :: below => some ⟨enter body (I.target type cases default v) .plain, below, w⟩
    | _ => none
  | .ret => some ⟨.ended .returned, stack, w⟩
  | .abort => some ⟨.ended .aborted, stack, w⟩
  | op => match operation? types position op, call? types position op with
    | some (operation, count), _ => executeOperation I operation count rest stack w
    | none, some (call, count) => executeCall I call count rest stack w
    | none, none => none

/-- One step of a run of `body`, which returns after its last instruction. -/
def Config.next (types : TypeTable) (body : List Instruction) (c : Config V S) :
    Option (Config V S) :=
  match c.place with
  | .running (instruction :: rest) =>
    execute I types body instruction.position rest c.stack c.world instruction.op
  | .running [] => some { c with place := .ended .returned }
  | _ => none

/-! ## Nodes -/

/-- Where a node leads. -/
inductive Destination where
  | next
  | label (target : Label)
  | ended (ending : Ending)

def runStatement (w : World V S) : Statement → World V S
  | .eval tree => (evalTree I tree w).2
  | .init index position => I.declareLocal index position w

/-- Computes what an exit depends on, and where it leads. -/
def leave (w : World V S) : Exit → Destination × World V S
  | .fallThrough => (.next, w)
  | .jump target => (.label target, w)
  | .branch cond target onZero =>
    let c := evalTree I cond w
    (if I.isZero c.1 == onZero then .label target else .next, c.2)
  | .switch value type cases default =>
    let v := evalTree I value w
    (.label (I.target type cases default v.1), v.2)
  | .ret => (.ended .returned, w)
  | .abort => (.ended .aborted, w)

def runNode (n : Node) (w : World V S) : Destination × World V S :=
  leave I (n.statements.foldl (runStatement I) w) n.exit

/-- The nodes from the one with the given label on. -/
def nodesFrom (nodes : List Node) (label : Label) : List Node :=
  nodes.dropWhile fun n => n.label ≠ some label

/-- The state of a run of nodes. -/
structure NodeConfig (V S : Type) where
  place : Place Node
  world : World V S

/-- One step of a run of `nodes`, which performs a whole node. -/
def NodeConfig.next (nodes : List Node) (c : NodeConfig V S) : Option (NodeConfig V S) :=
  match c.place with
  | .running (n :: later) =>
    let r := runNode I n c.world
    some ⟨match r.1 with
      | .next => .running later
      | .label target => .running (nodesFrom nodes target)
      | .ended ending => .ended ending, r.2⟩
  | _ => none

/-! ## What a run does -/

/-- A run of `body` on the state `s` performs these events, and perhaps more after them. -/
def BodyPerforms (types : TypeTable) (body : List Instruction) (s : S) (events : List (Event V)) :
    Prop :=
  ∃ c, Reaches (Config.next I types body) ⟨.running body, [], ⟨s, []⟩⟩ c ∧ events <+: c.world.trace

/-- A run of `body` on the state `s` ends in the given way, with the given state and events. -/
def BodyHalts (types : TypeTable) (body : List Instruction) (s : S) (ending : Ending)
    (w : World V S) : Prop :=
  ∃ stack, Reaches (Config.next I types body) ⟨.running body, [], ⟨s, []⟩⟩
    ⟨.ended ending, stack, w⟩

/-- A run of `nodes` on the state `s` performs these events, and perhaps more after them. -/
def NodesPerform (nodes : List Node) (s : S) (events : List (Event V)) : Prop :=
  ∃ c, Reaches (NodeConfig.next I nodes) ⟨.running nodes, ⟨s, []⟩⟩ c ∧ events <+: c.world.trace

/-- A run of `nodes` on the state `s` ends in the given way, with the given state and events. -/
def NodesHalt (nodes : List Node) (s : S) (ending : Ending) (w : World V S) : Prop :=
  Reaches (NodeConfig.next I nodes) ⟨.running nodes, ⟨s, []⟩⟩ ⟨.ended ending, w⟩

/-! ## The trace only grows -/

variable {I} {types : TypeTable} {body rest : List Instruction} {position : Position} {op : Op}
  {stack : List (Entry V)} {w : World V S} {c c' : Config V S}

/-- An operation adds to the trace. -/
theorem trace_executeOperation {operation : Operation} {count : Nat}
    (h : executeOperation I operation count rest stack w = some c) :
    w.trace <+: c.world.trace := by
  obtain ⟨⟨operands, below⟩, -, hc⟩ := Option.bind_eq_some_iff.1 h
  cases hc
  exact List.prefix_append _ _

/-- A call adds to the trace. -/
theorem trace_executeCall {call : Operation} {count : Nat}
    (h : executeCall I call count rest stack w = some c) :
    w.trace <+: c.world.trace := by
  obtain ⟨⟨operands, below⟩, -, hc⟩ := Option.bind_eq_some_iff.1 h
  dsimp only at hc
  split at hc
  case h_1 =>
    obtain ⟨stack', -, hc⟩ := Option.bind_eq_some_iff.1 hc
    cases hc
    exact List.prefix_append _ _
  case h_2 => cases hc

/-- Short-circuiting leaves the world as it is. -/
theorem shortCircuit_world {label : Label} {v : V} :
    (shortCircuit I body label v stack w).world = w := by
  unfold shortCircuit
  split <;> rfl

/-- A jump adds to the trace. -/
theorem trace_executeJump {label : Label} {logical onZero : Bool}
    (h : executeJump I body label logical onZero rest stack w = some c) :
    w.trace <+: c.world.trace := by
  unfold executeJump at h
  split at h
  case h_1 v below =>
    cases h
    split
    case isTrue =>
      split
      case isTrue => rw [shortCircuit_world]
      case isFalse => exact List.prefix_rfl
    case isFalse => exact List.prefix_rfl
  case h_2 => cases h

/-- Every instruction adds to the trace. -/
theorem trace_execute (h : execute I types body position rest stack w op = some c) :
    w.trace <+: c.world.trace := by
  cases op
  case beginScope => cases h; exact List.prefix_rfl
  case endScope => cases h; exact List.prefix_rfl
  case declare declaration =>
    cases h
    dsimp only
    split
    case isTrue => exact List.prefix_rfl
    case isFalse => exact List.prefix_append _ _
  case allocResult => cases h; exact List.prefix_rfl
  case arguments => cases h; exact List.prefix_rfl
  case drop =>
    simp only [execute] at h
    split at h
    case h_1 => cases h; exact List.prefix_rfl
    case h_2 => cases h
  case jump label cond =>
    cases cond with
    | true => cases h; exact List.prefix_rfl
    | false => cases h; exact List.prefix_rfl
  case jumpZero => exact trace_executeJump h
  case jumpNonzero => exact trace_executeJump h
  case label =>
    simp only [execute] at h
    split at h
    case h_5 => cases h
    all_goals
      cases h
      exact List.prefix_rfl
  case switch =>
    simp only [execute] at h
    split at h
    case h_1 => cases h; exact List.prefix_rfl
    case h_2 => cases h
  case ret => cases h; exact List.prefix_rfl
  case abort => cases h; exact List.prefix_rfl
  all_goals
    simp only [execute] at h
    split at h
    case h_1 => exact trace_executeOperation h
    case h_2 => exact trace_executeCall h
    case h_3 => cases h

/-- Every step adds to the trace. -/
theorem trace_next (h : c.next I types body = some c') : c.world.trace <+: c'.world.trace := by
  obtain ⟨place, stack, w⟩ := c
  cases place with
  | running ahead =>
    cases ahead with
    | nil => cases h; exact List.prefix_rfl
    | cons instruction rest => exact trace_execute h
  | ended => cases h
  | lost => cases h

/-- Every run adds to the trace. -/
theorem trace_reaches (h : Reaches (Config.next I types body) c c') :
    c.world.trace <+: c'.world.trace := by
  induction h with
  | refl => exact List.prefix_rfl
  | tail _ hstep ih => exact ih.trans (trace_next hstep)

end

end StackToGo.Flow

import StackToGo.Program

/-!
# Expression trees

What the instructions of a body compute, as trees. Beside its operands a tree carries a *comma
list*: side effects that come, in order, before the tree itself.
-/

namespace StackToGo

mutual
/-- An expression. Its type is missing for a call without a result. -/
inductive Tree where
  | mk (shape : Shape) (type : Option TypeId) (position : Position) (comma : List Tree)

/-- What an expression computes from its operands. -/
inductive Shape where
  | argument (index : Nat) (address : Bool)
  | localVar (index : Nat) (address : Bool)
  | result (index : Nat) (address : Bool)
  | global (index : Nat) (name : NameId) (linkage : Linkage) (address : Bool)
  | const32 (value : Int32)
  | const64 (value : Int64)
  | stringConst (id : StringId)
  | null
  | binary (op : BinaryOp) (lhs rhs : Tree)
  | compare (op : CompareOp) (operandType : TypeId) (lhs rhs : Tree)
  | unary (op : UnaryOp) (operandType : TypeId) (operand : Tree)
  | convert (source : TypeId) (operand : Tree)
  | load (pointerType : TypeId) (pointer : Tree)
  | store (bits bitOffset : Nat) (address value : Tree)
  | copy (type : TypeId) (dst src : Tree)
  | element (address neg : Bool) (base index : Tree)
  | field (index : Nat) (address : Bool) (base : Tree)
  | increment (pre : Bool) (delta : Int64) (bits : Nat) (operand : Tree)
  | ptrDiff (pointerType : TypeId) (lhs rhs : Tree)
  | call (index : Nat) (functionType : TypeId) (arguments : List Tree)
  | callPointer (pointerType : TypeId) (callee : Tree) (arguments : List Tree)
  | logical (isAnd : Bool) (lhs rhs : Tree)
  | conditional (cond whenTrue whenFalse : Tree)
  /-- An address that is computed once and used again by the store that consumes it. -/
  | dup (address : Tree)
  /-- The address used again, inside the stored value. -/
  | dupRef
end

namespace Tree

def shape : Tree → Shape
  | .mk shape _ _ _ => shape

def type : Tree → Option TypeId
  | .mk _ type _ _ => type

def position : Tree → Position
  | .mk _ _ position _ => position

def comma : Tree → List Tree
  | .mk _ _ _ comma => comma

/-- The same tree with more side effects in front. -/
def before (effects : List Tree) : Tree → Tree
  | .mk shape type position comma => .mk shape type position (effects ++ comma)

/-- The type of the value that a tree produces. -/
def valueType (t : Tree) : Except Error TypeId :=
  match t.type with
  | some id => .ok id
  | none => .error (.unsupported t.position .noResult)

/-- The value of a constant without side effects. -/
def constant? : Tree → Option Int
  | .mk (.const32 value) _ _ [] => some value.toInt
  | .mk (.const64 value) _ _ [] => some value.toInt
  | _ => none

end Tree

/-- Is it a duplicated address, or its second use? -/
def Shape.isDuplicate : Shape → Bool
  | .dup _ => true
  | .dupRef => true
  | _ => false

end StackToGo

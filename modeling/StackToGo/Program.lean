import StackToGo.Position
import StackToGo.Ty.Table
import StackToGo.Value

/-!
# Programs

A program is a dense list of objects over one type table. Objects refer to each other by their
place in the list. The body of a function is a flat list of instructions for a stack machine:
operands are pushed, operators pop their operands and push their result. Control is transferred on
an empty stack only, except by the jumps inside an expression that make up `&&`, `||` and `?:`.
-/

namespace StackToGo

/-- The target of a jump. Labels made by a compiler are numbered, those of the source text are
named. -/
inductive Label where
  | number (n : Int32)
  | named (name : NameId)
  deriving DecidableEq, Repr

/-- What a label closes or begins. -/
inductive LabelRole where
  /-- The target of a jump between statements. -/
  | plain
  /-- The end of `a && b`. -/
  | logicalAnd
  /-- The end of `a || b`. -/
  | logicalOr
  /-- The start of the second arm of `c ? a : b`. -/
  | otherwise
  /-- The end of `c ? a : b`. -/
  | join
  deriving DecidableEq, Repr

inductive BinaryOp where
  | add | sub | mul | div | rem | and | or | xor | lsh | rsh
  deriving DecidableEq, Repr

inductive CompareOp where
  | eq | neq | lt | leq | gt | geq
  deriving DecidableEq, Repr

inductive UnaryOp where
  /-- Arithmetic negation. -/
  | neg
  /-- Bitwise complement. -/
  | cpl
  /-- Logical negation, 0 or 1. -/
  | not
  /-- The truth value, 0 or 1. -/
  | bool
  deriving DecidableEq, Repr

/-- The declaration of a local. Locals are numbered in the order of their declarations. -/
structure Declaration where
  index : Nat
  name : NameId
  type : TypeId
  value : Option Value
  deriving Repr

/-- What an instruction does. -/
inductive Op where
  | beginScope
  | endScope
  | declare (declaration : Declaration)
  /-- Reserves the place of the result of a call. -/
  | allocResult (type : TypeId)
  /-- Begins the operands of a call. -/
  | arguments
  | argument (index : Nat) (type : TypeId) (address : Bool)
  | localVar (index : Nat) (type : TypeId) (address : Bool)
  | result (index : Nat) (type : TypeId) (address : Bool)
  | global (index : Nat) (name : NameId) (linkage : Linkage) (type : TypeId) (address : Bool)
  | const32 (type : TypeId) (value : Int32)
  | const64 (type : TypeId) (value : Int64)
  | stringConst (type : TypeId) (value : StringId)
  | null (type : TypeId)
  | binary (op : BinaryOp) (type : TypeId)
  | compare (op : CompareOp) (type : TypeId)
  | unary (op : UnaryOp) (type : TypeId)
  | convert (type result : TypeId)
  /-- Loads through a pointer of type `type`. -/
  | load (type : TypeId)
  /-- Stores a value of type `type`; `bits` other than 0 means a field of bits. -/
  | store (type : TypeId) (bits bitOffset : Nat)
  | dup (type : TypeId)
  | drop (type : TypeId)
  /-- Pops the pointers to source and destination, and pushes the destination. -/
  | copy (type : TypeId)
  /-- Steps to an element; `type` is the type of the pointer to it. -/
  | element (type indexType : TypeId) (address neg : Bool)
  /-- Steps to a field; `type` is the type of the pointer to it. -/
  | field (type : TypeId) (index : Nat) (address : Bool)
  | postIncrement (type : TypeId) (delta : Int64) (bits bitOffset : Nat)
  | preIncrement (type : TypeId) (delta : Int64) (bits bitOffset : Nat)
  | ptrDiff (type pointerType : TypeId)
  /-- Calls the object at `index`, of the function type `type`. -/
  | call (index count : Nat) (type : TypeId)
  /-- Calls through a pointer of type `type`. -/
  | callPointer (count : Nat) (type : TypeId)
  /-- Jumps; inside an expression if `cond`, at the end of the first arm of `c ? a : b`. -/
  | jump (label : Label) (cond : Bool)
  | jumpZero (label : Label) (logical : Bool)
  | jumpNonzero (label : Label) (logical : Bool)
  | label (label : Label) (role : LabelRole)
  | switch (type : TypeId) (cases : List (Value × Label)) (default : Label)
  | ret
  | abort
  deriving Repr

/-- An instruction and where it comes from. -/
structure Instruction where
  op : Op
  position : Position
  deriving Repr

/-- A function: the names of its arguments, and its body. -/
structure FunctionDef where
  name : NameId
  linkage : Linkage
  type : TypeId
  position : Position
  arguments : List NameId
  body : List Instruction
  deriving Repr

/-- A function that the runtime implements is marked by a body that only aborts. -/
def FunctionDef.isStub (f : FunctionDef) : Bool :=
  match f.body with
  | [⟨.abort, _⟩] => true
  | _ => false

/-- A variable with its initial value. -/
structure DataDef where
  name : NameId
  linkage : Linkage
  type : TypeId
  position : Position
  value : Option Value
  deriving Repr

inductive Object where
  | function (definition : FunctionDef)
  | data (definition : DataDef)
  deriving Repr

namespace Object

def name : Object → NameId
  | .function f => f.name
  | .data d => d.name

def linkage : Object → Linkage
  | .function f => f.linkage
  | .data d => d.linkage

def type : Object → TypeId
  | .function f => f.type
  | .data d => d.type

def position : Object → Position
  | .function f => f.position
  | .data d => d.position

end Object

/-- A program. -/
structure Program where
  types : TypeTable
  objects : List Object

end StackToGo

import StackToGo.Emit.Constant
import StackToGo.Tree

/-!
# Expressions

Go expressions for trees. Every composite result is put between parentheses or is a call, so that
it can stand as an operand anywhere. A tree with a comma list becomes a function that runs the side
effects, returns the tree's value, and is called at once.
-/

namespace StackToGo.Emit

/-- How an expression is used by what it is an operand of. -/
inductive Use where
  | value
  /-- An operand of a call: arrays, local or global, decay to a pointer to their first item. -/
  | callArgument
  /-- An operand of a comparison or a store: global arrays decay. -/
  | operand
  deriving DecidableEq, Repr

/-! ## Rules for single operators -/

def binaryOperator : BinaryOp → Go.Operator
  | .add => .add
  | .sub => .sub
  | .mul => .mul
  | .div => .div
  | .rem => .rem
  | .and => .and
  | .or => .or
  | .xor => .xor
  | .lsh => .lsh
  | .rsh => .rsh

def compareOperator : CompareOp → Go.Operator
  | .eq => .eq
  | .neq => .neq
  | .lt => .lt
  | .leq => .leq
  | .gt => .gt
  | .geq => .geq

/-- Is it a test for equality? -/
def isEquality : CompareOp → Bool
  | .eq | .neq => true
  | _ => false

/-- Do floats and complex numbers have the operator too? -/
def isArithmetic : BinaryOp → Bool
  | .add | .sub | .mul | .div => true
  | _ => false

/-- A place by its name, or its address. -/
def placeOf (address : Bool) (name : String) : Go.Expr :=
  if address then .addressOf (.name name) else .name name

/-- A pointer, or what it points to. -/
def pointed (address : Bool) (pointer : Go.Expr) : Go.Expr :=
  if address then pointer else .paren (.deref pointer)

/-- The type of the value that a tree produces. -/
def resultType (type : Option TypeId) (position : Position) : Emit TypeId :=
  match type with
  | some id => pure id
  | none => unsupported position .noResult

/-- Is the type one of integers, the pointer to nothing in particular included? -/
def isIntegral (type : TypeId) (k : Kind) : Bool := k.isInteger || TypeTable.isVoidPointer type

/-- Refuses operators that Go does not have for the type. -/
def checkBinary (op : BinaryOp) (type : TypeId) (position : Position) : Emit Unit := do
  let k ← kind type
  let numeric := isIntegral type k || k.isFloat || k.isComplex
  if if isArithmetic op then numeric else isIntegral type k then return ()
  else unsupported position (.operator (binaryOperator op).symbol (← goType type))

/-- An operator between two operands. The number of places of a shift is converted. -/
def binaryExpr (op : BinaryOp) (l r : Go.Expr) : Go.Expr :=
  match op with
  | .lsh | .rsh => .paren (.binary (binaryOperator op) l (.callName "uint" [r]))
  | _ => .paren (.binary (binaryOperator op) l r)

/-- The zero that a value is compared with. -/
def zeroOf (type : TypeId) (position : Position) : Emit Go.Expr := do
  match ← kind type with
  | .pointer => return if TypeTable.isVoidPointer type then .int 0 else .nil
  | .scalar _ => return .int 0
  | k => unsupported position (.truthValue k)

/-- The test whether the value `x` of a tree is zero, or is not. -/
def truthOf (t : Tree) (x : Emit Go.Expr) (zero : Bool) : Emit Go.Expr := do
  let type ← t.valueType
  let x ← x
  return .binary (if zero then .eq else .neq) x (← zeroOf type t.position)

/-- A pointer as the address that it holds. -/
def addressBits (type : TypeId) (x : Go.Expr) (position : Position) : Emit Go.Expr := do
  if TypeTable.isVoidPointer type then return x
  else if ← (← types).isFunctionPointer type then unsupported position .functionArithmetic
  else return .addressBits x

/-- A comparison. Go compares functions with `nil` only, and pointers by their addresses. -/
def compareExpr (op : CompareOp) (type : TypeId) (l r : Go.Expr) (position : Position) :
    Emit Go.Expr := do
  let table ← types
  let operator := compareOperator op
  if ← table.isFunctionPointer type then
    match isEquality op, l, r with
    | true, _, .nil => return .ofBool (.binary operator l .nil)
    | true, .nil, _ => return .ofBool (.binary operator r .nil)
    | _, _, _ => unsupported position .functionComparison
  else if ← table.isDataPointer type then
    return .ofBool (.binary operator (.addressBits l) (.addressBits r))
  else
    let k ← kind type
    if isIntegral type k || k.isFloat || (k.isComplex && isEquality op) then
      return .ofBool (.binary operator l r)
    else unsupported position (.comparison operator.symbol k)

/-- Conversions between types. `src` is the type of `x`, and `dst` the type that is asked for. -/
def convertExpr (src dst : TypeId) (x : Go.Expr) (position : Position) : Emit Go.Expr := do
  if src = dst then return x
  else
    let table ← types
    let sk ← table.kind src
    let dk ← table.kind dst
    let fromFunction ← table.isFunctionPointer src
    let t ← goType dst
    let refuse : Emit Go.Expr := do unsupported position (.conversion (← goType src) t)
    let numeric := sk.isInteger || sk.isFloat
    match dk with
    | .pointer =>
      if TypeTable.isVoidPointer dst then
        if sk = .pointer && TypeTable.isVoidPointer src then return x
        else if sk = .pointer && !fromFunction then return .addressBits x
        else if sk.isInteger then return .convert .uintptr x
        else refuse
      else if ← table.isFunctionPointer dst then refuse
      else if sk = .pointer && !fromFunction then return .reinterpret t x
      else if sk.isInteger then return .reinterpret t (.convert .uintptr x)
      else refuse
    | .scalar s =>
      if dk.isInteger && sk = .pointer && TypeTable.isVoidPointer src then return .convert t x
      else if dk.isInteger && sk = .pointer && !fromFunction then
          return .convert t (.addressBits x)
      else if dk.isComplex && numeric then
        let part := if s = .complex64 then Scalar.float32 else Scalar.float64
        return realOnly (.convert (.scalar part) x)
      else if dk.isComplex && sk.isComplex then return .convert t x
      else if !dk.isComplex && numeric then return .convert t x
      else if !dk.isComplex && sk.isComplex then return .convert t (.callName "real" [x])
      else refuse
    | _ => refuse

/-- What an increment adds. Typed pointers are moved by addresses. -/
def incrementDelta (type : TypeId) (delta : Int) (position : Position) : Emit Go.Expr := do
  if ← (← types).isDataPointer type then return .int delta
  else
    let k ← kind type
    if k = .pointer && TypeTable.isVoidPointer type then
        return .convert .uintptr (.int (← pointerBits delta))
    else if k.isInteger then integer type k delta position
    else if k.isFloat || k.isComplex then return .convert (← goType type) (.int delta)
    else unsupported position (.increment (← goType type))

/-- An argument as its parameter takes it. Pointers to something and to nothing in particular are
converted to each other, and the further pointers of a variadic call are untyped. -/
def passArgument (param : Option TypeId) (variadic : Bool) (type : TypeId) (x : Go.Expr) :
    Emit Go.Expr := do
  let table ← types
  match param with
  | none =>
    if !variadic then return x
    else if !(← table.isPointer type) then return x
    else if ← table.isFunctionPointer type then return x
    else return .unsafePointer x
  | some param =>
    let toData ← table.isDataPointer param
    if toData && TypeTable.isVoidPointer type then return .reinterpret (← goType param) x
    else if !TypeTable.isVoidPointer param then return x
    else if ← table.isDataPointer type then return .addressBits x
    else return x

/-- The parameters of a function type, and whether it takes further arguments. -/
def parametersOf (type : TypeId) : Emit (List TypeId × Bool) := do
  match ← (← types).get type with
  | .function arguments _ variadic => return (arguments, variadic)
  | other => breach (.callThrough other)

/-- The argument at a place. -/
def argumentRef (f : Frame) (index : Nat) (address : Bool) (position : Position) :
    Emit Go.Expr := do
  match f.definition.arguments[index]? with
  | some name =>
    if name.isNone then unsupported position (.unnamedArgument index)
    else return placeOf address (← identifier name false none)
  | none =>
    if index < f.arguments.length then unsupported position (.unnamedArgument index)
    else breach (.argumentOutOfRange index)

/-- The local with an index. -/
def localRef (f : Frame) (usage : Use) (index : Nat) (address : Bool) : Emit Go.Expr := do
  let l ← f.getLocal index
  let name ← localName l
  if usage = .callArgument then
    if (← kind l.declaration.type) = .array then return .firstItem name
    else return placeOf address name
  else return placeOf address name

/-- A result of the function. -/
def resultRef (f : Frame) (index : Nat) (address : Bool) : Emit Go.Expr :=
  if f.results.length ≤ index then breach (.resultOutOfRange index)
  else return placeOf address ("r" ++ toString index)

/-- An object. The address of a function is the function itself. -/
def globalRef (usage : Use) (index : Nat) (name : NameId) (linkage : Linkage) (address : Bool) :
    Emit Go.Expr := do
  let o ← object index
  let x ← objectAs index name linkage.isExported
  let k ← kind o.type
  if usage ≠ .value && k = .array then return .addressOf (.index x 0)
  else if address && k ≠ .function then return .addressOf x
  else return x

/-- What the elements behind a pointer are: the items of an array, or the pointees themselves. -/
def itemType (pointer : TypeId) (position : Position) : Emit TypeId := do
  if TypeTable.isVoidPointer pointer then unsupported position .voidIndexing
  else
    let table ← types
    let pointee ← table.element pointer
    match ← table.get pointee with
    | .array item _ => return item
    | _ => return pointee

/-- An address moved by a number of bytes known in advance. -/
def displaced (base : Go.Expr) (offset : Int) : Go.Expr :=
  if offset = 0 then base
  else if offset < 0 then .binary .sub base (.int (-offset))
  else .binary .add base (.int offset)

/-- An address moved by a number of items. -/
def displacedBy (base : Go.Expr) (neg : Bool) (size : Nat) (index : Go.Expr) : Go.Expr :=
  .binary (if neg then .sub else .add) base (.binary .scale (.int size) (.convert .uintptr index))

/-- A field of what a pointer points to. -/
inductive FieldKind where
  /-- A member of a union, of the given Go type. -/
  | member (t : Go.Ty)
  /-- A field of a struct. -/
  | field

/-- Finds a field of the aggregate that a pointer points to. -/
def fieldKind (pointer : TypeId) (index : Nat) (position : Position) : Emit FieldKind := do
  let table ← types
  let aggregate ← table.element pointer
  match ← table.get aggregate with
  | .union members =>
    match members[index]? with
    | some member => return .member (← goType member)
    | none => breach (.noUnionField aggregate index)
  | .struct fields =>
    if index < fields.length then return .field else breach (.noStructField aggregate index)
  | other => unsupported position (.fieldOf index other)

/-- A field, or its address. -/
def fieldExpr (k : FieldKind) (index : Nat) (address : Bool) (base : Go.Expr) : Go.Expr :=
  match k with
  | .member t => pointed address (.reinterpret (.pointer t) base)
  | .field =>
    let place := Go.Expr.select (.paren base) (Go.fieldName index)
    if address then .addressOf place else place

/-- Does the tree become a Go call, which may stand alone as a statement? -/
def isCall : Shape → Bool
  | .call .. | .callPointer .. | .store .. | .copy .. | .increment .. | .compare .. | .logical ..
  | .conditional .. => true
  | .unary .not _ _ | .unary .bool _ _ => true
  | _ => false

/-- The statements of a tree that is computed for its side effects: what came before, and the tree
itself. -/
def effect (shape : Shape) (before : List Go.Stmt) (x : Go.Expr) : List Go.Stmt :=
  match shape with
  | .null => before
  | _ => before ++ [if isCall shape then .eval x else .discard x]

/-- Runs a step inside a store that computes its address once. -/
def inCompound {α : Type} (m : Emit α) : Emit α := fun env => do
  modify fun s => { s with compoundDepth := s.compoundDepth + 1 }
  (m env).andAfter fun s => { s with compoundDepth := s.compoundDepth - 1 }

/-! ## Trees -/

mutual
/-- The Go expression of a tree. -/
def expr (f : Frame) (usage : Use) : Tree → Emit Go.Expr
  | .mk shape type position [] => core f usage type position shape
  | .mk shape type position (first :: rest) => do
    let effects ← statement f first
    let more ← statements f rest
    match type with
    | some id =>
      if usage ≠ .value then
        if (← kind id) = .array then unsupported position .arrayWithSideEffects
      let t ← goType id
      let x ← core f usage type position shape
      return .invoke [t] (effects ++ more) (.ret [x])
    | none =>
      let x ← core f usage type position shape
      return .invoke [] (effects ++ more) (.eval x)

/-- The statements of a tree that is computed for its side effects. -/
def statement (f : Frame) : Tree → Emit (List Go.Stmt)
  | .mk shape type position comma => do
    let before ← statements f comma
    let x ← core f .value type position shape
    return effect shape before x

/-- The statements of trees one after the other. -/
def statements (f : Frame) : List Tree → Emit (List Go.Stmt)
  | [] => return []
  | t :: rest => do
    let first ← statement f t
    return first ++ (← statements f rest)

/-- The arguments of a call. -/
def arguments (f : Frame) (variadic : Bool) (params : List TypeId) :
    List Tree → Emit (List Go.Expr)
  | [] => return []
  | t :: rest => do
    let x ← expr f .callArgument t
    let type ← t.valueType
    let x ← passArgument params.head? variadic type x
    return x :: (← arguments f variadic params.tail rest)

/-- The Go expression of a tree without its comma list. -/
def core (f : Frame) (usage : Use) (type : Option TypeId) (position : Position) :
    Shape → Emit Go.Expr
  | .argument index address => argumentRef f index address position
  | .localVar index address => localRef f usage index address
  | .result index address => resultRef f index address
  | .global index name linkage address => globalRef usage index name linkage address
  | .const32 value => do constant32 (← resultType type position) value position
  | .const64 value => do constant64 (← resultType type position) value position
  | .stringConst id => do stringPointer (← resultType type position) id 0 position
  | .null => do
    if TypeTable.isVoidPointer (← resultType type position) then return .convert .uintptr (.int 0)
    else return .nil
  | .binary op lhs rhs => do
    checkBinary op (← resultType type position) position
    let l ← expr f .value lhs
    let r ← expr f .value rhs
    return binaryExpr op l r
  | .compare op operandType lhs rhs => do
    let l ← expr f .operand lhs
    let r ← expr f .operand rhs
    compareExpr op operandType l r position
  | .unary op operandType operand => do
    let k ← kind operandType
    match op with
    | .neg =>
      if isIntegral operandType k || k.isFloat || k.isComplex then
        return .paren (.negate (← expr f .value operand))
      else unsupported position (.unaryOperator "Neg" (← goType operandType))
    | .cpl =>
      if isIntegral operandType k then return .paren (.complement (← expr f .value operand))
      else unsupported position (.unaryOperator "Cpl" (← goType operandType))
    | .not => return .ofBool (← truthOf operand (expr f .value operand) true)
    | .bool => return .ofBool (← truthOf operand (expr f .value operand) false)
  | .convert source operand => do
    let isEntry ← match operand.shape with
      | .global _ name _ _ => isMain name
      | _ => pure false
    if isEntry then expr f .value operand
    else
      let dst ← resultType type position
      let x ← expr f .value operand
      convertExpr source dst x position
  | .load pointerType pointer => do
    if TypeTable.isVoidPointer pointerType then unsupported position .untypedLoad
    else if ← (← types).isFunctionPointer pointerType then unsupported position .untypedLoad
    else return .paren (.deref (← expr f .value pointer))
  | .store bits _ (.mk (.dup target) _ _ comma) value => do
    let stored ← resultType type position
    let t ← goType stored
    if bits ≠ 0 then unsupported position .bitFieldCompound
    else if (← get).compoundDepth ≠ 0 || !comma.isEmpty then unsupported position .nestedCompound
    else
      let name ← require .store stored
      let p ← expr f .operand target
      let v ← inCompound (expr f .operand value)
      return .callName name [.invoke [.pointer t, t] [.define "p" p] (.ret [.name "p", v])]
  | .store bits bitOffset address value => do
    let stored ← resultType type position
    let t ← goType stored
    if bits = 0 then
      let name ← require .store stored
      let a ← expr f .operand address
      let v ← expr f .operand value
      return .callName name [a, v]
    else
      let k ← kind stored
      match k.fieldMask? bits bitOffset, k.fieldShifts? bits bitOffset with
      | some mask, some (left, right) =>
        let name ← require .storeBits stored
        let a ← expr f .operand address
        let v ← expr f .operand value
        return .callName name
          [a, .paren (.binary .lsh v (.int bitOffset)), .convert t (.int mask),
            .int left, .int right]
      | _, _ => unsupported position (.bitField bits bitOffset t)
  | .copy copied dst src => do
    let name ← require .copy copied
    let d ← expr f .value dst
    let s ← expr f .value src
    return .callName name [d, s]
  | .element address neg base index => do
    let pointer ← base.valueType
    let item ← itemType pointer position
    let size ← sizeOf item
    let t ← goType item
    let b ← expr f .value base
    let b ← addressBits pointer b position
    let place ← match index.constant? with
      | some i => pure (displaced b (if neg then -(i * size) else i * size))
      | none => displacedBy b neg size <$> expr f .value index
    return pointed address (.reinterpret (.pointer t) place)
  | .field index address base => do
    let k ← fieldKind (← base.valueType) index position
    return fieldExpr k index address (← expr f .value base)
  | .increment pre delta bits operand => do
    if bits ≠ 0 then unsupported position .bitFieldIncrement
    else
      let stored ← resultType type position
      let d ← incrementDelta stored delta.toInt position
      let name ← require (if pre then .preIncrement else .postIncrement) stored
      return .callName name [← expr f .value operand, d]
  | .ptrDiff pointerType lhs rhs => do
    let t ← goType (← resultType type position)
    let size ← sizeOf (← (← types).element pointerType)
    if size = 0 then unsupported position .zeroSizedDifference
    else
      let l ← addressBits pointerType (← expr f .value lhs) position
      let r ← addressBits pointerType (← expr f .value rhs) position
      let wide := if (← read).target.pointerSize = 4 then Scalar.int32 else Scalar.int64
      return .convert t (.binary .div (.convert (.scalar wide) (.binary .sub l r)) (.int size))
  | .call index functionType args => do
    match ← object index with
    | .data _ => breach (.callOfData index)
    | .function _ =>
      let callee ← objectRef index
      let (params, variadic) ← parametersOf functionType
      return .call callee (← arguments f variadic params args)
  | .callPointer pointerType callee args => do
    let function ← (← types).element pointerType
    let c ← expr f .value callee
    let (params, variadic) ← parametersOf function
    return .call (.paren c) (← arguments f variadic params args)
  | .logical isAnd lhs rhs => do
    let l ← truthOf lhs (expr f .value lhs) false
    let r ← truthOf rhs (expr f .value rhs) false
    return .ofBool (.binary (if isAnd then .logicalAnd else .logicalOr) l r)
  | .conditional cond whenTrue whenFalse => do
    let t ← goType (← resultType type position)
    let c ← truthOf cond (expr f .value cond) false
    let a ← expr f .value whenTrue
    let b ← expr f .value whenFalse
    return .invoke [t] [.returnIf c a] (.ret [b])
  | .dup _ => unsupported position .strayDuplicate
  | .dupRef => do
    if (← get).compoundDepth = 0 then unsupported position .strayDuplicate else return .name "p"
end

/-- The test whether the value of a tree is zero, or is not. -/
def truth (f : Frame) (t : Tree) (zero : Bool) : Emit Go.Expr := truthOf t (expr f .value t) zero

end StackToGo.Emit

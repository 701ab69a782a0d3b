import StackToGo.Emit.Basic
import StackToGo.Integer

/-!
# Constants

Go expressions for numbers and for pointers known in advance. An integer is wrapped to the type
that it is given. A float that Go's literals cannot show, a negative zero or one that is not
finite, is given by its bits.
-/

namespace StackToGo.Emit

/-- A float of format `f`: its literal as a value of type `t`, or the call of `fromBits`. -/
def floatExpr (f : Number.Format) (t : Scalar) (fromBits : String) (bits : Nat) : Go.Expr :=
  if f.isFinite bits && bits != f.signBit then .convert (.scalar t) (.float (f.text bits))
  else .call (.select (.name "math") fromBits) [.hex ((f.fraction + f.exponent + 1) / 4) bits]

/-- A 32-bit float. -/
def float32 (bits : UInt32) : Go.Expr := floatExpr .single .float32 "Float32frombits" bits.toNat

/-- A 64-bit float. -/
def float64 (bits : UInt64) : Go.Expr := floatExpr .double .float64 "Float64frombits" bits.toNat

/-- A complex number. -/
def complex (re im : Go.Expr) : Go.Expr := .callName "complex" [re, im]

/-- A complex number without an imaginary part. -/
def realOnly (re : Go.Expr) : Go.Expr := complex re (.int 0)

/-- An integer of an integer type. -/
def integer (type : TypeId) (k : Kind) (value : Int) (position : Position) : Emit Go.Expr := do
  match k.wrap? value with
  | some wrapped => return .convert (← goType type) (.int wrapped)
  | none => unsupported position (.integerConstant (← goType type))

/-- The address that an integer stands for. -/
def pointerBits (value : Int) : Emit Int := do
  return value % if (← read).target.pointerSize = 4 then 0x100000000 else 0x10000000000000000

/-- An integer as a pointer; 0 is the null pointer. -/
def integerPointer (type : TypeId) (value : Int) (position : Position) : Emit Go.Expr := do
  let bits ← pointerBits value
  if TypeTable.isVoidPointer type then return .convert .uintptr (.int bits)
  else if value = 0 then return .nil
  else if ← (← types).isFunctionPointer type then unsupported position .functionFromInteger
  else return .reinterpret (← goType type) (.convert .uintptr (.int bits))

/-- A constant of an instruction. The integer types take its value, the floats its bits: `single`
as a 32-bit float, and `double` as a 64-bit one. -/
def constant (type : TypeId) (value : Int) (single : UInt32) (double : UInt64)
    (position : Position) : Emit Go.Expr := do
  match ← kind type with
  | .pointer => integerPointer type value position
  | .scalar .float32 => return float32 single
  | .scalar .float64 => return float64 double
  | .scalar .complex64 => return realOnly (float32 (Number.narrow double))
  | .scalar .complex128 => return realOnly (float64 double)
  | k => integer type k value position

/-- A 32-bit constant. -/
def constant32 (type : TypeId) (value : Int32) (position : Position) : Emit Go.Expr :=
  constant type value.toInt value.toUInt32 (Number.widen value.toUInt32) position

/-- A 64-bit constant. -/
def constant64 (type : TypeId) (value : Int64) (position : Position) : Emit Go.Expr :=
  constant type value.toInt (Number.narrow value.toUInt64) value.toUInt64 position

/-- A pointer of the given type into a string literal. Its place is an exact sum. A sum of 64
bits differs from it just where it exceeds `2 ^ 63 - 1`, so for offsets that are beyond every
literal. -/
def stringPointer (type : TypeId) (id : StringId) (offset : Int) (position : Position) :
    Emit Go.Expr := do
  let start ← stringOffset id
  let place := Go.Expr.stringAt (start + offset)
  if TypeTable.isVoidPointer type then return .addressBits place
  else
    let table ← types
    match ← table.get type with
    | .pointer pointee =>
      if pointee = TypeTable.int8 then return place
      else if ← table.isFunctionPointer type then unsupported position (.stringAs (← goType type))
      else return .reinterpret (← goType type) place
    | _ => unsupported position (.stringAs (← goType type))

end StackToGo.Emit

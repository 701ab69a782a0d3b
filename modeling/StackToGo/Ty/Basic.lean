/-!
# Types

The types of values, objects and functions. A type refers to other types by their ids in a type
table, so a type may refer to itself. `Kind` is the outermost constructor alone.
-/

namespace StackToGo

/-- The place of a type in a type table. -/
structure TypeId where
  val : Nat
  deriving DecidableEq, Repr, Inhabited

instance : ToString TypeId := ⟨fun id => toString id.val⟩

/-- Types whose values are single numbers. -/
inductive Scalar where
  | int8 | uint8 | int16 | uint16 | int32 | uint32 | int64 | uint64
  | float32 | float64 | complex64 | complex128
  deriving DecidableEq, Repr

/-- A type. -/
inductive Ty where
  | scalar (s : Scalar)
  | pointer (pointee : TypeId)
  | array (item : TypeId) (items : Nat)
  | struct (fields : List TypeId)
  | union (fields : List TypeId)
  | function (arguments results : List TypeId) (variadic : Bool)
  deriving DecidableEq, Repr

/-- The outermost constructor of a type. -/
inductive Kind where
  | scalar (s : Scalar)
  | pointer | array | struct | union | function
  deriving DecidableEq, Repr

/-- The ids that a type refers to; the arguments of a function come before its results. -/
def Ty.references : Ty → List TypeId
  | .scalar _ => []
  | .pointer pointee => [pointee]
  | .array item _ => [item]
  | .struct fields => fields
  | .union fields => fields
  | .function arguments results _ => arguments ++ results

/-- The kind of a type. -/
def Ty.kind : Ty → Kind
  | .scalar s => .scalar s
  | .pointer _ => .pointer
  | .array .. => .array
  | .struct _ => .struct
  | .union _ => .union
  | .function .. => .function

/-! ## Integers among the kinds -/

/-- Signedness and width of an integer type. -/
structure IntShape where
  signed : Bool
  bits : Nat
  deriving DecidableEq, Repr

/-- The shape of an integer type; floats and complex numbers have none. -/
def Scalar.intShape? : Scalar → Option IntShape
  | .int8 => some ⟨true, 8⟩
  | .uint8 => some ⟨false, 8⟩
  | .int16 => some ⟨true, 16⟩
  | .uint16 => some ⟨false, 16⟩
  | .int32 => some ⟨true, 32⟩
  | .uint32 => some ⟨false, 32⟩
  | .int64 => some ⟨true, 64⟩
  | .uint64 => some ⟨false, 64⟩
  | .float32 | .float64 | .complex64 | .complex128 => none

namespace Kind

/-- The shape of an integer kind. -/
def intShape? : Kind → Option IntShape
  | .scalar s => s.intShape?
  | _ => none

def isInteger (k : Kind) : Bool := k.intShape?.isSome

def isSigned (k : Kind) : Bool := k.intShape?.any (·.signed)

def isFloat (k : Kind) : Bool := k = .scalar .float32 || k = .scalar .float64

def isComplex (k : Kind) : Bool := k = .scalar .complex64 || k = .scalar .complex128

def isScalar : Kind → Bool
  | .scalar _ => true
  | _ => false

/-- One byte wide integers, of which byte buffers are made. -/
def isByte (k : Kind) : Bool := k = .scalar .int8 || k = .scalar .uint8

end Kind

/-! ## How messages show types -/

def Scalar.describe : Scalar → String
  | .int8 => "Int8"
  | .uint8 => "Uint8"
  | .int16 => "Int16"
  | .uint16 => "Uint16"
  | .int32 => "Int32"
  | .uint32 => "Uint32"
  | .int64 => "Int64"
  | .uint64 => "Uint64"
  | .float32 => "Float32"
  | .float64 => "Float64"
  | .complex64 => "Complex64"
  | .complex128 => "Complex128"

def Kind.describe : Kind → String
  | .scalar s => s.describe
  | .pointer => "Pointer"
  | .array => "Array"
  | .struct => "Struct"
  | .union => "Union"
  | .function => "Function"

def TypeId.describe (id : TypeId) : String := "TypeId(" ++ toString id.val ++ ")"

/-- A list of ids between brackets. -/
def TypeId.describeList (ids : List TypeId) : String :=
  "[" ++ ", ".intercalate (ids.map describe) ++ "]"

def Ty.describe : Ty → String
  | .scalar s => s.describe
  | .pointer pointee => "Pointer(" ++ pointee.describe ++ ")"
  | .array item items =>
    "Array \x7b item: " ++ item.describe ++ ", items: " ++ toString items ++ " \x7d"
  | .struct fields => "Struct \x7b fields: " ++ TypeId.describeList fields ++ " \x7d"
  | .union fields => "Union \x7b fields: " ++ TypeId.describeList fields ++ " \x7d"
  | .function arguments results variadic =>
    "Function \x7b arguments: " ++ TypeId.describeList arguments ++ ", results: " ++
      TypeId.describeList results ++ ", variadic: " ++ toString variadic ++ " \x7d"

end StackToGo

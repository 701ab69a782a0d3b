import StackToGo.Ty.Basic

/-!
# Go types

The Go types that values are given, and their text. Fields of a struct are named by their place. A
union is a buffer of bytes, beside an array of length zero that names the types of its members.
-/

namespace StackToGo.Go

/-- A Go type. -/
inductive Ty where
  | scalar (s : Scalar)
  /-- The type of a pointer to nothing in particular. -/
  | uintptr
  | pointer (pointee : Ty)
  | array (items : Nat) (item : Ty)
  | struct (fields : List Ty)
  | union (members : List Ty) (size : Nat)
  | func (params : List Ty) (variadic : Bool) (result : Option Ty)
  /-- The buffer of a union. -/
  | bytes (size : Nat)
  deriving Repr

/-- The Go name of a scalar type. -/
def scalarName : Scalar → String
  | .int8 => "int8"
  | .uint8 => "uint8"
  | .int16 => "int16"
  | .uint16 => "uint16"
  | .int32 => "int32"
  | .uint32 => "uint32"
  | .int64 => "int64"
  | .uint64 => "uint64"
  | .float32 => "float32"
  | .float64 => "float64"
  | .complex64 => "complex64"
  | .complex128 => "complex128"

/-- The name of the field at a place. -/
def fieldName (index : Nat) : String := "X" ++ toString index

/-- The parameter that takes any further arguments. -/
def variadicParam : String := "...interface\x7b\x7d"

namespace Ty

mutual
/-- The text of a type. -/
def text : Ty → String
  | .scalar s => scalarName s
  | .uintptr => "uintptr"
  | .pointer pointee => "*" ++ text pointee
  | .array items item => "[" ++ toString items ++ "]" ++ text item
  | .struct fields => "struct\x7b" ++ "; ".intercalate (fieldTexts 0 fields) ++ "\x7d"
  | .union members size =>
    "struct\x7b_ [0]struct\x7b" ++ "; ".intercalate (fieldTexts 0 members) ++ "\x7d; U [" ++
      toString size ++ "]byte\x7d"
  | .bytes size => "[" ++ toString size ++ "]byte"
  | .func params variadic result =>
    "func(" ++ ", ".intercalate (texts params ++ if variadic then [variadicParam] else []) ++
      ")" ++
      resultText result

/-- The texts of types in a list. -/
def texts : List Ty → List String
  | [] => []
  | t :: rest => text t :: texts rest

/-- The texts of fields, named from `index` on. -/
def fieldTexts (index : Nat) : List Ty → List String
  | [] => []
  | t :: rest => (fieldName index ++ " " ++ text t) :: fieldTexts (index + 1) rest

/-- The result of a function, after its parameters. -/
def resultText : Option Ty → String
  | none => ""
  | some t => " " ++ text t
end

/-- The texts of types in a list are those of its types. -/
theorem texts_eq_map (ts : List Ty) : texts ts = ts.map text := by
  induction ts with
  | nil => rfl
  | cons t rest ih => simp [texts, ih]

end Ty

instance : ToString Ty := ⟨Ty.text⟩

end StackToGo.Go

import StackToGo.Name
import StackToGo.Number.Decimal

/-!
# Initial values

What a variable or an object holds at the start. Floats are bit patterns. Entries that are left out
of an aggregate are zero.
-/

namespace StackToGo

/-- An initial value. -/
inductive Value where
  /-- The address of the object at `index`, moved by `offset` bytes. -/
  | address (index : Nat) (name : NameId) (linkage : Linkage) (offset : Int64)
  /-- The leading members of an aggregate. -/
  | composite (entries : List (Option Value))
  | complex64 (re im : UInt32)
  | complex128 (re im : UInt64)
  | float32 (bits : UInt32)
  | float64 (bits : UInt64)
  | int32 (v : Int32)
  | int64 (v : Int64)
  /-- A pointer into a string literal, or the bytes from there on. -/
  | string (id : StringId) (offset : Int64)
  deriving Repr

namespace Value

mutual
/-- Are all bits of the value zero? A negative zero is not, and neither is an address. -/
def isZero : Value → Bool
  | .address .. => false
  | .composite entries => allZero entries
  | .complex64 re im => re == 0 && im == 0
  | .complex128 re im => re == 0 && im == 0
  | .float32 bits => bits == 0
  | .float64 bits => bits == 0
  | .int32 v => v == 0
  | .int64 v => v == 0
  | .string .. => false

/-- Are all entries zero? -/
def allZero : List (Option Value) → Bool
  | [] => true
  | none :: rest => allZero rest
  | some v :: rest => isZero v && allZero rest
end

/-- Is an entry zero, one that is left out included? -/
def entryIsZero : Option Value → Bool
  | none => true
  | some v => v.isZero

/-- All entries are zero if each of them is. -/
theorem allZero_eq_all (entries : List (Option Value)) :
    allZero entries = entries.all entryIsZero := by
  induction entries with
  | nil => simp [allZero]
  | cons entry rest ih => cases entry <;> simp [allZero, entryIsZero, ih]

mutual
/-- How messages show a value. -/
def describe : Value → String
  | .address index name linkage offset =>
    "Address \x7b index: " ++ toString index ++ ", name: " ++ name.describe ++ ", linkage: " ++
      linkage.describe ++ ", offset: " ++ toString offset.toInt ++ " \x7d"
  | .composite entries => "Composite([" ++ ", ".intercalate (describeEntries entries) ++ "])"
  | .complex64 re im =>
    "Complex64 \x7b re: " ++ Number.Format.single.text re.toNat ++ ", im: " ++
      Number.Format.single.text im.toNat ++ " \x7d"
  | .complex128 re im =>
    "Complex128 \x7b re: " ++ Number.Format.double.text re.toNat ++ ", im: " ++
      Number.Format.double.text im.toNat ++ " \x7d"
  | .float32 bits => "Float32(" ++ Number.Format.single.text bits.toNat ++ ")"
  | .float64 bits => "Float64(" ++ Number.Format.double.text bits.toNat ++ ")"
  | .int32 v => "Int32(" ++ toString v.toInt ++ ")"
  | .int64 v => "Int64(" ++ toString v.toInt ++ ")"
  | .string id offset =>
    "String \x7b id: " ++ id.describe ++ ", offset: " ++ toString offset.toInt ++ " \x7d"

/-- How messages show the entries of an aggregate. -/
def describeEntries : List (Option Value) → List String
  | [] => []
  | none :: rest => "None" :: describeEntries rest
  | some v :: rest => ("Some(" ++ describe v ++ ")") :: describeEntries rest
end

end Value
end StackToGo

import StackToGo.Error

/-!
# The dictionary

Names and string literals, interned as byte strings. Ids are given out densely in the order of
interning, and the empty string has id 0.
-/

namespace StackToGo

/-- Byte strings, each at the place that its id names. -/
structure Dictionary where
  entries : List Bytes
  deriving DecidableEq, Repr

namespace Dictionary

/-- The dictionary of the empty string alone. -/
def empty : Dictionary := ⟨[[]]⟩

/-- The number of byte strings in the dictionary. -/
def size (d : Dictionary) : Nat := d.entries.length

/-- Is there nothing beside the empty string? -/
def isEmpty (d : Dictionary) : Bool := d.size ≤ 1

/-- The id of a byte string, which is added if it is new. -/
def intern (d : Dictionary) (bytes : Bytes) : Nat × Dictionary :=
  match d.entries.idxOf? bytes with
  | some id => (id, d)
  | none => (d.size, ⟨d.entries ++ [bytes]⟩)

/-- The dictionary after interning byte strings in order. -/
def ofList (list : List Bytes) : Dictionary := list.foldl (fun d bytes => (d.intern bytes).2) empty

/-- The byte string that an id names. -/
def bytes (d : Dictionary) (id : Nat) : Except Error Bytes :=
  match d.entries[id]? with
  | some b => .ok b
  | none => .error (.breach (.unknownName id))

/-- The bytes of a name. -/
def nameBytes (d : Dictionary) (id : NameId) : Except Error Bytes := d.bytes id.val

/-- The bytes of a string literal. -/
def stringBytes (d : Dictionary) (id : StringId) : Except Error Bytes := d.bytes id.val

/-- A name as messages show it; one that is empty or unknown shows as its id. -/
def displayName (d : Dictionary) (id : NameId) : String :=
  match d.nameBytes id with
  | .ok (b :: rest) => String.ofList (Text.readLossy (b :: rest))
  | _ => s!"#{id}"

end Dictionary
end StackToGo

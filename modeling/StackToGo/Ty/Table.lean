import StackToGo.Error

/-!
# The type table

Types are interned: equal types share one id, and an id is the place of its type in the table. Ids
are looked up in an index, which grows with the table. Every table begins with the scalar types,
the empty struct and the pointer to it, which is the pointer to nothing in particular.
`TypeTable.ofList?` reads a table from a list, makes its index anew, and refuses entries that
repeat an earlier one or refer to no entry.
-/

namespace StackToGo

/-- A table of types, each at the place that its id names. -/
structure TypeTable where
  entries : List Ty
  /-- The ids by their types, as a map: of the pairs with a type, the first counts. -/
  index : List (Ty × TypeId)
  deriving DecidableEq, Repr

namespace TypeTable

/-- The types that every table begins with. -/
def predefined : List Ty :=
  [.scalar .int8, .scalar .uint8, .scalar .int16, .scalar .uint16, .scalar .int32, .scalar .uint32,
   .scalar .int64, .scalar .uint64, .scalar .float32, .scalar .float64, .scalar .complex64,
   .scalar .complex128, .struct [], .pointer ⟨12⟩]

def int8 : TypeId := ⟨0⟩
def uint8 : TypeId := ⟨1⟩
def int32 : TypeId := ⟨4⟩
def uint32 : TypeId := ⟨5⟩
def int64 : TypeId := ⟨6⟩
def uint64 : TypeId := ⟨7⟩
def float32 : TypeId := ⟨8⟩
def float64 : TypeId := ⟨9⟩
def complex64 : TypeId := ⟨10⟩
def complex128 : TypeId := ⟨11⟩

/-- The pointer to nothing in particular. -/
def voidPointer : TypeId := ⟨13⟩

/-- The number of types in the table. -/
def size (t : TypeTable) : Nat := t.entries.length

/-- The id of a type, if the index has one. -/
def lookup (t : TypeTable) (ty : Ty) : Option TypeId := t.index.lookup ty

/-- The id of a type, which is added to the table and to its index if it is not there. -/
def intern (t : TypeTable) (ty : Ty) : TypeId × TypeTable :=
  match t.lookup ty with
  | some id => (id, t)
  | none => (⟨t.size⟩, ⟨t.entries ++ [ty], (ty, ⟨t.size⟩) :: t.index⟩)

/-- Interns types one after another. -/
def internEach (t : TypeTable) (list : List Ty) : TypeTable :=
  list.foldl (fun t ty => (t.intern ty).2) t

/-- The table of the predefined types alone. -/
def empty : TypeTable := (⟨[], []⟩ : TypeTable).internEach predefined

/-- The type that an id names. -/
def get (t : TypeTable) (id : TypeId) : Except Error Ty :=
  match t.entries[id.val]? with
  | some ty => .ok ty
  | none => .error (.breach (.unknownType id))

/-- The kind of the type that an id names. -/
def kind (t : TypeTable) (id : TypeId) : Except Error Kind := (t.get id).map Ty.kind

/-- The type that a pointer points to. -/
def element (t : TypeTable) (id : TypeId) : Except Error TypeId := do
  match ← t.get id with
  | .pointer pointee => return pointee
  | other => throw (.breach (.notPointer id other))

def isVoidPointer (id : TypeId) : Bool := id = voidPointer

def isPointer (t : TypeTable) (id : TypeId) : Except Error Bool := do
  return (← t.kind id) = .pointer

/-- Is the type a pointer to a function? -/
def isFunctionPointer (t : TypeTable) (id : TypeId) : Except Error Bool := do
  match ← t.get id with
  | .pointer pointee => return (← t.kind pointee) = .function
  | _ => return false

/-- Is the type a pointer to something in particular that is not a function? -/
def isDataPointer (t : TypeTable) (id : TypeId) : Except Error Bool := do
  if !(← t.isPointer id) then return false
  else if isVoidPointer id then return false
  else return !(← t.isFunctionPointer id)

/-! ## Tables from lists -/

/-- Why a list of types is not a table. -/
inductive ListFault where
  /-- The entry at `position` is interned at another place. -/
  | misplaced (position : Nat) (id : TypeId)
  | dangling (ty : Ty) (id : TypeId)
  deriving DecidableEq, Repr

def ListFault.message : ListFault → String
  | .misplaced position id =>
    s!"type list entry {position} duplicates type {id} or breaks the predefined prefix"
  | .dangling ty id => "type " ++ ty.describe ++ s!" references unknown type {id}"

/-- Interns the entries of a list, each of which has to land at its own place. -/
def internAll (t : TypeTable) (position : Nat) : List Ty → Except ListFault TypeTable
  | [] => .ok t
  | ty :: rest =>
    let (id, t') := t.intern ty
    if id.val = position then t'.internAll (position + 1) rest else .error (.misplaced position id)

/-- A reference of `ty` to no entry of the table. -/
def dangling? (t : TypeTable) (ty : Ty) : Option TypeId :=
  ty.references.find? fun id => t.size ≤ id.val

/-- The first entry that refers to no entry, with the reference. -/
def findDangling (t : TypeTable) : List Ty → Option (Ty × TypeId)
  | [] => none
  | ty :: rest => match t.dangling? ty with
    | some id => some (ty, id)
    | none => t.findDangling rest

/-- The table of a list of types. A list that ends among the predefined types is filled up. -/
def ofList? (list : List Ty) : Except ListFault TypeTable := do
  let t ← empty.internAll 0 list
  match t.findDangling t.entries with
  | some (ty, id) => throw (.dangling ty id)
  | none => return t

end TypeTable
end StackToGo

import StackToGo.Ty.Table

/-!
# Layout in memory

Sizes and alignments of types on a target machine. Every type is aligned to its own nature: scalars
to their size (complex numbers to the size of their parts), aggregates to the strictest of their
members. Sizes are 64-bit quantities: an array that exceeds them is an error, and the end of a
struct stays at their greatest value.

A type that contains itself by value has no size; `Extent.within` therefore looks only as deep as
there are types in the table, which is enough for every other type.
-/

namespace StackToGo

/-- The machine that programs are lowered for. -/
structure Target where
  pointerSize : Nat
  bigEndian : Bool
  deriving DecidableEq, Repr

/-- What every allocation of the runtime is aligned to. -/
def Target.mallocAlign (t : Target) : Nat := 2 * t.pointerSize

/-- The greatest size. -/
def maxSize : Nat := 0xFFFFFFFFFFFFFFFF

/-- The least multiple of `alignment` that is not below `value`. Alignments 0 and 1 ask for
nothing. -/
def alignTo (value alignment : Nat) : Nat :=
  if alignment ≤ 1 then value
  else if value % alignment = 0 then value
  else value + (alignment - value % alignment)

/-- Size and alignment of a type, each unless it cannot be told. -/
structure Extent where
  size : Except Error Nat
  align : Except Error Nat

/-- The extent of a type about which nothing can be told. -/
def Extent.unknown (e : Error) : Extent := ⟨.error e, .error e⟩

/-- Where the fields of a struct lie. -/
structure StructLayout where
  size : Nat
  align : Nat
  offsets : List Nat
  deriving DecidableEq, Repr

/-- Places fields from `offset` on, each at the next multiple of its alignment. Gives the end of
the last field, the strictest alignment, and the offsets. -/
def placeFields (offset align : Nat) : List Extent → Except Error (Nat × Nat × List Nat)
  | [] => .ok (offset, align, [])
  | field :: rest => do
    let fieldAlign ← field.align
    let start := alignTo offset fieldAlign
    let size ← field.size
    let (stop, strictest, offsets) ← placeFields (min (start + size) maxSize)
        (max align fieldAlign) rest
    return (stop, strictest, start :: offsets)

/-- The layout of a struct with the given fields. -/
def StructLayout.ofExtents (fields : List Extent) : Except Error StructLayout := do
  let (stop, align, offsets) ← placeFields 0 1 fields
  return ⟨alignTo stop align, align, offsets⟩

/-- The greatest of some quantities, at least `start`. -/
def greatest (start : Nat) : List (Except Error Nat) → Except Error Nat
  | [] => .ok start
  | x :: rest => do greatest (max start (← x)) rest

/-- Size of a scalar type. -/
def Scalar.size : Scalar → Nat
  | .int8 | .uint8 => 1
  | .int16 | .uint16 => 2
  | .int32 | .uint32 | .float32 => 4
  | .int64 | .uint64 | .float64 | .complex64 => 8
  | .complex128 => 16

/-- Alignment of a scalar type. -/
def Scalar.align : Scalar → Nat
  | .int8 | .uint8 => 1
  | .int16 | .uint16 => 2
  | .int32 | .uint32 | .float32 | .complex64 => 4
  | .int64 | .uint64 | .float64 | .complex128 => 8

/-- The extent of the array `id` of `items` items. -/
def Extent.array (id : TypeId) (items : Nat) (item : Extent) : Extent where
  size := do
    let size ← item.size
    if size * items ≤ maxSize then return size * items else throw (.breach (.arrayOverflow id))
  align := item.align

/-- The extent of a struct. -/
def Extent.struct (fields : List Extent) : Extent where
  size := (StructLayout.ofExtents fields).map (·.size)
  align := (StructLayout.ofExtents fields).map (·.align)

/-- The extent of a union: its members lie on top of each other. -/
def Extent.union (members : List Extent) : Extent where
  size := do
    let size ← greatest 0 (members.map (·.size))
    return alignTo size (← greatest 1 (members.map (·.align)))
  align := greatest 1 (members.map (·.align))

namespace TypeTable

/-- The extent of a type, looking `depth` types deep. -/
def extentWithin (types : TypeTable) (target : Target) : Nat → TypeId → Extent
  | 0, id => .unknown (.breach (.endlessSize id))
  | depth + 1, id =>
    match types.get id with
    | .error e => .unknown e
    | .ok (.scalar s) => ⟨.ok s.size, .ok s.align⟩
    | .ok (.pointer _) => ⟨.ok target.pointerSize, .ok target.pointerSize⟩
    | .ok (.function ..) => ⟨.ok target.pointerSize, .ok target.pointerSize⟩
    | .ok (.array item items) => .array id items (types.extentWithin target depth item)
    | .ok (.struct fields) => .struct (fields.map (types.extentWithin target depth))
    | .ok (.union members) => .union (members.map (types.extentWithin target depth))

/-- The extent of a type. -/
def extent (types : TypeTable) (target : Target) (id : TypeId) : Extent :=
  types.extentWithin target (types.size + 1) id

/-- The size of a type in bytes. -/
def sizeOf (types : TypeTable) (target : Target) (id : TypeId) : Except Error Nat :=
  (types.extent target id).size

/-- The alignment of a type. -/
def alignOf (types : TypeTable) (target : Target) (id : TypeId) : Except Error Nat :=
  (types.extent target id).align

/-- The layout of a struct whose fields have the given types. -/
def structLayout (types : TypeTable) (target : Target) (fields : List TypeId) :
    Except Error StructLayout :=
  StructLayout.ofExtents (fields.map (types.extent target))

end TypeTable
end StackToGo

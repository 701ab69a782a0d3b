import StackToGo.Emit.Expr

/-!
# Initial values

Go expressions for initial values. Members of an aggregate that are zero are left out. The value of
a union is given by the bytes of the member that is not zero, in the byte order of the target.
-/

namespace StackToGo.Emit

/-- An integer as a value of any scalar or pointer type. -/
def scalarValue (type : TypeId) (k : Kind) (value : Int) (position : Position) : Emit Go.Expr :=
  match k with
  | .pointer => integerPointer type value position
  | .scalar .float32 => return float32 (Number.Format.single.ofInt value).toUInt32
  | .scalar .float64 => return float64 (Number.Format.double.ofInt value).toUInt64
  | .scalar .complex64 => return realOnly (float32 (Number.Format.single.ofInt value).toUInt32)
  | .scalar .complex128 => return realOnly (float64 (Number.Format.double.ofInt value).toUInt64)
  | k => integer type k value position

/-- A float as a value of any scalar type: `single` is the float in 32 bits, and `double` in 64. -/
def floatValue (type : TypeId) (k : Kind) (single : UInt32) (double : UInt64)
    (position : Position) : Emit Go.Expr :=
  match k with
  | .scalar .float32 => return float32 single
  | .scalar .float64 => return float64 double
  | .scalar .complex64 => return realOnly (float32 single)
  | .scalar .complex128 => return realOnly (float64 double)
  | k => do
    if k.isInteger && Number.Format.double.isFinite double.toNat then
      integer type k (Number.Format.double.truncate double.toNat) position
    else unsupported position (.floatAs (← goType type))

/-- The bytes of a string literal as the items of an array. -/
def stringItems (k : Kind) (bytes : Bytes) : List Go.Element :=
  bytes.filterMap fun b => (k.wrap? b.toNat).map fun v => .next (.int v)

/-- A string literal: the items of a byte buffer, or a pointer into the string pool. -/
def stringValue (type : TypeId) (id : StringId) (offset : Int) (position : Position) :
    Emit Go.Expr := do
  let table ← types
  match ← table.get type with
  | .array item items =>
    let k ← table.kind item
    if k.isByte then
      let bytes ← (← read).dict.stringBytes id
      if offset < 0 then unsupported position (.stringOffset offset)
      else
        return .composite (← goType type) (stringItems k ((bytes.drop offset.toNat).take items))
    else stringPointer type id offset position
  | _ => stringPointer type id offset position

/-- The address of an object, moved by `offset` bytes. -/
def addressValue (type : TypeId) (index : Nat) (name : NameId) (exported : Bool) (offset : Int)
    (position : Position) : Emit Go.Expr := do
  let o ← object index
  let x ← objectAs index name exported
  let table ← types
  match o with
  | .function _ =>
    if offset ≠ 0 then unsupported position (.functionAddressAs (← goType type))
    else if ← table.isFunctionPointer type then return x
    else unsupported position (.functionAddressAs (← goType type))
  | .data d =>
    let reference := Go.Expr.addressOf x
    let moved := displaced (.addressBits reference) offset
    if TypeTable.isVoidPointer type then return moved
    else if ← table.isDataPointer type then
      let t ← goType type
      if offset ≠ 0 then return .reinterpret t moved
      else if table.lookup (.pointer d.type) = some type then return reference
      else return .reinterpret t reference
    else unsupported position (.addressAs (← goType type))

/-- The bits of a scalar member of a union, if the value fits the member. -/
def memberBits? (k : Kind) (v : Value) : Option Nat :=
  match k, v with
  | .scalar .float32, .float32 bits => some bits.toNat
  | .scalar .float32, .float64 bits => some (Number.narrow bits).toNat
  | .scalar .float64, .float64 bits => some bits.toNat
  | .scalar .float64, .float32 bits => some (Number.widen bits).toNat
  | .pointer, .int32 v => if v = 0 then some 0 else none
  | .pointer, .int64 v => if v = 0 then some 0 else none
  | k, .int32 v => if k.isInteger then some (v.toInt % 0x10000000000000000).toNat else none
  | k, .int64 v => if k.isInteger then some (v.toInt % 0x10000000000000000).toNat else none
  | _, _ => none

/-- The eight bytes of a word, the lowest first. -/
def littleEndianBytes (word : Nat) : Bytes :=
  (List.range 8).map fun place => (word >>> (8 * place)).toUInt8

/-- The eight bytes of a word, the highest first. -/
def bigEndianBytes (word : Nat) : Bytes :=
  (List.range 8).map fun place => (word >>> (8 * (7 - place))).toUInt8

/-- The bytes of a union of `size` bytes whose member of `width` bytes has the given bits. They
are zero but for the first ones, which are taken from the end of the word where its lowest bytes
are. -/
def unionBytes (bigEndian : Bool) (size width bits : Nat) : Bytes :=
  let member :=
    if bigEndian then (bigEndianBytes bits).drop (8 - width)
      else (littleEndianBytes bits).take width
  member ++ (List.replicate size 0).drop width

/-- The bytes of a union of `size` bytes with a value for its member of type `member`. -/
def unionValue (member : TypeId) (v : Value) (size : Nat) (position : Position) : Emit Bytes := do
  let k ← kind member
  let width ← sizeOf member
  match memberBits? k v with
  | none => unsupported position (.unionMember k)
  | some bits =>
    if width > 8 || width > size then unsupported position (.wideUnionMember width)
    else return unionBytes (← read).target.bigEndian size width bits

/-- The first entry that is not zero, with its place. -/
def firstNonzero (place : Nat) : List (Option Value) → Option (Nat × Value)
  | [] => none
  | none :: rest => firstNonzero (place + 1) rest
  | some v :: rest => if v.isZero then firstNonzero (place + 1) rest else some (place, v)

/-- The value of a union. -/
def unionLiteral (type : TypeId) (t : Go.Ty) (members : List TypeId)
    (entries : List (Option Value)) (position : Position) : Emit Go.Expr := do
  match firstNonzero 0 entries with
  | none => return .composite t []
  | some (place, v) =>
    match members[place]? with
    | none => breach (.noUnionMember t place)
    | some member =>
      let size ← sizeOf type
      let bytes ← unionValue member v size position
      return .composite t
        [.field "U" (.composite (.bytes size) (bytes.map fun b => .next (.int b.toNat)))]

mutual
/-- The Go expression of an initial value of the given type. -/
def value (type : TypeId) (position : Position) : Value → Emit Go.Expr
  | .int32 v => do scalarValue type (← kind type) v.toInt position
  | .int64 v => do scalarValue type (← kind type) v.toInt position
  | .float32 bits => do floatValue type (← kind type) bits (Number.widen bits) position
  | .float64 bits => do floatValue type (← kind type) (Number.narrow bits) bits position
  | .complex64 re im => do
    if (← kind type) = .scalar .complex64 then return complex (float32 re) (float32 im)
    else unsupported position (.complexAs (← goType type))
  | .complex128 re im => do
    if (← kind type) = .scalar .complex128 then return complex (float64 re) (float64 im)
    else unsupported position (.complexAs (← goType type))
  | .string id offset => stringValue type id offset.toInt position
  | .address index name linkage offset => do
    let _ ← kind type
    addressValue type index name linkage.isExported offset.toInt position
  | .composite entries => do
    let t ← goType type
    match ← (← types).get type with
    | .array item items =>
      if items < entries.length then breach (.manyInitializers entries.length t)
      else return .composite t (← arrayElements item position 0 entries)
    | .struct fields =>
      if fields.length < entries.length then breach (.manyInitializers entries.length t)
      else return .composite t (← structElements position 0 fields entries)
    | .union members => unionLiteral type t members entries position
    | _ => unsupported position (.aggregateFor t)

/-- The items of an array that are not zero, from `place` on. -/
def arrayElements (item : TypeId) (position : Position) (place : Nat) :
    List (Option Value) → Emit (List Go.Element)
  | [] => return []
  | none :: rest => arrayElements item position (place + 1) rest
  | some v :: rest => do
    if v.isZero then arrayElements item position (place + 1) rest
    else
      let x ← value item position v
      return .place place x :: (← arrayElements item position (place + 1) rest)

/-- The fields of a struct that are not zero, from `place` on. -/
def structElements (position : Position) (place : Nat) (fields : List TypeId) :
    List (Option Value) → Emit (List Go.Element)
  | [] => return []
  | none :: rest => structElements position (place + 1) fields.tail rest
  | some v :: rest => do
    match fields with
    | [] => return []
    | field :: fields =>
      if v.isZero then structElements position (place + 1) fields rest
      else
        let x ← value field position v
        return .field (Go.fieldName place) x :: (← structElements position (place + 1) fields rest)
end

end StackToGo.Emit

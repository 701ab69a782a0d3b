import StackToGo.Ty.Basic

/-!
# Integers of a given width, and fields of bits in them

`IntShape.wrap` brings an integer into the range of an integer type. A field of bits is written
with a mask that selects it inside its word, and read back by moving it to the top of the word and
down again.
-/

namespace StackToGo

namespace IntShape

/-- The integer of this width and signedness that agrees with `v` in its low bits. -/
def wrap (s : IntShape) (v : Int) : Int :=
  if s.signed then v.bmod (Nat.pow 2 s.bits) else v % Nat.pow 2 s.bits

/-- Does a field of `bits` bits at `offset` lie inside a word of this shape? The empty field does
not count. The end of the field is a sum of 32 bits. -/
def hasField (s : IntShape) (bits offset : Nat) : Bool :=
  bits ≠ 0 && (bits.toUInt32 + offset.toUInt32).toNat ≤ s.bits

/-- The constant of this shape whose bits are those of the field. They are set in a word of 64
bits, which the field may fill, and the word is read as a number with a sign. -/
def fieldMask (s : IntShape) (bits offset : Nat) : Int :=
  let field : UInt64 := if bits = 64 then 0xFFFFFFFFFFFFFFFF else (1 <<< bits.toUInt64) - 1
  s.wrap (field <<< offset.toUInt64).toInt64.toInt

/-- How far to shift the field left, and then right again, so that it is extended from its own top
bit. -/
def fieldShifts (s : IntShape) (bits offset : Nat) : Nat × Nat :=
  (s.bits - offset - bits, s.bits - bits)

end IntShape

namespace Kind

/-- The number `v` as an integer of kind `k`. -/
def wrap? (k : Kind) (v : Int) : Option Int := k.intShape?.map (·.wrap v)

/-- The mask of a field in a word of kind `k`, if there is such a field. -/
def fieldMask? (k : Kind) (bits offset : Nat) : Option Int :=
  (k.intShape?.filter (·.hasField bits offset)).map (·.fieldMask bits offset)

/-- The shifts that read a field in a word of kind `k`, if there is such a field. -/
def fieldShifts? (k : Kind) (bits offset : Nat) : Option (Nat × Nat) :=
  (k.intShape?.filter (·.hasField bits offset)).map (·.fieldShifts bits offset)

end Kind
end StackToGo

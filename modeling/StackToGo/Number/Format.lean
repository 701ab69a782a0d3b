/-!
# Binary floating-point formats

A float is its bit pattern. `Format.decode` says what number the pattern stands for,
`Format.encode` rounds a number to the nearest pattern, a tie going to the even one, and the
conversions between formats and integers are built from the two. All arithmetic is exact, on
integers.
-/

namespace StackToGo.Number

/-- A binary format: the number of bits of its fraction and of its exponent. -/
structure Format where
  fraction : Nat
  exponent : Nat
  deriving DecidableEq, Repr

/-- The 32-bit format. -/
def Format.single : Format := ⟨23, 8⟩

/-- The 64-bit format. -/
def Format.double : Format := ⟨52, 11⟩

/-- What a bit pattern stands for. -/
inductive Datum where
  /-- Not a number, with the bits of its fraction. -/
  | nan (negative : Bool) (payload : Nat)
  | infinite (negative : Bool)
  /-- The number `significand * 2 ^ scale`, negated if `negative`. -/
  | finite (negative : Bool) (significand : Nat) (scale : Int)
  deriving DecidableEq, Repr

namespace Format

/-- The scale of the subnormal numbers, which is the least scale of the format. -/
def minScale (f : Format) : Int := 2 - Nat.pow 2 (f.exponent - 1) - f.fraction

/-- The pattern of positive infinity; every greater magnitude is not a number. -/
def infinity (f : Format) : Nat := (Nat.pow 2 f.exponent - 1) * Nat.pow 2 f.fraction

/-- The weight of the sign bit. -/
def signBit (f : Format) : Nat := Nat.pow 2 (f.fraction + f.exponent)

/-- What the pattern `bits` stands for. -/
def decode (f : Format) (bits : Nat) : Datum :=
  let negative := decide (f.signBit ≤ bits % (2 * f.signBit))
  let magnitude := bits % f.signBit
  let field := magnitude / Nat.pow 2 f.fraction
  let rest := magnitude % Nat.pow 2 f.fraction
  if field = Nat.pow 2 f.exponent - 1 then
    if rest = 0 then .infinite negative else .nan negative rest
  else if field = 0 then .finite negative rest f.minScale
  else .finite negative (Nat.pow 2 f.fraction + rest) (f.minScale + (field - 1 : Nat))

/-- The quotient `m / 2 ^ k` rounded to the nearest integer, a tie going to the even one. -/
def halveRounding (m k : Nat) : Nat :=
  let unit := Nat.pow 2 k
  let q := m / unit
  let r := m % unit
  if 2 * r < unit then q else if 2 * r > unit then q + 1 else q + q % 2

/-- The pattern nearest to `m * 2 ^ scale`. The patterns of one sign are consecutive in the order
of the numbers, so a carry out of the fraction moves on to the next exponent, and past the last to
infinity. -/
def roundMagnitude (f : Format) (m : Nat) (scale : Int) : Nat :=
  if m = 0 then 0
  else
    let target := max f.minScale (scale + m.log2 - f.fraction)
    let kept := if target ≤ scale then m * Nat.pow 2 (scale - target).toNat
      else halveRounding m (target - scale).toNat
    min f.infinity ((target - f.minScale).toNat * Nat.pow 2 f.fraction + kept)

/-- The pattern that stands for `d`, or the nearest one. -/
def encode (f : Format) : Datum → Nat
  | .nan negative payload =>
    (if negative then f.signBit else 0) + f.infinity + payload % Nat.pow 2 f.fraction
  | .infinite negative => (if negative then f.signBit else 0) + f.infinity
  | .finite negative m scale => (if negative then f.signBit else 0) + f.roundMagnitude m scale

/-- The float of format `g` nearest to the float `bits` of format `f`. What is not a number keeps
its sign and the leading bits of its fraction, and becomes quiet. -/
def convert (f g : Format) (bits : Nat) : Nat :=
  match f.decode bits with
  | .nan negative payload =>
    let moved := payload * Nat.pow 2 g.fraction / Nat.pow 2 f.fraction
    g.encode (.nan negative (moved ||| Nat.pow 2 (g.fraction - 1)))
  | d => g.encode d

/-- The float nearest to an integer. -/
def ofInt (f : Format) (v : Int) : Nat := f.encode (.finite (decide (v < 0)) v.natAbs 0)

/-- Is the float a number? -/
def isFinite (f : Format) (bits : Nat) : Bool :=
  match f.decode bits with
  | .finite .. => true
  | _ => false

/-- The integer part of a float, held within the 64-bit signed integers; 0 if it is not a
number. -/
def truncate (f : Format) (bits : Nat) : Int :=
  match f.decode bits with
  | .nan .. => 0
  | .infinite negative => if negative then -0x8000000000000000 else 0x7FFFFFFFFFFFFFFF
  | .finite negative m scale =>
    let whole : Int :=
      if 0 ≤ scale then m * Nat.pow 2 scale.toNat else m / Nat.pow 2 (-scale).toNat
    max (-0x8000000000000000) (min 0x7FFFFFFFFFFFFFFF (if negative then -whole else whole))

end Format

/-- A 64-bit float rounded to 32 bits. -/
def narrow (bits : UInt64) : UInt32 := (Format.double.convert .single bits.toNat).toUInt32

/-- A 32-bit float as a 64-bit one. -/
def widen (bits : UInt32) : UInt64 := (Format.single.convert .double bits.toNat).toUInt64

end StackToGo.Number

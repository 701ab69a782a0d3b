import StackToGo.Number.Shortest

/-!
# Text of floats

A float is written with its shortest digits. Numbers from 0.0001 up to, and without, 10^16 are
written with a point and at least one digit on both sides of it; all others have an exponent, and a
point only if they have more than one digit.
-/

namespace StackToGo.Number

/-- The first decimal exponent that is written with an exponent. -/
def positionalEnd : Int := 16

/-- The least decimal exponent that is written with a point. -/
def positionalStart : Int := -4

/-- The text of a decimal. -/
def Decimal.text (d : Decimal) : String :=
  let digits := Nat.toDigits 10 d.digits
  let leading := d.exponent + digits.length - 1
  if positionalStart ≤ leading ∧ leading < positionalEnd then
    if 0 ≤ d.exponent then
      String.ofList (digits ++ List.replicate d.exponent.toNat '0' ++ ['.', '0'])
    else if 0 ≤ leading then
      let whole := (leading + 1).toNat
      String.ofList (digits.take whole ++ '.' :: digits.drop whole)
    else
      String.ofList ('0' :: '.' :: List.replicate (-leading - 1).toNat '0' ++ digits)
  else
    let mantissa := match digits with
      | d :: rest@(_ :: _) => d :: '.' :: rest
      | one => one
    String.ofList mantissa ++ "e" ++ toString leading

/-- The text of a float of format `f`. -/
def Format.text (f : Format) (bits : Nat) : String :=
  match f.decode bits with
  | .nan .. => "NaN"
  | .infinite negative => if negative then "-inf" else "inf"
  | .finite negative m scale =>
    let body := if m = 0 then "0.0" else (shortest f m scale).text
    if negative then "-" ++ body else body

end StackToGo.Number

/-!
# Hexadecimal text

Lower-case hexadecimal digits in a fixed number of places.
-/

namespace StackToGo.Text

/-- The hexadecimal digit of `n` at a place, counted from the lowest, which is place 0. -/
def hexDigit (n place : Nat) : Char := Nat.digitChar (n / Nat.pow 16 place % 16)

/-- The digits of `n` at the lowest `width` places, the highest place first. -/
def hexNumber (width n : Nat) : List Char := (List.range width).reverse.map (hexDigit n)

/-- The two hexadecimal digits of a byte. -/
def hexByte (b : UInt8) : List Char := [hexDigit b.toNat 1, hexDigit b.toNat 0]

/-- There is one digit for each place. -/
@[simp] theorem length_hexNumber (width n : Nat) : (hexNumber width n).length = width := by
  rw [hexNumber, List.length_map, List.length_reverse, List.length_range]

@[simp] theorem length_hexByte (b : UInt8) : (hexByte b).length = 2 := rfl

end StackToGo.Text

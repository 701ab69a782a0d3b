import StackToGo.Number.Format

/-!
# Shortest decimals

The decimal with the fewest digits that reads back as a given float, and of those the one nearest
to it. The numbers that read back as a float are an interval around it, whose ends count when its
significand is even. For one digit, two digits and so on, only the two neighbours of the float
among the decimals with that many digits matter; the first number of digits at which one of them
lies in the interval is the answer.
-/

namespace StackToGo.Number

/-- A positive rational number. -/
structure Ratio where
  num : Nat
  den : Nat
  deriving DecidableEq, Repr

/-- The number `m * 2 ^ scale`. -/
def Ratio.scaled (m : Nat) (scale : Int) : Ratio :=
  if 0 ≤ scale then ⟨m * Nat.pow 2 scale.toNat, 1⟩ else ⟨m, Nat.pow 2 (-scale).toNat⟩

/-- How many decimal digits `n` has. -/
def digitCount (n : Nat) : Nat := (Nat.toDigits 10 n).length

/-- The exponent of the leading decimal digit: `10 ^ k ≤ r < 10 ^ (k + 1)`. -/
def Ratio.decimalExponent (r : Ratio) : Int :=
  if r.den ≤ r.num then digitCount (r.num / r.den) - 1
  else
    let d := digitCount (r.den / r.num)
    if r.den ≤ r.num * Nat.pow 10 (d - 1) then -(d - 1 : Nat) else -d

/-- The decimal `digits * 10 ^ exponent`. -/
structure Decimal where
  digits : Nat
  exponent : Int
  deriving DecidableEq, Repr

/-- A float with the interval of the numbers that read back as it, in units of `2 ^ scale`. -/
structure Interval where
  low : Nat
  value : Nat
  high : Nat
  scale : Int
  closed : Bool
  deriving DecidableEq, Repr

/-- The interval of the float `m * 2 ^ scale`: half way to the neighbours, and the lower neighbour
is only half as far when `m` is the least significand of its exponent. -/
def Interval.around (f : Format) (m : Nat) (scale : Int) : Interval where
  low := if m = Nat.pow 2 f.fraction then 4 * m - 1 else 4 * m - 2
  value := 4 * m
  high := 4 * m + 2
  scale := scale - 2
  closed := m % 2 = 0

/-- An integer and a fraction of the units of a decimal grid, on which an interval is measured. -/
structure Grid where
  /-- A number `x` of units of the interval is `x * num / den` steps of the grid. -/
  num : Nat
  den : Nat

/-- The grid whose steps are `10 ^ exponent`. -/
def Grid.of (scale exponent : Int) : Grid :=
  let two := Ratio.scaled 1 scale
  if 0 ≤ exponent then ⟨two.num, two.den * Nat.pow 10 exponent.toNat⟩
  else ⟨two.num * Nat.pow 10 (-exponent).toNat, two.den⟩

/-- Does the `n`-th point of the grid lie in the interval? -/
def Interval.holds (i : Interval) (g : Grid) (n : Nat) : Bool :=
  if i.closed then i.low * g.num ≤ n * g.den && n * g.den ≤ i.high * g.num
  else i.low * g.num < n * g.den && n * g.den < i.high * g.num

/-- The point of the grid that reads back as the float: of its two neighbours the nearer, and the
upper one when both are equally near. -/
def Interval.point? (i : Interval) (g : Grid) : Option Nat :=
  let down := i.value * g.num / g.den
  let rest := i.value * g.num % g.den
  match i.holds g down, i.holds g (down + 1) with
  | true, true => some (if 2 * rest < g.den then down else down + 1)
  | true, false => some down
  | false, true => some (down + 1)
  | false, false => none

/-- The first of the grids with `count`, `count + 1`, … digits that has a point for the float,
within `tries` of them. -/
def Interval.search (i : Interval) (top : Int) : Nat → Nat → Decimal
  | 0, _ => ⟨i.value, 0⟩
  | tries + 1, count =>
    let exponent := top - count + 1
    match i.point? (Grid.of i.scale exponent) with
    | some n => ⟨n, exponent⟩
    | none => i.search top tries (count + 1)

/-- The decimal without the zeros at its end. -/
def Decimal.trim (d : Decimal) : Nat → Decimal
  | 0 => d
  | n + 1 =>
    if d.digits % 10 = 0 ∧ d.digits ≠ 0 then Decimal.trim ⟨d.digits / 10, d.exponent + 1⟩ n else d

/-- The shortest decimal that reads back as the positive float `m * 2 ^ scale`. Seventeen digits
are enough for a 64-bit float. -/
def shortest (f : Format) (m : Nat) (scale : Int) : Decimal :=
  ((Interval.around f m scale).search (Ratio.scaled m scale).decimalExponent 17 1).trim 1

end StackToGo.Number

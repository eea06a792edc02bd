import HtmlTemplate.Number.Binary64

/-!
# The shortest decimal of a double

Of all decimals that round to a finite double, `shortest` picks one with the fewest digits and,
among those, the nearest. A decimal with a given number of digits lies on a grid of powers of ten;
if any point of the grid rounds to the double, then so does one of the two grid points around the
double, so only these two are tried. All comparisons are exact.
-/

namespace HtmlTemplate

/-- The decimal `coefficient · 10 ^ power`. -/
structure Decimal where
  coefficient : Nat
  power : Int
  deriving Repr, DecidableEq

namespace Decimal

/-- Compares `a · 10 ^ p` with `b · 2 ^ q`. -/
def compareScaled (a : Nat) (p : Int) (b : Nat) (q : Int) : Ordering :=
  compare (a * Nat.pow 10 p.toNat * Nat.pow 2 (-q).toNat)
    (b * Nat.pow 2 q.toNat * Nat.pow 10 (-p).toNat)

/-- Whether the decimal rounds to `mantissa · 2 ^ exponent`. -/
def roundsTo (d : Decimal) (mantissa : Nat) (exponent : Int) : Bool :=
  let interval := Rounding.around mantissa exponent
  let low := compareScaled d.coefficient d.power interval.low (exponent - 2)
  let high := compareScaled d.coefficient d.power interval.high (exponent - 2)
  (low == .gt || (interval.closed && low == .eq)) &&
    (high == .lt || (interval.closed && high == .eq))

/-- Numerator and denominator of `mantissa · 2 ^ exponent`. -/
def ratio (mantissa : Nat) (exponent : Int) : Nat × Nat :=
  (mantissa * Nat.pow 2 exponent.toNat, Nat.pow 2 (-exponent).toNat)

/-- The number of decimal digits. -/
def digitCount (n : Nat) : Nat := (Nat.toDigits 10 n).length

/-- The power of ten of the leading digit of a positive `num / den`. -/
def leadingPower (num den : Nat) : Int :=
  if den ≤ num then digitCount (num / den) - 1
  else
    let guess := digitCount den - digitCount num
    if den ≤ num * Nat.pow 10 guess then -guess else -(guess + 1)

/-- The two decimals of the grid `10 ^ power` around `num / den`, the lower one first. -/
def neighbours (num den : Nat) (power : Int) : Decimal × Decimal :=
  let below := num * Nat.pow 10 (-power).toNat / (den * Nat.pow 10 power.toNat)
  (⟨below, power⟩, ⟨below + 1, power⟩)

/-- The neighbour on one grid that rounds to the double: of two the nearer, of two equally near
ones the upper. -/
def onGrid? (mantissa : Nat) (exponent : Int) (power : Int) : Option Decimal :=
  let (num, den) := ratio mantissa exponent
  let (below, above) := neighbours num den power
  if below.roundsTo mantissa exponent then
    if above.roundsTo mantissa exponent then
      match compareScaled (2 * below.coefficient + 1) power (2 * mantissa) exponent with
      | .gt => some below
      | _ => some above
    else some below
  else if above.roundsTo mantissa exponent then some above
  else none

/-- Tries grids of `digits`, `digits + 1`, ... significant digits, at most `steps` of them. -/
def search (mantissa : Nat) (exponent : Int) (leading : Int) : Nat → Nat → Decimal
  | 0, digits => (neighbours (ratio mantissa exponent).1 (ratio mantissa exponent).2
      (leading + 1 - digits)).1
  | steps + 1, digits =>
    match onGrid? mantissa exponent (leading + 1 - digits) with
    | some d => d
    | none => search mantissa exponent leading steps (digits + 1)

/-- The decimal of fewest digits that rounds to the positive double `mantissa · 2 ^ exponent`.
Seventeen digits always suffice. -/
def shortest (mantissa : Nat) (exponent : Int) : Decimal :=
  let (num, den) := ratio mantissa exponent
  search mantissa exponent (leadingPower num den) 17 1

end Decimal

end HtmlTemplate

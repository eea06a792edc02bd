/-!
# Double precision numbers, taken apart

A double is not a number, an infinity, or `±mantissa · 2 ^ exponent`. `Binary64.ofFloat` reads
these parts from the bits. `Rounding` is the interval of numbers that round to a finite double:
its ends lie halfway to the neighbours and belong to it exactly when the mantissa is even.
-/

namespace HtmlTemplate

/-- The parts of a double. -/
inductive Binary64 where
  | nan
  | infinite (negative : Bool)
  /-- The number `mantissa · 2 ^ exponent`, negated when `negative`. -/
  | finite (negative : Bool) (mantissa : Nat) (exponent : Int)
  deriving Repr, DecidableEq

namespace Binary64

/-- The parts that the 64 bits of a double encode. -/
def ofBits (bits : Nat) : Binary64 :=
  let negative := bits / Nat.pow 2 63 % 2 == 1
  let biased : Nat := bits / Nat.pow 2 52 % Nat.pow 2 11
  let fraction := bits % Nat.pow 2 52
  if biased = Nat.pow 2 11 - 1 then
    if fraction = 0 then infinite negative else nan
  else if biased = 0 then finite negative fraction (-1074)
  else finite negative (Nat.pow 2 52 + fraction) ((biased : Int) - 1075)

/-- The parts of a floating-point number. -/
def ofFloat (x : Float) : Binary64 := ofBits x.toBits.toNat

/-- Whether the number equals zero, of either sign. -/
def isZero : Binary64 → Bool
  | finite _ mantissa _ => mantissa == 0
  | _ => false

/-- Whether this is not a number. -/
def isNaN : Binary64 → Bool
  | nan => true
  | _ => false

end Binary64

/-- The numbers that round to a finite double, in quarters of its last place: the double itself is
`4 · mantissa` quarters of `2 ^ exponent`. -/
structure Rounding where
  low : Nat
  high : Nat
  /-- Whether the two ends round to the double as well. -/
  closed : Bool
  deriving Repr, DecidableEq

/-- The interval of `mantissa · 2 ^ exponent`. Below a power of two the neighbour is only half as
far away, except for the smallest normal number. -/
def Rounding.around (mantissa : Nat) (exponent : Int) : Rounding where
  low := if mantissa = Nat.pow 2 52 ∧ -1074 < exponent then 4 * mantissa - 1 else 4 * mantissa - 2
  high := 4 * mantissa + 2
  closed := mantissa % 2 == 0

end HtmlTemplate

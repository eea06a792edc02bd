import HtmlTemplate.Number.Shortest
import HtmlTemplate.Text.Basic

/-!
# Writing doubles

A `NumberFormat` holds the decisions of one number format: which magnitudes are written
positionally, how an exponent is marked, how the special values are spelled. Digits are always the
shortest ones that read back. Two formats are in use: `NumberFormat.plain`, the form that values
take in a page, and `NumberFormat.precise`, the form that keeps a float recognisable as one.
-/

namespace HtmlTemplate

/-- The decisions of a number format. `point` is the position of the decimal point relative to the
first significant digit: the number is `0.d₁d₂… · 10 ^ point`. -/
structure NumberFormat where
  /-- The least `point` written positionally. -/
  lowestPoint : Int
  /-- The greatest `point` written positionally. -/
  highestPoint : Int
  /-- Whether a whole number ends in `.0`. -/
  keepsFraction : Bool
  /-- Whether a positive exponent carries a plus sign. -/
  plusSign : Bool
  /-- Whether zero shows its sign. -/
  signedZero : Bool
  nan : Text
  infinity : Text

namespace NumberFormat

/-- The form of a number in a page: positional from `0.000001` up to twenty-one digits. -/
def plain : NumberFormat where
  lowestPoint := -5
  highestPoint := 21
  keepsFraction := false
  plusSign := true
  signedZero := false
  nan := ['N', 'a', 'N']
  infinity := ['I', 'n', 'f', 'i', 'n', 'i', 't', 'y']

/-- The form of a number in an inspection: positional from `0.0001` up to sixteen digits, whole
numbers with `.0`. -/
def precise : NumberFormat where
  lowestPoint := -3
  highestPoint := 16
  keepsFraction := true
  plusSign := false
  signedZero := true
  nan := ['N', 'a', 'N']
  infinity := ['i', 'n', 'f']

/-- Removes the zeros at the end of a digit list. -/
def trimZeros (digits : Text) : Text :=
  (digits.reverse.dropWhile (· == '0')).reverse

/-- The positional form of `0.digits · 10 ^ point`. -/
def positional (n : NumberFormat) (digits : Text) (point : Int) : Text :=
  if point ≤ 0 then ['0', '.'] ++ List.replicate (-point).toNat '0' ++ digits
  else
    let whole := digits.take point.toNat
    let fraction := digits.drop point.toNat
    let padded := whole ++ List.replicate (point.toNat - whole.length) '0'
    if fraction = [] then padded ++ (if n.keepsFraction then ['.', '0'] else [])
    else padded ++ '.' :: fraction

/-- The exponent form of `0.digits · 10 ^ point`: one digit stands before the decimal point. -/
def scientific (n : NumberFormat) (digits : Text) (point : Int) : Text :=
  let exponent := point - 1
  let sign := if n.plusSign ∧ 0 ≤ exponent then ['+'] else []
  digits.take 1 ++ (if digits.length ≤ 1 then [] else '.' :: digits.drop 1) ++
    'e' :: (sign ++ Text.ofInt exponent)

/-- The written form of a positive finite double. -/
def magnitude (n : NumberFormat) (mantissa : Nat) (exponent : Int) : Text :=
  let d := Decimal.shortest mantissa exponent
  let digits := Nat.toDigits 10 d.coefficient
  let point := digits.length + d.power
  if n.lowestPoint ≤ point ∧ point ≤ n.highestPoint then positional n (trimZeros digits) point
  else scientific n (trimZeros digits) point

/-- The written form of a double. -/
def write (n : NumberFormat) : Binary64 → Text
  | .nan => n.nan
  | .infinite negative => (if negative then ['-'] else []) ++ n.infinity
  | .finite negative mantissa exponent =>
    if mantissa = 0 then
      (if negative ∧ n.signedZero then ['-'] else []) ++
        (if n.keepsFraction then ['0', '.', '0'] else ['0'])
    else (if negative then ['-'] else []) ++ n.magnitude mantissa exponent

end NumberFormat

end HtmlTemplate

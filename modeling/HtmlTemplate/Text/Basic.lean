/-!
# Text

Markup, values and messages are lists of Unicode characters, so that every operation on them is
a plain recursion. This module holds the operations that the rest of the library shares: ASCII
character classes, splitting at a phrase, runs of white space and unsigned decimal numbers.
-/

namespace HtmlTemplate

/-- Text is a list of Unicode characters. -/
abbrev Text := List Char

namespace Text

/-- ASCII white space: tab, line feed, form feed, carriage return and space. -/
def isBlank (c : Char) : Bool :=
  c == ' ' || c == '\t' || c == '\n' || c == '\x0c' || c == '\r'

/-- The capital letters A to Z. -/
def isCapital (c : Char) : Bool := 'A' ≤ c && c ≤ 'Z'

/-- The small letters a to z. -/
def isSmall (c : Char) : Bool := 'a' ≤ c && c ≤ 'z'

/-- ASCII letters. -/
def isLetter (c : Char) : Bool := isCapital c || isSmall c

/-- ASCII decimal digits. -/
def isDigit (c : Char) : Bool := '0' ≤ c && c ≤ '9'

/-- ASCII letters and digits. -/
def isAlphanumeric (c : Char) : Bool := isLetter c || isDigit c

/-- White space in the sense of Unicode's `White_Space` property. -/
def isUnicodeBlank (c : Char) : Bool :=
  let n := c.toNat
  (9 ≤ n && n ≤ 13) || n == 0x20 || n == 0x85 || n == 0xA0 || n == 0x1680 ||
    (0x2000 ≤ n && n ≤ 0x200A) || n == 0x2028 || n == 0x2029 || n == 0x202F || n == 0x205F ||
    n == 0x3000

/-- A capital A to Z becomes its small letter; every other character stays. -/
def lowerChar (c : Char) : Char :=
  if isCapital c then Char.ofNat (c.toNat + 32) else c

/-- A small a to z becomes its capital letter; every other character stays. -/
def upperChar (c : Char) : Char :=
  if isSmall c then Char.ofNat (c.toNat - 32) else c

/-- ASCII capitals become small letters. -/
def lower (s : Text) : Text := s.map lowerChar

/-- ASCII small letters become capitals. -/
def upper (s : Text) : Text := s.map upperChar

/-- What follows `phrase` when the text starts with it. -/
def strip? : Text → Text → Option Text
  | [], s => some s
  | _ :: _, [] => none
  | p :: phrase, c :: s => if p = c then strip? phrase s else none

/-- What precedes `phrase` when the text ends with it. -/
def stripEnd? (phrase s : Text) : Option Text :=
  (strip? phrase.reverse s.reverse).map List.reverse

/-- Whether the text starts with `phrase`. -/
def startsWith (phrase s : Text) : Bool := (strip? phrase s).isSome

/-- Whether the text ends with `phrase`. -/
def endsWith (phrase s : Text) : Bool := startsWith phrase.reverse s.reverse

/-- The text before and after the first occurrence of `phrase`. -/
def cut? (phrase : Text) : Text → Option (Text × Text)
  | [] => (strip? phrase []).map fun after => ([], after)
  | c :: s =>
    match strip? phrase (c :: s) with
    | some after => some ([], after)
    | none => (cut? phrase s).map fun (before, after) => (c :: before, after)

/-- Whether `phrase` occurs in the text. -/
def contains (phrase s : Text) : Bool := (cut? phrase s).isSome

/-- Writes one space for each maximal run of blanks; `inRun` tells whether a run is open. -/
def collapseFrom : Bool → Text → Text
  | _, [] => []
  | inRun, c :: s =>
    if isBlank c then
      if inRun then collapseFrom true s else ' ' :: collapseFrom true s
    else c :: collapseFrom false s

/-- The text with each maximal run of blanks replaced by one space. -/
def collapseBlanks (s : Text) : Text := collapseFrom false s

/-- The pieces with `separator` between neighbours. -/
def join (separator : Text) : List Text → Text
  | [] => []
  | [s] => s
  | s :: rest => s ++ separator ++ join separator rest

/-! ## Unsigned decimal numbers -/

/-- The decimal digits of a number, without leading zeros. -/
def ofNat (n : Nat) : Text := Nat.toDigits 10 n

/-- The decimal digits of an integer, after a minus sign when it is negative. -/
def ofInt : Int → Text
  | .ofNat n => ofNat n
  | .negSucc n => '-' :: ofNat (n + 1)

/-- The number that decimal digits spell, most significant digit first. -/
def decimalValue (digits : Text) : Nat :=
  digits.foldl (fun n c => 10 * n + (c.toNat - '0'.toNat)) 0

/-- Slot numbers are 64-bit words. -/
def wordBound : Nat := Nat.pow 2 64

/-- The number that nonempty decimal digits spell, provided it is a 64-bit word. -/
def word? (digits : Text) : Option Nat :=
  if digits ≠ [] ∧ digits.all isDigit ∧ decimalValue digits < wordBound then
    some (decimalValue digits)
  else none

end Text

end HtmlTemplate

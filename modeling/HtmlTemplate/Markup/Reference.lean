import HtmlTemplate.Markup.Reference.Names
import HtmlTemplate.Text.Basic

/-!
# Character references

A character reference starts with an ampersand and names a character by name or by number.
`Reference` is what has been read after the ampersand, `Reference.step` reads one more character,
and `Reference.finish` ends the reference where the input ends.

A named reference is the longest name of the table that starts the letters and digits after the
ampersand. Inside an attribute value a name without a semicolon counts only when neither a letter,
a digit nor an equals sign follows it. What is no reference stays as it is written.
-/

namespace HtmlTemplate

/-- How far a character reference has been read. -/
inductive Reference where
  /-- Letters and digits after the ampersand. -/
  | named (run : Text)
  /-- Number sign after the ampersand. -/
  | hash
  /-- The letter that announces a hexadecimal number, as written. -/
  | hexMark (mark : Char)
  | hex (value : Nat)
  | decimal (value : Nat)
  deriving Repr, DecidableEq

namespace Reference

/-- The reference right after its ampersand. -/
def start : Reference := named []

/-- The value of a hexadecimal digit. -/
def hexDigit? (c : Char) : Option Nat :=
  if Text.isDigit c then some (c.toNat - 48)
  else if 'a' ≤ c ∧ c ≤ 'f' then some (c.toNat - 87)
  else if 'A' ≤ c ∧ c ≤ 'F' then some (c.toNat - 55)
  else none

/-- The character that stands for anything that is none. -/
def replacement : Char := Char.ofNat 0xFFFD

/-- The characters that the numbers 128 to 159 stand for, where they differ from Unicode's. -/
def westernCodes : List (Nat × Nat) :=
  [(0x80, 0x20AC), (0x82, 0x201A), (0x83, 0x0192), (0x84, 0x201E), (0x85, 0x2026),
   (0x86, 0x2020), (0x87, 0x2021), (0x88, 0x02C6), (0x89, 0x2030), (0x8A, 0x0160),
   (0x8B, 0x2039), (0x8C, 0x0152), (0x8E, 0x017D), (0x91, 0x2018), (0x92, 0x2019),
   (0x93, 0x201C), (0x94, 0x201D), (0x95, 0x2022), (0x96, 0x2013), (0x97, 0x2014),
   (0x98, 0x02DC), (0x99, 0x2122), (0x9A, 0x0161), (0x9B, 0x203A), (0x9C, 0x0153),
   (0x9E, 0x017E), (0x9F, 0x0178)]

/-- The character that a number stands for. -/
def numbered (n : Nat) : Char :=
  if n = 0 ∨ 0x10FFFF < n ∨ (0xD800 ≤ n ∧ n ≤ 0xDFFF) then replacement
  else Char.ofNat ((westernCodes.lookup n).getD n)

/-- The longest of the first `n` beginnings of `run` that is a name, with what it stands for and
what remains of the run. -/
def longestName? (run : Text) : Nat → Option (Text × Text)
  | 0 => none
  | n + 1 =>
    match NamedReference.lookup? (run.take (n + 1)) with
    | some text => some (text, run.drop (n + 1))
    | none => longestName? run n

/-- The text of a reference whose letters and digits end without a semicolon; `next` is the
character after them, if there is one. -/
def unterminated (inAttribute : Bool) (run : Text) (next : Option Char) : Text :=
  if inAttribute then
    if next = some '=' then '&' :: run
    else (NamedReference.lookup? run).getD ('&' :: run)
  else
    match longestName? run run.length with
    | some (text, rest) => text ++ rest
    | none => '&' :: run

/-- The reading of one character of a reference. -/
inductive Outcome where
  /-- The reference goes on. -/
  | more (reference : Reference)
  /-- The reference is complete and includes the character. -/
  | done (text : Text)
  /-- The reference ended before the character, which is still to be read. -/
  | before (text : Text)
  deriving Repr, DecidableEq

/-- Reads one character of a reference. -/
def step (inAttribute : Bool) (reference : Reference) (c : Char) : Outcome :=
  match reference with
  | named run =>
    if run = [] ∧ c = '#' then .more hash
    else if Text.isAlphanumeric c then .more (named (run ++ [c]))
    else if c = ';' then
      match NamedReference.lookup? (run ++ [';']) with
      | some text => .done text
      | none => .before (unterminated inAttribute run (some c))
    else .before (unterminated inAttribute run (some c))
  | hash =>
    if c = 'x' ∨ c = 'X' then .more (hexMark c)
    else if Text.isDigit c then .more (decimal (c.toNat - 48))
    else .before ['&', '#']
  | hexMark mark =>
    match hexDigit? c with
    | some d => .more (hex d)
    | none => .before ['&', '#', mark]
  | hex value =>
    match hexDigit? c with
    | some d => .more (hex (16 * value + d))
    | none => if c = ';' then .done [numbered value] else .before [numbered value]
  | decimal value =>
    if Text.isDigit c then .more (decimal (10 * value + (c.toNat - 48)))
    else if c = ';' then .done [numbered value]
    else .before [numbered value]

/-- The text of a reference at the end of the input. -/
def finish (inAttribute : Bool) : Reference → Text
  | named run => unterminated inAttribute run none
  | hash => ['&', '#']
  | hexMark mark => ['&', '#', mark]
  | hex value => [numbered value]
  | decimal value => [numbered value]

end Reference

end HtmlTemplate

import HtmlTemplate.Text.Basic
import HtmlTemplate.Text.Category

/-!
# Quoted text

Text between quotation marks, in a form that shows every character: quotation marks and
backslashes are escaped, line ends and tabs have a letter, and characters that a reader could not
see are spelled by number. `quoteBytes` does the same for the UTF-8 bytes of a text.
-/

namespace HtmlTemplate

namespace Text

/-- A character by its hexadecimal number. -/
def spelled (c : Char) : Text :=
  ['\\', 'u', '\x7b'] ++ Nat.toDigits 16 c.toNat ++ ['\x7d']

/-- One character inside quotation marks. -/
def quoteChar (c : Char) : Text :=
  if c = '"' then ['\\', '"']
  else if c = '\\' then ['\\', '\\']
  else if c = '\n' then ['\\', 'n']
  else if c = '\r' then ['\\', 'r']
  else if c = '\t' then ['\\', 't']
  else if c.toNat = 0 then ['\\', '0']
  else if c.toNat < 0x7F ∧ 0x20 ≤ c.toNat then [c]
  else if Category.covers Category.extending c.toNat then spelled c
  else if Category.covers Category.unprintable c.toNat then spelled c
  else [c]

/-- The text between quotation marks. -/
def quote (s : Text) : Text := '"' :: (s.flatMap quoteChar ++ ['"'])

/-- A number below 256 as two hexadecimal digits. -/
def hexByte (n : Nat) : Text := [Nat.digitChar (n / 16), Nat.digitChar (n % 16)]

/-- One byte inside quotation marks. -/
def quoteByte (b : UInt8) : Text :=
  let c := Char.ofNat b.toNat
  if c = '"' then ['\\', '"']
  else if c = '\\' then ['\\', '\\']
  else if c = '\n' then ['\\', 'n']
  else if c = '\r' then ['\\', 'r']
  else if c = '\t' then ['\\', 't']
  else if c.toNat = 0 then ['\\', '0']
  else if c.toNat < 0x7F ∧ 0x20 ≤ c.toNat then [c]
  else ['\\', 'x'] ++ hexByte b.toNat

/-- The UTF-8 bytes of the text between quotation marks, marked as bytes. -/
def quoteBytes (s : Text) : Text :=
  ['b', '"'] ++ (String.ofList s).toUTF8.toList.flatMap quoteByte ++ ['"']

end Text

end HtmlTemplate

import HtmlTemplate.Text.Escape
import HtmlTemplate.Value.Text

/-!
# Style declarations

An object in a `style` slot is a list of declarations. Names of properties may be written in one
word with capitals, and a number is a length in pixels unless the property is known to take plain
numbers.
-/

namespace HtmlTemplate

namespace Style

/-- Writes each run of capitals in small letters after a hyphen; `inRun` when a capital precedes. -/
def humps : Bool → Text → Text
  | _, [] => []
  | inRun, c :: s =>
    if Text.isCapital c then
      if inRun then Text.lowerChar c :: humps true s else '-' :: Text.lowerChar c :: humps true s
    else c :: humps false s

/-- The name of a property as a declaration has it: each run of capitals, except one that starts the
name, is written in small letters after a hyphen. -/
def hyphenate (key : Text) : Text :=
  key.takeWhile Text.isCapital ++ humps false (key.dropWhile Text.isCapital)

/-- A character without its case. The long s is an s. -/
def fold (c : Char) : Char := if c = 'ſ' then 's' else Text.lowerChar c

/-- Phrases that only properties with plain numbers contain. -/
def unitlessPhrases : List Text :=
  ["acit", "exs", "exg", "exn", "exp", "rph", "ows", "mnc", "ntw", "inec", "ineh", "zoo"].map
    String.toList

/-- Whether a property takes plain numbers: by a phrase in its name, or by how the name starts or
ends. -/
def isUnitless (key : Text) : Bool :=
  let name := key.map fold
  unitlessPhrases.any (Text.contains · name) || Text.endsWith ['e', 'x'] name ||
    Text.startsWith ['o', 'r', 'd'] name

/-- The value of a declaration. -/
def declared (key : Text) (value : Value) : Noted Text := do
  let text ← value.text
  pure (if value.isNumber && !isUnitless key then text ++ ['p', 'x'] else text)

/-- The declarations of an object, in order. -/
def declarations : List (Text × Value) → Noted Text
  | [] => pure []
  | (key, value) :: rest => do
    let text ← declared key value
    let others ← declarations rest
    pure (hyphenate key ++ ':' :: text ++ ';' :: others)

/-- What a value is in a `style` slot. -/
def write : Value → Noted Text
  | .object entries => do
    let css ← declarations entries
    pure (Text.escape css)
  | value => do
    let text ← value.text
    pure (Text.escape text)

end Style

end HtmlTemplate

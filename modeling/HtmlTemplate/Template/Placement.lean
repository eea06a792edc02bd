import HtmlTemplate.Markup.Vocabulary
import HtmlTemplate.Template.Marker

/-!
# Where slots fall

A skeleton is a list of segments with a slot between neighbours. Before it can be read as markup,
every slot is held open by a marker of the right form, so the place of each boundary must be known
first. `Scan` follows the segments just closely enough to tell content from attribute values, and
`Sentinel.join` writes the segments with the markers between them.

A marker that follows an equals sign directly is quoted, so that the three ways of writing a
slotted attribute give the same markup.
-/

namespace HtmlTemplate

/-- The kind of place that a boundary can fall in. -/
inductive Place where
  | content
  | comment
  /-- The text of an element that holds no tags. -/
  | rawText (element : Text)
  | tagName
  /-- Inside a tag, outside its name and its attribute values. -/
  | tag
  /-- After an equals sign in a tag. -/
  | beforeValue
  | quoted (mark : Char)
  | unquoted
  deriving Repr, DecidableEq

/-- How far the segments have been followed. -/
structure Scan where
  place : Place
  /-- The name of the last tag, in small letters. -/
  name : Text
  /-- Whether the last tag is an end tag. -/
  closing : Bool
  /-- How many of the next characters belong to what was just recognised. -/
  skip : Nat
  deriving Repr, DecidableEq

namespace Scan

/-- Before the first segment. -/
def start : Scan := ⟨.content, [], false, 0⟩

/-- The beginning of a tag. -/
def startTag (scan : Scan) (closing : Bool) (skip : Nat) : Scan :=
  { scan with place := .tagName, name := [], closing := closing, skip := skip }

/-- The end of a tag: what follows is raw text or ordinary content. -/
def finishTag (scan : Scan) : Scan :=
  if !scan.closing && Vocabulary.isRawText scan.name then { scan with place := .rawText scan.name }
  else { scan with place := .content }

/-- Whether a text starts with a letter. -/
def startsWithLetter : Text → Bool
  | c :: _ => Text.isLetter c
  | [] => false

/-- One character of content; `rest` is what follows it in the segment. -/
def stepContent (scan : Scan) (c : Char) (rest : Text) : Scan :=
  if c ≠ '<' then scan
  else if Text.startsWith ['!', '-', '-'] rest then { scan with place := .comment, skip := 3 }
  else
    match rest with
    | '/' :: after => if startsWithLetter after then scan.startTag true 1 else scan
    | _ => if startsWithLetter rest then scan.startTag false 0 else scan

/-- One character inside a tag. -/
def stepTag (scan : Scan) (c : Char) : Scan :=
  if c = '=' then { scan with place := .beforeValue }
  else if c = '>' then scan.finishTag
  else { scan with place := .tag }

/-- Whether a character belongs to the name of a tag. -/
def isNameCharacter (c : Char) : Bool :=
  Text.isAlphanumeric c || c == '-' || c == ':' || c == '_'

/-- Reads one character; `rest` is what follows it in the segment. -/
def step (scan : Scan) (c : Char) (rest : Text) : Scan :=
  match scan.place with
  | .content => scan.stepContent c rest
  | .comment =>
    if c = '-' ∧ Text.startsWith ['-', '>'] rest then { scan with place := .content, skip := 2 }
    else scan
  | .rawText element =>
    if c = '<' ∧ Text.startsWith ('/' :: element) (Text.lower (rest.take (element.length + 1))) then
      scan.startTag true 1
    else scan
  | .tagName =>
    if isNameCharacter c then { scan with name := scan.name ++ [Text.lowerChar c] }
    else scan.stepTag c
  | .tag => scan.stepTag c
  | .beforeValue =>
    if c = '"' ∨ c = '\'' then { scan with place := .quoted c }
    else if c = '>' then scan.finishTag
    else if Text.isBlank c then scan
    else { scan with place := .unquoted }
  | .quoted mark => if c = mark then { scan with place := .tag } else scan
  | .unquoted =>
    if c = '>' then scan.finishTag
    else if Text.isBlank c then { scan with place := .tag }
    else scan

/-- Reads a segment. -/
def feed : Scan → Text → Scan
  | scan, [] => scan
  | scan, c :: rest =>
    if scan.skip = 0 then (scan.step c rest).feed rest
    else { scan with skip := scan.skip - 1 }.feed rest

end Scan

namespace Sentinel

/-- Whether a slot after a segment of content would become the name of a tag. -/
def opensTag (segment : Text) : Bool :=
  Text.endsWith ['<'] segment || Text.endsWith ['<', '/'] segment

/-- The marker of a slot after a segment, and the place after it. -/
def hold (s : Sentinel) (scan : Scan) (slot : Nat) (segment : Text) : Text × Scan :=
  let marker := s.attributeMarker slot
  match scan.place with
  | .beforeValue => ('"' :: marker ++ ['"'], { scan with place := .tag })
  | .quoted _ => (marker, scan)
  | .unquoted => (marker, scan)
  | .tagName => (marker, { scan with place := .tag })
  | .tag => (marker, scan)
  | .content =>
    if opensTag segment then
      (marker, { scan.startTag (Text.endsWith ['<', '/'] segment) 0 with place := .tag })
    else (s.commentMarker slot, scan)
  | .comment => (s.commentMarker slot, scan)
  | .rawText _ => (s.commentMarker slot, scan)

/-- Joins segments from a slot number on. -/
def joinFrom (s : Sentinel) (scan : Scan) (slot : Nat) : List Text → Text
  | [] => []
  | [segment] => segment
  | segment :: next :: rest =>
    let (marker, scan) := s.hold (scan.feed segment) slot segment
    segment ++ marker ++ s.joinFrom scan (slot + 1) (next :: rest)

/-- The segments with a marker for each slot between them. -/
def join (s : Sentinel) (segments : List Text) : Text := s.joinFrom Scan.start 0 segments

end Sentinel

end HtmlTemplate

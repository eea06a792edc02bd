import HtmlTemplate.Markup.Event
import HtmlTemplate.Markup.Vocabulary
import HtmlTemplate.Options
import HtmlTemplate.Template.Marker
import HtmlTemplate.Text.Escape

/-!
# Drafts

A draft is a template in the making: the chunks and slots found so far, and the elements that are
open. It takes the events of the joined skeleton one by one. Every marker it meets ends a chunk and
adds a slot, whose number must be the next one; all other markup is written again in one form, with
double quotes and with references for the characters that need them.

The attributes of a tag that hold a slot are written after the others, in the order of their slots.
-/

namespace HtmlTemplate

/-- A template in the making. -/
structure Draft where
  /-- The chunk that is being written. -/
  current : Text
  /-- The complete chunks, in order. -/
  chunks : List Text
  slots : List SlotKind
  /-- The open elements, the innermost first. -/
  openElements : List Text
  /-- Whether a character data section is open. -/
  inSection : Bool
  notes : List Note

/-- The end of a draft by an error, with the notes made before it. -/
structure Draft.Failure where
  error : CompileError
  notes : List Note

namespace Draft

/-- The draft before the first event. -/
def empty : Draft := ⟨[], [], [], [], false, []⟩

/-- Adds markup to the chunk that is being written. -/
def write (d : Draft) (s : Text) : Draft := { d with current := d.current ++ s }

/-- Ends the draft. -/
def fail {α : Type} (d : Draft) (error : CompileError) : Except Failure α := .error ⟨error, d.notes⟩

/-- Ends the chunk and adds a slot, which must be the next one. -/
def pushSlot (d : Draft) (slot : Nat) (kind : SlotKind) : Except Failure Draft :=
  if slot = d.slots.length then
    .ok { d with
      current := []
      chunks := d.chunks ++ [d.current]
      slots := d.slots ++ [kind]
      notes := d.notes ++ [.classified slot kind] }
  else d.fail (.slotOutOfOrder d.slots.length slot)

/-! ## Tags -/

/-- The kind of a slot that is the value of an attribute. -/
def attributeKind (options : Options) (name : Text) : SlotKind :=
  if Vocabulary.isEventAttribute name then .event
  else if Vocabulary.isBooleanAttribute name then .boolean name
  else if Vocabulary.isStyleAttribute name then .style
  else if options.isIntent name then .intent name
  else .generic

/-- An attribute up to its value. -/
def attributeOpening (name : Text) : Text := ' ' :: name ++ ['=', '"']

/-- Adds an attribute whose value is a slot. A boolean one is left to the slot altogether. -/
def pushAttribute (options : Options) (d : Draft) (slot : Nat) (name : Text) :
    Except Failure Draft :=
  match attributeKind options name with
  | .boolean name => d.pushSlot slot (.boolean name)
  | kind => do
    let d ← (d.write (attributeOpening name)).pushSlot slot kind
    pure (d.write ['"'])

/-- Adds attributes whose values are slots. -/
def pushAttributes (options : Options) (d : Draft) : List (Nat × Text) → Except Failure Draft
  | [] => pure d
  | (slot, name) :: rest => do
    let d ← pushAttribute options d slot name
    pushAttributes options d rest

/-- A literal attribute as it is written. -/
def literalAttribute (a : Attribute) : Text :=
  if a.value = [] ∧ Vocabulary.isBareAttribute a.name then ' ' :: a.name
  else attributeOpening a.name ++ Text.escape a.value ++ ['"']

/-- Inserts a slotted attribute in the order of slots, before equal ones. -/
def insertSlotted (entry : Nat × Text) : List (Nat × Text) → List (Nat × Text)
  | [] => [entry]
  | first :: rest =>
    if entry.1 ≤ first.1 then entry :: first :: rest else first :: insertSlotted entry rest

/-- Writes the literal attributes and collects the slotted ones in the order of their slots. -/
def writeLiterals (s : Sentinel) (d : Draft) :
    List Attribute → Except Failure (Draft × List (Nat × Text))
  | [] => pure (d, [])
  | a :: rest =>
    match s.firstSlotIn? a.name with
    | some slot => d.fail (.slotInName slot)
    | none =>
      match s.slotOf? a.value, s.firstSlotIn? a.value with
      | some slot, _ => do
        let (d, slotted) ← writeLiterals s d rest
        pure (d, insertSlotted (slot, a.name) slotted)
      | none, some slot => d.fail (.partialAttribute a.name slot)
      | none, none => writeLiterals s (d.write (literalAttribute a)) rest

/-- A start tag. -/
def openTag (s : Sentinel) (options : Options) (d : Draft) (name : Text)
    (attributes : List Attribute) : Except Failure Draft :=
  match s.firstSlotIn? name with
  | some slot => d.fail (.slotInName slot)
  | none => do
    let (d, slotted) ← writeLiterals s (d.write ('<' :: name)) attributes
    let d ← pushAttributes options d slotted
    let d := d.write ['>']
    pure (if Vocabulary.isVoid name then d else { d with openElements := name :: d.openElements })

/-- What remains open after an end tag: it closes the innermost element of its name and all inside
it, or nothing. -/
def closeElement (name : Text) (openElements : List Text) : List Text :=
  if openElements.contains name then (openElements.dropWhile (· != name)).drop 1
  else openElements

/-- An end tag. Elements without content have none in the template. -/
def closeTag (s : Sentinel) (d : Draft) (name : Text) : Except Failure Draft :=
  match s.firstSlotIn? name with
  | some slot => d.fail (.slotInName slot)
  | none =>
    if Vocabulary.isVoid name then pure d
    else
      let d := d.write (['<', '/'] ++ name ++ ['>'])
      pure { d with openElements := closeElement name d.openElements }

/-! ## Text -/

/-- Whether the innermost element has the given name. -/
def isInside (d : Draft) (name : Text) : Bool := d.openElements.head? == some name

/-- Whether text is written as it is. -/
def keepsText (d : Draft) : Bool :=
  d.inSection || d.isInside Vocabulary.script || d.isInside Vocabulary.style

/-- Whether text keeps its white space. -/
def keepsBlanks (d : Draft) : Bool := d.inSection || d.openElements.any Vocabulary.isPreformatted

/-- Literal text as it is written. -/
def literalText (options : Options) (d : Draft) (s : Text) : Text :=
  if d.keepsText then s
  else if options.collapse && !d.keepsBlanks then Text.escapeText (Text.collapseBlanks s)
  else Text.escapeText s

/-- Writes a text through a minifier; when it fails the text stays. -/
def minify (d : Draft) (minifier : Minifier) (language : Text) (s : Text) : Draft :=
  match minifier s with
  | .ok short => d.write short
  | .error reason => { d.write s with notes := d.notes ++ [.minifierFailed language reason] }

/-- Literal text without slots. -/
def plainText (options : Options) (d : Draft) (s : Text) : Draft :=
  if !d.inSection && d.isInside Vocabulary.script then
    d.minify options.minifyScript Vocabulary.script s
  else if !d.inSection && d.isInside Vocabulary.style then
    d.minify options.minifyStyle "css".toList s
  else d.write (literalText options d s)

/-- The pieces of a text with slots; it is never minified. -/
def pieces (options : Options) (d : Draft) : List Sentinel.Piece → Except Failure Draft
  | [] => pure d
  | .literal s :: rest => pieces options (d.write (literalText options d s)) rest
  | .slot slot :: rest => do
    let d ← d.pushSlot slot .content
    pieces options d rest

/-- A text. -/
def text (s : Sentinel) (options : Options) (d : Draft) (content : Text) : Except Failure Draft :=
  match s.split content with
  | [_] => pure (plainText options d content)
  | parts => pieces options d parts

/-! ## Other events -/

/-- A comment. -/
def comment (s : Sentinel) (d : Draft) (data : Text) : Except Failure Draft :=
  match s.slotOf? data, s.firstSlotIn? data with
  | some slot, _ => d.pushSlot slot .content
  | none, some slot => d.fail (.slotInComment slot)
  | none, none => pure (d.write (['<', '!', '-', '-'] ++ data ++ ['-', '-', '>']))

/-- Takes one event. -/
def take (s : Sentinel) (options : Options) (d : Draft) : Event → Except Failure Draft
  | .openTag name attributes => openTag s options d name attributes
  | .closeTag name => closeTag s d name
  | .text content => text s options d content
  | .comment data => comment s d data
  | .sectionStart => pure { d.write ('<' :: '!' :: Event.sectionOpening) with inSection := true }
  | .sectionEnd => pure { d.write [']', ']', '>'] with inSection := false }
  | .instruction _ data => pure (d.write ('<' :: data ++ ['>']))
  | .doctype name => pure (d.write ("<!DOCTYPE ".toList ++ name ++ ['>']))
  | .endOfInput => pure { d with current := [], chunks := d.chunks ++ [d.current] }

/-- Takes events in order, up to the first error. -/
def takeAll (s : Sentinel) (options : Options) (d : Draft) : List Event → Except Failure Draft
  | [] => pure d
  | event :: rest => do
    let d ← take s options d event
    takeAll s options d rest

end Draft

end HtmlTemplate

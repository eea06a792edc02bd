import HtmlTemplate.Markup.Tokenizer

/-!
# Events

What a reader of markup is told, in document order. Adjacent characters form one text, a tag that
closes itself is followed by its end tag, and two constructs that the tokenizer knows only as
comments have events of their own: character data sections and processing instructions.

`EventSource` is anything that turns markup into events; `Event.source` is the library's own.
-/

namespace HtmlTemplate

/-- What a reader of markup is told. -/
inductive Event where
  | openTag (name : Text) (attributes : List Attribute)
  | closeTag (name : Text)
  | text (text : Text)
  | comment (data : Text)
  /-- The start of a character data section. -/
  | sectionStart
  /-- The end of a character data section. -/
  | sectionEnd
  /-- A processing instruction; `data` is all that stands between `<` and `>`. -/
  | instruction (name : Text) (data : Text)
  | doctype (name : Text)
  | endOfInput
  deriving Repr, DecidableEq

namespace Event

/-- The opening of a character data section, without the comment's own. -/
def sectionOpening : Text := ['[', 'C', 'D', 'A', 'T', 'A', '[']

/-- The text of a character data section, if a comment is one. -/
def sectionText? (data : Text) : Option Text :=
  (Text.strip? sectionOpening data).bind (Text.stripEnd? [']', ']'])

/-- The events of a comment. -/
def ofComment (data : Text) : List Event :=
  match sectionText? data with
  | some [] => [sectionStart, sectionEnd]
  | some (c :: s) => [sectionStart, text (c :: s), sectionEnd]
  | none =>
    match data with
    | '?' :: rest => [instruction (rest.takeWhile fun c => !(Text.isBlank c || c == '?')) data]
    | _ => [comment data]

/-- The events of a tag, comment or document type. -/
def ofMark : Token → List Event
  | .character c => [text [c]]
  | .startTag name attributes selfClosing =>
    openTag name attributes :: (if selfClosing then [closeTag name] else [])
  | .endTag name => [closeTag name]
  | .comment data => ofComment data
  | .doctype name => [doctype name]

/-- The events of tokens; adjacent characters form one text. -/
def ofTokens : List Token → List Event
  | [] => []
  | .character c :: .character d :: rest =>
    match ofTokens (.character d :: rest) with
    | text s :: events => text (c :: s) :: events
    | events => text [c] :: events
  | token :: rest => ofMark token ++ ofTokens rest

/-- The events of a markup text. -/
def read (markup : Text) : List Event := ofTokens (Token.read markup) ++ [endOfInput]

end Event

/-- The report of an event source: the events in order and, if it gave up after them, why. -/
structure EventReport where
  events : List Event
  failure : Option Text
  deriving Repr, DecidableEq

/-- Anything that turns markup into events. -/
abbrev EventSource := Text → EventReport

/-- The library's own source, which never gives up. -/
def Event.source : EventSource := fun markup => ⟨Event.read markup, none⟩

end HtmlTemplate

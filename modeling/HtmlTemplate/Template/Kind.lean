import HtmlTemplate.Text.Basic

/-!
# Slot kinds

What the place of a slot in the markup means for the value that will stand there.
-/

namespace HtmlTemplate

/-- What a slot means. -/
inductive SlotKind where
  /-- The value of an event attribute: an event handler. -/
  | event
  /-- An attribute that is written, with a space before it, only when the value is true. -/
  | boolean (name : Text)
  /-- The value of a `style` attribute: text or declarations. -/
  | style
  /-- The value of an attribute with a registered transformation. -/
  | intent (name : Text)
  /-- The value of any other attribute. -/
  | generic
  /-- Content of an element. -/
  | content
  deriving Repr, DecidableEq

namespace SlotKind

/-- The description of a kind for a reader. -/
def describe : SlotKind → Text
  | event => "event".toList
  | boolean name => "boolean attribute `".toList ++ name ++ ['`']
  | style => "style".toList
  | intent name => "attribute intent `".toList ++ name ++ ['`']
  | generic => "attribute".toList
  | content => "content".toList

/-- Whether slots of the kind stand in content. -/
def isContent : SlotKind → Bool
  | content => true
  | _ => false

end SlotKind

end HtmlTemplate

import HtmlTemplate.Inspect.Form
import HtmlTemplate.Markup.Token
import HtmlTemplate.Template.Basic
import HtmlTemplate.Template.Error

/-!
# Inspecting templates

Slot kinds, templates, attributes, and the errors of compiling and rendering.
-/

namespace HtmlTemplate

/-- The inspection of a slot kind. -/
def SlotKind.inspect : SlotKind → Text
  | event => "Event".toList
  | boolean name => Inspect.tuple "BooleanAttribute" [Text.quote name]
  | style => "Style".toList
  | intent name => Inspect.tuple "AttributeIntent" [Text.quote name]
  | generic => "GenericAttribute".toList
  | content => "Content".toList

/-- The inspection of a template. -/
def Template.inspect (template : Template) : Text :=
  Inspect.fields "CompiledTemplate"
    [("chunks", Inspect.sequence (template.chunks.map Text.quote)),
      ("slots", Inspect.sequence (template.slots.map SlotKind.inspect))]

/-- The inspection of an attribute. -/
def Attribute.inspect (a : Attribute) : Text :=
  Inspect.fields "Attribute" [("name", Text.quote a.name), ("value", Text.quote a.value)]

/-- The inspection of a compile error. -/
def CompileError.inspect : CompileError → Text
  | unreadable reason => Inspect.tuple "Tokenize" [Text.quote reason]
  | slotInName slot => Inspect.fields "SlotInTagName" [("slot", Text.ofNat slot)]
  | partialAttribute name slot =>
    Inspect.fields "PartialAttribute" [("attribute", Text.quote name), ("slot", Text.ofNat slot)]
  | slotInComment slot => Inspect.fields "SlotInComment" [("slot", Text.ofNat slot)]
  | slotOutOfOrder expected found =>
    Inspect.fields "SlotOutOfOrder"
      [("expected", Text.ofNat expected), ("found", Text.ofNat found)]
  | missingSlots expected found =>
    Inspect.fields "MissingSlots" [("expected", Text.ofNat expected), ("found", Text.ofNat found)]

/-- The inspection of a render error. -/
def RenderError.inspect : RenderError → Text
  | compile cause => Inspect.tuple "Compile" [cause.inspect]
  | slotCount expected got =>
    Inspect.fields "SlotCountMismatch" [("expected", Text.ofNat expected), ("got", Text.ofNat got)]
  | rejected slot reason =>
    Inspect.fields "Rejected" [("slot", Text.ofNat slot), ("source", Text.quote reason)]
  | intent name reason =>
    Inspect.fields "Intent" [("attribute", Text.quote name), ("source", Text.quote reason)]

end HtmlTemplate

import HtmlTemplate.Template.Kind

/-!
# Templates

A template is what a skeleton is compiled to: literal chunks of markup with a classified slot
between neighbours. There is always exactly one more chunk than there are slots.
-/

namespace HtmlTemplate

/-- Literal chunks and the slots between them. -/
structure Template where
  chunks : List Text
  slots : List SlotKind
  parity : chunks.length = slots.length + 1
  deriving DecidableEq

namespace Template

/-- The template of chunks and slots, if their numbers fit. -/
def ofParts? (chunks : List Text) (slots : List SlotKind) : Option Template :=
  if parity : chunks.length = slots.length + 1 then some ⟨chunks, slots, parity⟩ else none

/-- The number of slots. -/
def slotCount (template : Template) : Nat := template.slots.length

end Template

end HtmlTemplate

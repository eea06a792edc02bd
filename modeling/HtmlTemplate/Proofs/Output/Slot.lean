import HtmlTemplate.Output.Slot
import HtmlTemplate.Proofs.Timeline

/-!
# Slots without markers

A host that wants no markers gets from a slot what its value alone makes of it: nothing is drawn
from the timeline, and what is noted on the way is all that writing leaves behind.
-/

namespace HtmlTemplate

variable {options : Options}

namespace Slot

/-- What a value is in a slot of a kind, for a host that wants no markers. -/
def written (options : Options) (kind : SlotKind) (value : Value) :
    Noted (Except RenderError Text) :=
  match kind with
  | .event => Noted.map .ok (event value)
  | .boolean name => pure (.ok (if isOn value then ' ' :: name else []))
  | .style => Noted.map .ok (Style.write value)
  | .intent name => intent options name value
  | .generic => Noted.map .ok (escaped value)
  | .content => Noted.map .ok (Content.write options value)

theorem marker_of_not_adoptable (h : options.adoptable = false) (line : Timeline) :
    marker options line = ([], line) := by
  unfold marker
  rw [h]
  rfl

/-- Without markers, writing a slot only enters its notes. -/
theorem write_eq_record (h : options.adoptable = false) (kind : SlotKind) (value : Value)
    (line : Timeline) :
    write options kind value line = Live.record (written options kind value) line := by
  cases kind with
  | boolean name => exact (Live.record_silent _ line).symm
  | content =>
    simp only [write, content, Live.bind_apply, Live.pure_apply, marker_of_not_adoptable h,
      List.nil_append, List.append_nil]
    rfl
  | _ => rfl

/-- Outside content, writing a slot only enters its notes. -/
theorem write_of_ne_content {kind : SlotKind} (other : kind ≠ .content) (value : Value)
    (line : Timeline) :
    write options kind value line = Live.record (written options kind value) line := by
  cases kind with
  | content => exact absurd rfl other
  | boolean name => exact (Live.record_silent _ line).symm
  | _ => rfl

/-! ## The clock -/

theorem later_marker (options : Options) (line : Timeline) :
    line.Later (marker options line).2 := by
  unfold marker
  split
  · exact .refl line
  · exact .refl line

theorem later_content (options : Options) (value : Value) (line : Timeline) :
    line.Later (content options value line).2 :=
  (later_marker options line).trans (Live.later_record (Content.write options value) _)

/-- Writing a slot takes no time, with markers or without. -/
theorem later_write (options : Options) (kind : SlotKind) (value : Value) (line : Timeline) :
    line.Later (write options kind value line).2 := by
  cases kind with
  | content => exact later_content options value line
  | boolean name => exact .refl line
  | _ => exact Live.later_record _ line

end Slot

end HtmlTemplate

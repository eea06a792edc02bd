import HtmlTemplate.Output.Content
import HtmlTemplate.Output.Style
import HtmlTemplate.Timeline
import HtmlTemplate.Value.Handler

/-!
# Writing a slot

What a value becomes in a slot depends on the kind of the slot. Attribute values are escaped exactly
once. Content is written by `Content.write` and, when the host wants to find it again in the page,
stands between two copies of a marker that is drawn for this slot alone.
-/

namespace HtmlTemplate

namespace Slot

/-! ## Markers -/

/-- The digits of a number to base 36, in small letters. -/
def base36Digits : Nat → Nat → Text → Text
  | 0, _, digits => digits
  | fuel + 1, n, digits =>
    let digit := n % 36
    let digits := Char.ofNat (if digit < 10 then 48 + digit else 87 + digit) :: digits
    if n / 36 = 0 then digits else base36Digits fuel (n / 36) digits

/-- A number to base 36. It has no more digits than its value plus one. -/
def base36 (n : Nat) : Text := base36Digits (n + 1) n []

/-- The marker with a number. -/
def markerText (n : Nat) : Text :=
  ['<', '!', '-', '-', '\x01', ':'] ++ base36 n ++ ['-', '-', '>']

/-- Draws a new marker, or none when the host wants no markers. -/
def marker (options : Options) : Live Text := fun line =>
  if options.adoptable then
    (markerText (line.markers + 1), { line with markers := line.markers + 1 })
  else ([], line)

/-! ## The kinds of slots -/

/-- The call of a handler, given its escaped source. -/
def handlerCall (source : Text) : Text :=
  "return (".toList ++ source ++ ").call(this, event)".toList

/-- What a value is in an event attribute: a handler is called in place, and only plain values have
a text there. -/
def event : Value → Noted Text
  | .handler source => pure (handlerCall (Text.escape (Handler.normalize source)))
  | .object _ => pure []
  | .array _ => pure []
  | .html _ => pure []
  | .component .. => pure []
  | .resolves .. => pure []
  | .rejects .. => pure []
  | .never => pure []
  | .placeholder .. => pure []
  | .deferred .. => pure []
  | value =>
    if value.isFalsy then pure []
    else do
      let text ← value.text
      pure (Text.escape text)

/-- Whether a boolean attribute is written. -/
def isOn : Value → Bool
  | .bool b => b
  | .str s => s == ['t', 'r', 'u', 'e']
  | _ => false

/-- The escaped text of a value. -/
def escaped (value : Value) : Noted Text := do
  let text ← value.text
  pure (Text.escape text)

/-- What a value is in an attribute with a transformation. Without one in the options, the value is
written as in any other attribute. -/
def intent (options : Options) (name : Text) (value : Value) : Noted (Except RenderError Text) :=
  match Entries.get? name options.intents with
  | none => Noted.map .ok (escaped value)
  | some transform => do
    .note (.intended name)
    match ← transform none value with
    | .error reason => pure (.error (.intent name reason))
    | .ok .null => pure (.ok [])
    | .ok result => Noted.map .ok (escaped result)

/-- What a value is in content: its markup between two copies of a new marker. -/
def content (options : Options) (value : Value) : Live Text := do
  let marker ← marker options
  let body ← Live.record (Content.write options value)
  pure (marker ++ body ++ marker)

/-- Writes a value for a slot of a kind. -/
def write (options : Options) (kind : SlotKind) (value : Value) : Live (Except RenderError Text) :=
  match kind with
  | .event => Live.record (Noted.map .ok (event value))
  | .boolean name => pure (.ok (if isOn value then ' ' :: name else []))
  | .style => Live.record (Noted.map .ok (Style.write value))
  | .intent name => Live.record (intent options name value)
  | .generic => Live.record (Noted.map .ok (escaped value))
  | .content => do
    let text ← content options value
    pure (.ok text)

end Slot

end HtmlTemplate

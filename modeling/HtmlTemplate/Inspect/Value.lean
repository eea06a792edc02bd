import HtmlTemplate.Inspect.Form
import HtmlTemplate.Number.Format
import HtmlTemplate.Value.Basic

/-!
# Inspecting values

Values that are not available yet and components are shown without their contents, which nobody has
asked for.
-/

namespace HtmlTemplate

namespace PlaceholderKind

/-- The inspection of a placeholder's kind. -/
def inspect : PlaceholderKind → Text
  | text => "Text".toList
  | html => "Html".toList
  | any => "Any".toList

end PlaceholderKind

namespace Value

/-- The inspection of a placeholder, whose source is shown as a text. -/
def inspectPlaceholder (kind : PlaceholderKind) (source : Text) : Text :=
  Inspect.fields "Placeholder" [("kind", kind.inspect), ("source", Text.quote source)]

mutual

/-- The inspection of a value. -/
def inspect : Value → Text
  | null => "Null".toList
  | bool b => Inspect.tuple "Bool" [Inspect.bool b]
  | int n => Inspect.tuple "Int" [Text.ofInt n]
  | float x => Inspect.tuple "Float" [NumberFormat.precise.write (Binary64.ofFloat x)]
  | str s => Inspect.tuple "Str" [Text.quote s]
  | html s => Inspect.tuple "Html" [Text.quote s]
  | array items => Inspect.tuple "Array" [Inspect.sequence (inspectEach items)]
  | object entries => Inspect.tuple "Object" [Inspect.mapping (inspectEntries entries)]
  | component .. => "Component(..)".toList
  | handler source => Inspect.tuple "Handler" [Text.quote source]
  | resolves .. => "Future(..)".toList
  | rejects .. => "Future(..)".toList
  | never => "Future(..)".toList
  | placeholder kind value => inspectPlaceholder kind (inspect value)
  | deferred kind _ _ => inspectPlaceholder kind "<deferred>".toList

/-- The inspections of values. -/
def inspectEach : List Value → List Text
  | [] => []
  | v :: rest => inspect v :: inspectEach rest

/-- The inspections of entries. -/
def inspectEntries : List (Text × Value) → List (Text × Text)
  | [] => []
  | (key, v) :: rest => (Text.quote key, inspect v) :: inspectEntries rest

end

end Value

end HtmlTemplate

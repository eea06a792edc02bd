import HtmlTemplate.Journal
import HtmlTemplate.Number.Format
import HtmlTemplate.Value.Basic

/-!
# The text of a value

Every value has a plain text: nothing for null, shortest digits for numbers, elements with commas
between them for arrays. A component is rendered for its text. Objects and values that are not
available yet have no text.
-/

namespace HtmlTemplate

namespace Value

mutual

/-- The plain text of a value, without any escaping. -/
def text : Value → Noted Text
  | .null => pure []
  | .bool true => pure "true".toList
  | .bool false => pure "false".toList
  | .int n => pure (Text.ofInt n)
  | .float x => pure (NumberFormat.plain.write (Binary64.ofFloat x))
  | .str s => pure s
  | .html s => pure s
  | .array items => do
    let parts ← texts items
    pure (Text.join [','] parts)
  | .object _ => pure []
  | .component name body => do
    .note (.rendered name)
    text body
  | .handler source => pure source
  | .resolves .. => pure []
  | .rejects .. => pure []
  | .never => pure []
  | .placeholder .. => pure []
  | .deferred .. => pure []

/-- The plain texts of values. -/
def texts : List Value → Noted (List Text)
  | [] => pure []
  | v :: rest => do
    let s ← text v
    let others ← texts rest
    pure (s :: others)

end

mutual

/-- The markup of a value that is taken as markup: arrays are written without separators. -/
def markup : Value → Noted Text
  | .array items => markups items
  | v => text v

/-- The markup of values, one after the other. -/
def markups : List Value → Noted Text
  | [] => pure []
  | v :: rest => do
    let s ← markup v
    let others ← markups rest
    pure (s ++ others)

end

/-- Whether the value counts as absent: null, false, zero, not a number or the empty text. -/
def isFalsy : Value → Bool
  | .null => true
  | .bool b => !b
  | .int n => n == 0
  | .float x => (Binary64.ofFloat x).isZero || (Binary64.ofFloat x).isNaN
  | .str s => s.isEmpty
  | _ => false

end Value

end HtmlTemplate

import HtmlTemplate.Options
import HtmlTemplate.Text.Escape
import HtmlTemplate.Value.Text

/-!
# Content

How a value is written between tags: text is escaped, trusted markup is inserted as it is, arrays
are flattened in place, components are rendered, and an object is replaced by what the first
transformer makes of it that takes one of its keys. What cannot be written is left out and noted.
-/

namespace HtmlTemplate

namespace Content

mutual

/-- Writes a value, given how an object is written. -/
def writeWith (object : List (Text × Value) → Noted Text) : Value → Noted Text
  | .null => pure []
  | .bool b => (Value.bool b).text
  | .int n => (Value.int n).text
  | .float x => (Value.float x).text
  | .str s => pure (Text.escape s)
  | .html s => pure s
  | .array items => writeAllWith object items
  | .object entries => object entries
  | .component name body => do
    .note (.rendered name)
    writeWith object body
  | .handler _ => pure []
  | .resolves delay name value => do
    .note (.unresolved (Value.resolves delay name value).shape)
    pure []
  | .rejects delay name reason => do
    .note (.unresolved (Value.rejects delay name reason).shape)
    pure []
  | .never => do
    .note (.unresolved Value.never.shape)
    pure []
  | .placeholder kind value => do
    .note (.unresolved (Value.placeholder kind value).shape)
    pure []
  | .deferred kind name future => do
    .note (.unresolved (Value.deferred kind name future).shape)
    pure []

/-- Writes values one after the other, given how an object is written. -/
def writeAllWith (object : List (Text × Value) → Noted Text) : List Value → Noted Text
  | [] => pure []
  | v :: rest => do
    let s ← writeWith object v
    let others ← writeAllWith object rest
    pure (s ++ others)

end

/-- Writes an object that may be replaced `expansions` times in a row. -/
def writeObject (options : Options) : Nat → List (Text × Value) → Noted Text
  | 0, _ => pure []
  | expansions + 1, entries =>
    match options.transform? entries with
    | some transformed => do
      let value ← transformed
      writeWith (writeObject options expansions) value
    | none => do
      .note (.unmatched (Entries.keys entries))
      pure []

/-- Writes a value between tags. -/
def write (options : Options) (value : Value) : Noted Text :=
  writeWith (writeObject options options.expansions) value

end Content

end HtmlTemplate

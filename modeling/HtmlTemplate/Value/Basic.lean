import HtmlTemplate.Text.Entries

/-!
# Values

What a caller supplies for the slots of a template. Values that are not available yet are described
by when they settle and how: a delay in ticks, counted from the moment somebody first asks, and a
value or the reason of a rejection. Values and producers may carry a name, under which the journal
tells of them.
-/

namespace HtmlTemplate

/-- How the value behind a placeholder is taken. -/
inductive PlaceholderKind where
  /-- As text, to be escaped. -/
  | text
  /-- As markup, to be inserted as it is. -/
  | html
  /-- As the value that it is. -/
  | any
  deriving Repr, DecidableEq

/-- A value for a slot. -/
inductive Value where
  | null
  | bool (b : Bool)
  | int (n : Int)
  | float (x : Float)
  | str (text : Text)
  /-- Trusted markup. -/
  | html (markup : Text)
  | array (items : List Value)
  /-- Entries in the order of their insertion. -/
  | object (entries : List (Text × Value))
  /-- Something that renders itself, to the same value each time. -/
  | component (name : Option Text) (body : Value)
  /-- An event handler, by its source text. -/
  | handler (source : Text)
  /-- A value that is available `delay` ticks after it was first asked for. -/
  | resolves (delay : Nat) (name : Option Text) (value : Value)
  /-- A value that turns out, after `delay` ticks, not to be available. -/
  | rejects (delay : Nat) (name : Option Text) (reason : Text)
  /-- A value that never becomes available. -/
  | never
  | placeholder (kind : PlaceholderKind) (value : Value)
  /-- A placeholder whose value is what a producer returns; `future` is that value, and the
  producer is called when the placeholder is resolved. -/
  | deferred (kind : PlaceholderKind) (name : Option Text) (future : Value)

namespace Value

/-- The object of entries given in order. -/
def ofEntries (entries : List (Text × Value)) : Value := .object (Entries.ofList entries)

mutual

/-- Whether the value has to be waited for: futures and placeholders do, arrays when an element
does. -/
def isAsync : Value → Bool
  | .resolves .. => true
  | .rejects .. => true
  | .never => true
  | .placeholder .. => true
  | .deferred .. => true
  | .array items => anyAsync items
  | _ => false

/-- Whether one of the values has to be waited for. -/
def anyAsync : List Value → Bool
  | [] => false
  | v :: rest => isAsync v || anyAsync rest

end

/-- Whether the value is a number. -/
def isNumber : Value → Bool
  | .int _ => true
  | .float _ => true
  | _ => false

/-- The name of the value's form. -/
def shape : Value → Text
  | .null => "null".toList
  | .bool _ => "bool".toList
  | .int _ => "int".toList
  | .float _ => "float".toList
  | .str _ => "string".toList
  | .html _ => "html".toList
  | .array _ => "array".toList
  | .object _ => "object".toList
  | .component .. => "component".toList
  | .handler _ => "handler".toList
  | .resolves .. => "future".toList
  | .rejects .. => "future".toList
  | .never => "future".toList
  | .placeholder .. => "placeholder".toList
  | .deferred .. => "placeholder".toList

mutual

/-- The elements of nested arrays, in order. -/
def leavesOf : Value → List Value
  | .array items => leaves items
  | v => [v]

/-- The values that are no arrays, reached through arrays, in order. -/
def leaves : List Value → List Value
  | [] => []
  | v :: rest => leavesOf v ++ leaves rest

end

end Value

end HtmlTemplate

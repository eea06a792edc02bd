import HtmlTemplate.Options
import HtmlTemplate.Value.Basic

/-!
# The size of a value

How much there is to resolve in a value. Every future, placeholder, component, replaced object and
waiting array on the way counts, and each element of such an array counts once more for its turn.
A value that is resolved step by step is done, or waits for a timer, after no more steps than that.
-/

namespace HtmlTemplate

namespace Value

mutual

/-- The size of a value, given that of what replaces an object in content. -/
def sizeWith (object : List (Text × Value) → Nat) (content : Bool) : Value → Nat
  | .resolves _ _ value => sizeWith object content value + 1
  | .placeholder _ value => sizeWith object content value + 1
  | .deferred _ _ future => sizeWith object content future + 1
  | .array items =>
    if anyAsync items then items.length + totalSizeWith object content items + 1 else 1
  | .component _ body => if content then sizeWith object content body + 1 else 1
  | .object entries => if content then object entries + 1 else 1
  | _ => 1

/-- The sizes of some values together. -/
def totalSizeWith (object : List (Text × Value) → Nat) (content : Bool) : List Value → Nat
  | [] => 0
  | v :: rest => sizeWith object content v + totalSizeWith object content rest

end

/-- The size of what replaces an object in content that may be replaced `expansions` times. -/
def sizeObject (options : Options) : Nat → List (Text × Value) → Nat
  | 0, _ => 0
  | expansions + 1, entries =>
    match options.transform? entries with
    | some transformed => sizeWith (sizeObject options expansions) true transformed.result
    | none => 0

end Value

end HtmlTemplate

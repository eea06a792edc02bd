import HtmlTemplate.Options
import HtmlTemplate.Value.Basic

/-!
# How long a value takes

The ticks from the moment somebody asks for a value to the moment it is there, when everything on
the way settles. What follows one after the other adds up, what waits side by side overlaps: a
future costs its delay and what its value costs, an array what its slowest element costs.
-/

namespace HtmlTemplate

namespace Value

mutual

/-- The ticks that a value takes, given what an object in content takes. -/
def waitWith (object : List (Text × Value) → Nat) (content : Bool) : Value → Nat
  | .resolves delay _ value => delay + waitWith object content value
  | .rejects delay _ _ => delay
  | .placeholder _ value => waitWith object content value
  | .deferred _ _ future => waitWith object content future
  | .array items => if anyAsync items then longestWith object content items else 0
  | .component _ body => if content then waitWith object content body else 0
  | .object entries => if content then object entries else 0
  | _ => 0

/-- The ticks that the slowest of some values takes. -/
def longestWith (object : List (Text × Value) → Nat) (content : Bool) : List Value → Nat
  | [] => 0
  | v :: rest => max (waitWith object content v) (longestWith object content rest)

end

/-- The ticks that an object in content takes when it may be replaced `expansions` times. -/
def waitObject (options : Options) : Nat → List (Text × Value) → Nat
  | 0, _ => 0
  | expansions + 1, entries =>
    match options.transform? entries with
    | some transformed => waitWith (waitObject options expansions) true transformed.result
    | none => 0

/-- The ticks that a value takes. -/
def wait (options : Options) (content : Bool) (value : Value) : Nat :=
  waitWith (waitObject options options.expansions) content value

end Value

end HtmlTemplate

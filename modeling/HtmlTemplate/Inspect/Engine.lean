import HtmlTemplate.Engine
import HtmlTemplate.Inspect.Template

/-!
# Inspecting an engine

Options, skeletons, caches and what renders give. Transformations and minifiers have no inspection,
and the number of a skeleton stays hidden.
-/

namespace HtmlTemplate

namespace Options

/-- Puts a name into a list of names in alphabetical order. -/
def insertName (name : Text) : List Text → List Text
  | [] => [name]
  | other :: rest => if name < other then name :: other :: rest else other :: insertName name rest

/-- The names of the attributes with a transformation, in alphabetical order. -/
def intentNames (options : Options) : List Text :=
  (Entries.keys options.intents).foldr insertName []

/-- The inspection of options. -/
def inspect (options : Options) : Text :=
  Inspect.fields "Options"
    [("intent_attributes", Inspect.sequence (options.intentNames.map Text.quote)),
      ("content_transformers",
        Inspect.sequence ((Entries.keys options.transformers).map Text.quote)),
      ("adoptable", Inspect.bool options.adoptable),
      ("script_minifier", Text.quote ['.', '.', '.']),
      ("css_minifier", Text.quote ['.', '.', '.']),
      ("collapse_whitespace", Inspect.bool options.collapse)]

/-- The inspection of what writes values with these options, by the number of markers drawn. -/
def inspectSerializer (options : Options) (markers : Nat) : Text :=
  Inspect.fields "Serializer" [("options", options.inspect), ("markers", Text.ofNat markers)]

end Options

/-- The inspection of a skeleton's number. -/
def Skeleton.hiddenId : Text := "SkeletonId(_)".toList

/-- The inspection of a skeleton. -/
def Skeleton.inspect (s : Skeleton) : Text :=
  Inspect.fields "Skeleton"
    [("id", hiddenId), ("segments", Inspect.sequence (s.segments.map Text.quote))]

/-- The inspection of a handle that does not keep its skeleton alive. -/
def Skeletons.inspectWeak (known : Skeletons) (id : Nat) : Text :=
  Inspect.fields "WeakSkeleton"
    [("id", Skeleton.hiddenId), ("alive", Inspect.bool (known.isAlive id))]

/-- The inspection of a cache. -/
def Cache.inspect (cache : Cache) : Text :=
  Inspect.fields "TemplateCache"
    [("entries", Text.ofNat cache.size), ("compiles", Text.ofNat cache.compiles)]

/-- The inspection of the library's own event source. -/
def Event.inspectSource : Text := "Html5gumTokenizer".toList

/-- The inspection of the minifier that leaves a text as it is. -/
def Options.inspectPassthrough : Text := "Passthrough".toList

/-- The inspection of an engine with the library's own event source. -/
def Engine.inspect (engine : Engine) : Text :=
  Inspect.fields "Engine"
    [("tokenizer", Event.inspectSource), ("cache", engine.cache.inspect),
      ("options", engine.options.inspect)]

/-- The inspection of what a render gives. -/
def Rendered.inspect : Rendered → Text
  | ready text => Inspect.tuple "Ready" [Text.quoteBytes text]
  | pending _ => "Pending(..)".toList

/-- The inspection of fragments. -/
def Fragments.inspect (f : Fragments) : Text :=
  Inspect.fields "Fragments"
    [("remaining", Text.ofNat f.remaining), ("failed", Inspect.bool f.failed)]

end HtmlTemplate

import HtmlTemplate.Cache
import HtmlTemplate.Render.Fragments
import HtmlTemplate.Template.Compile

/-!
# The engine

Options, an event source and a cache in one place: skeletons are compiled once and rendered many
times.
-/

namespace HtmlTemplate

/-- Everything that renders skeletons. -/
structure Engine where
  sentinel : Sentinel
  options : Options
  source : EventSource
  cache : Cache

namespace Engine

variable {α : Type}

/-- An engine that has not compiled anything. -/
def new (sentinel : Sentinel) (options : Options) (source : EventSource) : Engine :=
  ⟨sentinel, options, source, .empty⟩

/-- The template of a skeleton, compiled when it is first asked for. -/
def compile (engine : Engine) (skeleton : Skeleton) :
    Live (Except CompileError StoredTemplate × Engine) := do
  let (result, cache) ← Live.record <| engine.cache.getOrCompile skeleton fun skeleton =>
    Template.compile engine.sentinel engine.options engine.source skeleton.segments
  pure (result, { engine with cache := cache })

/-- Goes on with the template of a skeleton, if it can be compiled. -/
def withTemplate (engine : Engine) (skeleton : Skeleton)
    (go : Template → Live (Except RenderError α)) : Live (Except RenderError α × Engine) := do
  let (compiled, engine) ← engine.compile skeleton
  match compiled with
  | .error error => pure (.error (.compile error), engine)
  | .ok stored => do
    let result ← go stored.template
    pure (result, engine)

/-- Renders values into a skeleton. -/
def render (engine : Engine) (skeleton : Skeleton) (values : List Value) :
    Live (Except RenderError Rendered × Engine) := do
  Live.note .renderBegins
  engine.withTemplate skeleton fun template => template.render engine.options values

/-- The fragments of values in a skeleton. -/
def fragments (engine : Engine) (skeleton : Skeleton) (values : List Value) :
    Live (Except RenderError Fragments × Engine) :=
  engine.withTemplate skeleton fun template => template.fragments engine.options values

/-- Sends values in a skeleton in fragments. -/
def stream (engine : Engine) (skeleton : Skeleton) (values : List Value) :
    Live (Except RenderError (List (Nat × Text) × StreamEnd) × Engine) :=
  engine.withTemplate skeleton fun template => template.stream engine.options values

/-- Removes the templates of skeletons that live no more. -/
def purge (engine : Engine) (skeletons : Skeletons) : Live (Nat × Engine) := do
  let (count, cache) ← Live.record (engine.cache.purge skeletons)
  pure (count, { engine with cache := cache })

end Engine

end HtmlTemplate

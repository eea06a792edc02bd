import HtmlTemplate.Task.Polling
import HtmlTemplate.Value.Size
import HtmlTemplate.Value.Text

/-!
# Resolving values

`Task.poll` asks for a value, for the first time or again. What is available at once is resolved at
once. A future starts its timer when it is first asked for; a deferred value's producer is called
then. What a future settles with is resolved in turn. In content, components are rendered and
objects replaced by their transformers, so that what they yield is waited for as well.

A task is polled by polling its parts, which are smaller: each poll is one step, `Task.step`, and a
task of size `n` needs no more than `n` of them inside one another.
-/

namespace HtmlTemplate

namespace Task

/-- What a placeholder makes of its value. -/
def convertValue : PlaceholderKind → Value → Noted Value
  | .text, v => Noted.map .str v.text
  | .html, v => Noted.map .html v.markup
  | .any, v => pure v

/-- A placeholder whose value has come this far. -/
def converted (kind : PlaceholderKind) : Task → Live Task
  | done (.ok v) => do
    let v ← Live.record (convertValue kind v)
    pure (done (.ok v))
  | done (.error reason) => pure (done (.error reason))
  | inner => pure (convert kind inner)

/-! ## Steps -/

/-- Polls a placeholder, given how its value is polled. -/
def stepConvert (poll : Task → Live (Polled Task)) (kind : PlaceholderKind) (inner : Task) :
    Live (Polled Task) := do
  let p ← poll inner
  let t ← converted kind p.state
  pure ⟨t, p.again⟩

/-- Polls the elements of an array, given how each of them is polled. -/
def stepGroup (poll : Task → Live (Polled Task)) (g : Group) : Live (Polled Task) := do
  let p ← g.poll poll
  pure ⟨p.state.task, p.again⟩

/-- Starts a timer, or settles at once when there is no delay. -/
def stepFuture (poll : Task → Live (Polled Task)) (mode : Mode) (delay : Nat) (name : Option Text)
    (outcome : Except Text Value) : Live (Polled Task) :=
  if delay = 0 then do
    Live.note (.settled name)
    match outcome with
    | .ok value => poll (fresh mode value)
    | .error reason => pure (.quiet (done (.error reason)))
  else do
    let timer ← Live.setTimer delay
    pure (.quiet (asleep mode timer name outcome))

/-- Resolves an object: in content, its transformer's value is resolved instead. -/
def stepObject (options : Options) (poll : Task → Live (Polled Task)) (mode : Mode)
    (entries : List (Text × Value)) : Live (Polled Task) :=
  if mode.content then
    match mode.expansions with
    | 0 => pure (.quiet (done (.ok .null)))
    | expansions + 1 =>
      match options.transform? entries with
      | some transformed => do
        let value ← Live.record transformed
        poll (fresh ⟨true, expansions⟩ value)
      | none => pure (.quiet (done (.ok (.object entries))))
  else pure (.quiet (done (.ok (.object entries))))

/-- Asks for a value for the first time, given how its parts are polled. -/
def stepFresh (options : Options) (poll : Task → Live (Polled Task)) (mode : Mode) :
    Value → Live (Polled Task)
  | .array items =>
    if Value.anyAsync items then
      stepGroup poll ⟨items.map (fresh mode), Group.readyAtFirst items.length⟩
    else pure (.quiet (done (.ok (.array items))))
  | .object entries => stepObject options poll mode entries
  | .component name body =>
    if mode.content then do
      Live.note (.rendered name)
      poll (fresh mode body)
    else pure (.quiet (done (.ok (.component name body))))
  | .resolves delay name value => stepFuture poll mode delay name (.ok value)
  | .rejects delay name reason => stepFuture poll mode delay name (.error reason)
  | .never => pure (.quiet forever)
  | .placeholder kind value => stepConvert poll kind (fresh mode value)
  | .deferred kind name future => do
    Live.note (.called name)
    stepConvert poll kind (fresh mode future)
  | value => pure (.quiet (done (.ok value)))

/-- Polls a task, given how its parts are polled. -/
def step (options : Options) (poll : Task → Live (Polled Task)) : Task → Live (Polled Task)
  | fresh mode value => stepFresh options poll mode value
  | asleep mode timer name outcome => do
    let now ← Live.now
    if now < timer.due then pure (.quiet (asleep mode timer name outcome))
    else do
      Live.note (.settled name)
      match outcome with
      | .ok value => poll (fresh mode value)
      | .error reason => pure (.quiet (done (.error reason)))
  | forever => pure (.quiet forever)
  | convert kind inner => stepConvert poll kind inner
  | group members ready => stepGroup poll ⟨members, ready⟩
  | done result => pure (.quiet (done result))

/-! ## Polls -/

mutual

/-- How much there is still to resolve in a task. -/
def size (options : Options) : Task → Nat
  | fresh mode value => value.sizeWith (Value.sizeObject options mode.expansions) mode.content
  | asleep mode _ _ (.ok value) =>
    value.sizeWith (Value.sizeObject options mode.expansions) mode.content + 1
  | asleep _ _ _ (.error _) => 1
  | convert _ inner => size options inner + 1
  | group members ready => (ready.getD []).length + totalSize options members + 1
  | _ => 0

/-- How much there is still to resolve in some tasks. -/
def totalSize (options : Options) : List Task → Nat
  | [] => 0
  | t :: rest => size options t + totalSize options rest

end

/-- Polls a task to a depth; what lies deeper stays as it is. -/
def pollWithin (options : Options) : Nat → Task → Live (Polled Task)
  | 0, t => pure (.quiet t)
  | depth + 1, t => step options (pollWithin options depth) t

/-- Polls a task. -/
def poll (options : Options) (t : Task) : Live (Polled Task) :=
  pollWithin options (t.size options) t

end Task

end HtmlTemplate

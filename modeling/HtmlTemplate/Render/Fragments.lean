import HtmlTemplate.Render.Whole

/-!
# Rendering in fragments

A page can be sent as it comes. Its fragments are the chunks of the template and what stands in the
slots between them; an array in content has a fragment for each of its elements. All values start on
their way side by side, and each fragment is given out as soon as everything before it has been.
After the first failure nothing more is given out.
-/

namespace HtmlTemplate

/-- How the value of a step is written. -/
inductive Writing where
  /-- As a slot of a kind. -/
  | slot (kind : SlotKind)
  /-- As an element of an array in content, whose markers are steps of their own. -/
  | element
  deriving Repr, DecidableEq

/-- What makes one fragment. -/
inductive Step where
  /-- A text that is known from the start. -/
  | literal (text : Text)
  /-- The value of a slot on its way to be written. -/
  | resolving (slot : Nat) (writing : Writing) (task : Task)
  | finished (result : Except RenderError Text)

namespace Step

/-- The result of a step, if it has one. -/
def result? : Step → Option (Except RenderError Text)
  | finished result => some result
  | _ => none

/-- Writes the value of a step. -/
def write (options : Options) (writing : Writing) (value : Value) :
    Live (Except RenderError Text) :=
  match writing with
  | .slot kind => Slot.write options kind value
  | .element => Live.record (Noted.map .ok (Content.write options value))

/-- Polls a step: its value is written as soon as it has settled. -/
def poll (options : Options) : Step → Live (Polled Step)
  | literal text => pure (.quiet (finished (.ok text)))
  | resolving slot writing task => do
    let p ← task.poll options
    match p.state with
    | .done (.ok value) => do
      let result ← write options writing value
      pure ⟨finished result, p.again⟩
    | .done (.error reason) => pure ⟨finished (.error (.rejected slot reason)), p.again⟩
    | task => pure ⟨resolving slot writing task, p.again⟩
  | finished result => pure (.quiet (finished result))

/-- The value that a step waits for. -/
def task : Step → Task
  | resolving _ _ task => task
  | _ => .done (.ok .null)

/-- The step after the timers have rung that are due by a tick. -/
def wake (tick : Nat) : Step → Step
  | resolving slot writing task => resolving slot writing (task.wake tick)
  | step => step

end Step

/-- The fragments of one page, in order. -/
structure Fragments where
  steps : List Step
  /-- How many fragments were given out. -/
  given : Nat
  /-- The steps to poll, in order. -/
  ready : List Nat
  failed : Bool

namespace Fragments

/-- The fragments of given steps. -/
def ofSteps (steps : List Step) : Fragments := ⟨steps, 0, List.range steps.length, false⟩

/-- The number of fragments still to come, if nothing fails. -/
def remaining (f : Fragments) : Nat := if f.failed then 0 else f.steps.length - f.given

/-- The bounds of what is still to come: the upper one is the number of fragments that remain. -/
def sizeHint (f : Fragments) : Nat × Nat := (0, f.remaining)

/-- Before anything was given out, all steps remain. -/
theorem remaining_ofSteps (steps : List Step) : (ofSteps steps).remaining = steps.length := rfl

/-- The result of the next step, if it has one. -/
def front? (given : Nat) (steps : List Step) : Option (Except RenderError Text) :=
  (steps[given]?).bind Step.result?

/-- What is given out: a fragment, or the failure that ends the stream. -/
abbrev Item := Except RenderError Text

/-- Gives out the result of the next step. -/
def give (f : Fragments) : Item → Live (Fragments × Reply (Option Item))
  | .ok text => pure ({ f with given := f.given + 1 }, .said (some (.ok text)))
  | .error error => do
    Live.note (.streamAborted error)
    pure (⟨[], 0, [], true⟩, .said (some (.error error)))

/-- Polls for the next item. There may be nothing to say yet, an item, or the end. -/
def poll (options : Options) (f : Fragments) : Live (Fragments × Reply (Option Item)) :=
  if f.failed || f.steps.length ≤ f.given then pure (f, .said none)
  else
    match front? f.given f.steps with
    | some item => f.give item
    | none => do
      let p ← Queue.pollInTurn (Step.poll options) (fun step => step.result?.isSome)
        (fun steps => (front? f.given steps).isSome) ⟨f.steps, f.ready⟩
      let f := { f with steps := p.state.members, ready := p.state.ready }
      match front? f.given f.steps with
      | some item => f.give item
      | none => pure (f, .nothing p.again)

/-- How the next item is waited for. -/
def waiting (options : Options) : Waiting Fragments (Option Item) where
  poll := poll options
  turns f := f.ready.length + Task.totalSize options (f.steps.map Step.task)
  nextDue? f := Task.nextDueAmong? (f.steps.map Step.task)
  wake tick f :=
    { f with
      steps := f.steps.map (Step.wake tick)
      ready := Group.wakeReady tick (f.steps.map Step.task) f.ready }
  settledBy now f := Task.allSettledBy options now (f.steps.map Step.task)

/-- Waits for the next item: `none` when the wait has stalled, `some none` at the end. -/
def next (options : Options) (f : Fragments) : Live (Fragments × Option (Option Item)) :=
  (waiting options).await f

/-! ## The steps of a page -/

/-- The steps of an array in content: one for each element that is no array, between two markers. -/
def arraySteps (options : Options) (slot : Nat) (items : List Value) : Live (List Step) := do
  let marker ← Slot.marker options
  let leaves := Value.leaves items
  Live.note (.arrayStreams slot leaves.length)
  let steps := leaves.map fun leaf =>
    Step.resolving slot .element (.fresh (Template.slotMode options .content) leaf)
  pure (Step.literal marker :: steps ++ [Step.literal marker])

/-- The steps of one slot. -/
def slotSteps (options : Options) (slot : Nat) (kind : SlotKind) (value : Value) :
    Live (List Step) :=
  match kind, value with
  | .content, .array items => arraySteps options slot items
  | kind, value =>
    pure [Step.resolving slot (.slot kind) (.fresh (Template.slotMode options kind) value)]

/-- The steps of slots from a number on, each with its value and the chunk after it. -/
def stepsFrom (options : Options) (slot : Nat) :
    List (SlotKind × Value × Text) → Live (List Step)
  | [] => pure []
  | (kind, value, chunk) :: rest => do
    let steps ← slotSteps options slot kind value
    let others ← stepsFrom options (slot + 1) rest
    pure (steps ++ Step.literal chunk :: others)

end Fragments

/-- The fragments of a page. -/
def Template.fragments (options : Options) (template : Template) (values : List Value) :
    Live (Except RenderError Fragments) := do
  match template.checkCount values with
  | .error error => pure (.error error)
  | .ok () => do
    let slots := template.slots.zip (values.zip (template.chunks.drop 1))
    let steps ← Fragments.stepsFrom options 0 slots
    pure (.ok (.ofSteps (Step.literal (template.chunks.headD []) :: steps)))

/-! ## Sending a page -/

/-- How a stream ends. -/
inductive StreamEnd where
  /-- All fragments were given out. -/
  | complete
  | failed (error : RenderError)
  /-- The next fragment waits for something that never comes. -/
  | stalled
  deriving Repr, DecidableEq

namespace Fragments

/-- Gives out at most `count` fragments, each with the tick at which it comes, and tells how the
stream ends. -/
def drainWithin (options : Options) : Nat → Fragments → Live (List (Nat × Text) × StreamEnd)
  | 0, _ => pure ([], .complete)
  | count + 1, f => do
    let (f, said) ← f.next options
    match said with
    | none => pure ([], .stalled)
    | some none => pure ([], .complete)
    | some (some (.error error)) => pure ([], .failed error)
    | some (some (.ok text)) => do
      let now ← Live.now
      let (others, ending) ← drainWithin options count f
      pure ((now, text) :: others, ending)

/-- Gives out all fragments, each with the tick at which it comes, and tells how the stream ends. -/
def drain (options : Options) (f : Fragments) : Live (List (Nat × Text) × StreamEnd) :=
  f.drainWithin options (f.remaining + 1)

end Fragments

/-- Sends a page in fragments. -/
def Template.stream (options : Options) (template : Template) (values : List Value) :
    Live (Except RenderError (List (Nat × Text) × StreamEnd)) := do
  match ← template.fragments options values with
  | .error error => pure (.error error)
  | .ok f => do
    let sent ← f.drain options
    pure (.ok sent)

end HtmlTemplate

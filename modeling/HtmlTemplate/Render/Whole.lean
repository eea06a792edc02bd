import HtmlTemplate.Output.Slot
import HtmlTemplate.Task.Await
import HtmlTemplate.Template.Basic

/-!
# Rendering as a whole

`Template.render` writes the values of all slots between the chunks of a template. When no value has
to be waited for, the text is ready at once. Otherwise all values are resolved first, side by side,
and nothing is written before the last of them has settled.
-/

namespace HtmlTemplate

/-- The text of a page, or what it is waiting for. -/
structure PendingText where
  template : Template
  /-- The values of the slots. -/
  slots : Group

/-- What a render gives. -/
inductive Rendered where
  | ready (text : Text)
  | pending (page : PendingText)

namespace Template

/-- The values, if there is one for each slot. -/
def checkCount (template : Template) (values : List Value) : Except RenderError Unit :=
  if values.length = template.slotCount then .ok ()
  else .error (.slotCount template.slotCount values.length)

/-- Writes slots, each with its value and the chunk after it, up to the first failure. -/
def writeSlots (options : Options) : List (SlotKind × Value × Text) → Live (Except RenderError Text)
  | [] => pure (.ok [])
  | (kind, value, chunk) :: rest => do
    match ← Slot.write options kind value with
    | .error error => pure (.error error)
    | .ok text =>
      match ← writeSlots options rest with
      | .error error => pure (.error error)
      | .ok others => pure (.ok (text ++ chunk ++ others))

/-- Writes the chunks with the values of the slots between them. -/
def write (options : Options) (template : Template) (values : List Value) :
    Live (Except RenderError Text) := do
  let slots := template.slots.zip (values.zip (template.chunks.drop 1))
  match ← writeSlots options slots with
  | .error error => pure (.error error)
  | .ok text => pure (.ok (template.chunks.headD [] ++ text))

/-- How the value of a slot is resolved. -/
def slotMode (options : Options) (kind : SlotKind) : Mode := ⟨kind.isContent, options.expansions⟩

/-- The values of the slots before anybody has asked for them. -/
def freshSlots (options : Options) (template : Template) (values : List Value) : Group :=
  let members := (template.slots.zip values).map fun (kind, value) =>
    Task.fresh (slotMode options kind) value
  ⟨members, Group.readyAtFirst members.length⟩

/-- Renders values. -/
def render (options : Options) (template : Template) (values : List Value) :
    Live (Except RenderError Rendered) := do
  match template.checkCount values with
  | .error error => pure (.error error)
  | .ok () =>
    if Value.anyAsync values then
      Live.note (.renderWaits values.length)
      pure (.ok (.pending ⟨template, template.freshSlots options values⟩))
    else
      match ← template.write options values with
      | .error error => pure (.error error)
      | .ok text => pure (.ok (.ready text))

end Template

namespace PendingText

/-- Polls the values; once all have settled, the page is written. -/
def poll (options : Options) (page : PendingText) :
    Live (PendingText × Reply (Except RenderError Text)) := do
  let p ← page.slots.poll (Task.poll options)
  let page := { page with slots := p.state }
  match page.slots.verdict with
  | .waiting => pure (page, .nothing p.again)
  | .failed slot reason => pure (page, .said (.error (.rejected slot reason)))
  | .settled values => do
    let text ← page.template.write options values
    pure (page, .said text)

/-- How a page is waited for. -/
def waiting (options : Options) : Waiting PendingText (Except RenderError Text) where
  poll := poll options
  turns page := (page.slots.ready.getD []).length + Task.totalSize options page.slots.members
  nextDue? page := Task.nextDueAmong? page.slots.members
  wake tick page :=
    { page with
      slots := ⟨Task.wakeEach tick page.slots.members,
        page.slots.ready.map (Group.wakeReady tick page.slots.members)⟩ }
  settledBy now page := Task.allSettledBy options now page.slots.members

end PendingText

/-- The text of a page, after waiting for it if need be; nothing when the wait has stalled. -/
def Rendered.await (options : Options) : Rendered → Live (Option (Except RenderError Text))
  | .ready text => pure (some (.ok text))
  | .pending page => do
    let (_, said) ← (PendingText.waiting options).await page
    pure said

end HtmlTemplate

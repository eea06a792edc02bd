import HtmlTemplate.Proofs.Render.Blamed
import HtmlTemplate.Proofs.Task.Told
import Mathlib.Data.List.Perm.Basic

/-!
# What is told of a page

What a host is told while a page is made is what is told of its slots: nothing is left out, and
nothing comes twice, whatever the order in which their values settle. Of a slot is told, in every
way in which a page can be had, what its own value gives rise to (`Slot.told`).
-/

namespace HtmlTemplate

variable {options : Options}

/-- How a page can be had. -/
inductive Delivery where
  /-- Written at once, when there is nothing to wait for. -/
  | ready
  /-- Written as a whole when all values have settled. -/
  | pending
  /-- Sent in fragments. -/
  | streamed
  deriving Repr, DecidableEq

namespace Slot

variable {kind : SlotKind} {value : Value}

/-- What is told of a slot whose value is resolved first and then written. -/
def toldResolved (options : Options) (kind : SlotKind) (value : Value) : List Note :=
  value.told options (Template.slotMode options kind) ++
    (written options kind (value.resolved options (Template.slotMode options kind))).notes

/-- What is told of a slot with a value. An array in content is sent in fragments leaf by leaf. -/
def told (options : Options) : Delivery → SlotKind → Value → List Note
  | .ready, kind, value => (written options kind value).notes
  | .streamed, .content, .array items =>
    (Value.leaves items).flatMap (toldResolved options .content)
  | _, kind, value => toldResolved options kind value

theorem tells_write (options : Options) (kind : SlotKind) (value : Value) (line : Timeline) :
    line.Tells (written options kind value).notes (write options kind value line).2 := by
  by_cases content : kind = .content
  · subst content
    have drawn : line.Tells [] (marker options line).2 := .silent (by unfold marker; split <;> rfl)
    exact drawn.trans (.record (Content.write options value) _)
  · rw [write_of_ne_content content]
    exact .record _ line

end Slot

/-! ## Pages as a whole -/

namespace Template

variable {template : Template} {values : List Value} {line : Timeline}

theorem tells_writeSlots {slots : List (SlotKind × Value × Text)} {line : Timeline} {text : Text}
    (wrote : (writeSlots options slots line).1 = .ok text) :
    line.Tells (slots.flatMap fun p => (Slot.written options p.1 p.2.1).notes)
      (writeSlots options slots line).2 := by
  induction slots generalizing line text with
  | nil => exact .refl line
  | cons first rest ih =>
    obtain ⟨kind, value, chunk⟩ := first
    have here := Slot.tells_write options kind value line
    rcases written : Slot.write options kind value line with ⟨result, line'⟩
    rw [written] at here
    cases result with
    | error error =>
      rw [writeSlots_of_error written] at wrote
      cases wrote
    | ok text =>
      rw [writeSlots_of_ok written] at wrote ⊢
      cases others : (writeSlots options rest line').1 with
      | error error =>
        rw [others] at wrote
        cases wrote
      | ok others' => exact here.trans (ih others)

/-- Of a page that is written is told what is told of writing its slots. -/
theorem tells_write (count : values.length = template.slotCount) {text : Text}
    (wrote : (template.write options values line).1 = .ok text) :
    line.Tells ((template.slots.zip values).flatMap fun p => (Slot.written options p.1 p.2).notes)
      (template.write options values line).2 := by
  rw [write_apply] at wrote ⊢
  rw [← zip_values count, List.flatMap_map]
  cases slots : (writeSlots options (template.slots.zip (values.zip (template.chunks.drop 1)))
      line).1 with
  | error error =>
    rw [slots] at wrote
    cases wrote
  | ok text' => exact tells_writeSlots slots

/-- Of a page that is ready at once is told what is told of its slots. -/
theorem tells_ready (count : values.length = template.slotCount) {text : Text} {last : Timeline}
    (rendered : template.render options values line = (.ok (.ready text), last)) :
    Value.anyAsync values = false ∧
      line.Tells ((template.slots.zip values).flatMap fun p => Slot.told options .ready p.1 p.2)
        last := by
  cases waits : Value.anyAsync values with
  | true =>
    rw [render_of_waits options count waits] at rendered
    cases rendered
  | false =>
    rw [render_of_instant options count waits] at rendered
    cases wrote : (template.write options values line).1 with
    | error error =>
      rw [wrote] at rendered
      cases rendered
    | ok text' =>
      rw [wrote] at rendered
      cases rendered
      exact ⟨rfl, tells_write count wrote⟩

end Template

namespace PendingText

/-- What a wait for a page leaves of its slots, and has told of them. -/
def Leaves (options : Options) (start : PendingText) (line : Timeline) (page : PendingText)
    (line' : Timeline) : Prop :=
  page.template = start.template ∧
    ∃ notes, start.task.Reduces options notes page.task ∧ line.Tells notes line'

/-- What a page says at last, and what was told until then. -/
def Writes (options : Options) (start : PendingText) (line : Timeline)
    (said : Except RenderError Text) (last : Timeline) : Prop :=
  ∀ text, said = .ok text → ∃ values notes line',
    start.task.Reduces options notes (.done (.ok (.array values))) ∧ line.Tells notes line' ∧
    start.template.write options values line' = (.ok text, last)

theorem keeps_leaves (start : PendingText) (line : Timeline) :
    (waiting options).Keeps (Leaves options start line) fun _ => Writes options start line where
  poll {page line₁} leaves := by
    -- The slots are polled as a group is, so that a poll reduces their task.
    obtain ⟨same, notes, reduces, tells⟩ := leaves
    obtain ⟨notes', goes, tells', _⟩ :=
      Task.goesOn_groupPoll (Task.poll_goesOn options) page.slots line₁
    rcases group : page.slots.poll (Task.poll options) line₁ with ⟨p, line₂⟩
    rw [group] at goes tells'
    show Waiting.Replied _ _ (poll options page line₁)
    rw [poll_apply group]
    cases verdict : p.state.verdict with
    | waiting =>
      have left : Leaves options start line { page with slots := p.state } line₂ :=
        ⟨same, _, reduces.trans goes, tells.trans tells'⟩
      cases p.again <;> exact left
    | failed slot reason =>
      intro text said
      cases said
    | settled values =>
      have done : p.state.task = .done (.ok (.array values)) := by rw [Group.task, verdict]
      have settles := (reduces.trans goes).trans .verdict
      rw [done, List.append_nil] at settles
      intro text said
      exact ⟨values, _, line₂, settles, tells.trans tells', Prod.ext (same ▸ said) (same ▸ rfl)⟩
  wake {page line₁ due} leaves _ := by
    obtain ⟨same, notes, reduces, tells⟩ := leaves
    have woken := reduces.trans (Task.reduces_wake options due page.task)
    rw [List.append_nil] at woken
    exact ⟨same, notes, woken, tells⟩

end PendingText

namespace Template

variable {template : Template} {values : List Value}

theorem told_freshSlots :
    (PendingText.task ⟨template, template.freshSlots options values⟩).told options =
      (template.slots.zip values).flatMap fun p => p.2.told options (slotMode options p.1) := by
  show Task.toldEach options (template.freshSlots options values).members = _
  rw [Task.toldEach_eq_flatMap, freshSlots, List.flatMap_map]
  rfl

theorem outcome_freshSlots :
    (PendingText.task ⟨template, template.freshSlots options values⟩).outcome options =
      .array (template.resolvedSlots options values) := by
  show Value.array (Task.outcomes options (template.freshSlots options values).members) = _
  rw [Task.outcomes_eq_map, freshSlots, List.map_map, resolvedSlots,
    ← List.map_uncurry_zip_eq_zipWith]
  rfl

theorem zip_resolvedSlots :
    template.slots.zip (template.resolvedSlots options values) =
      (template.slots.zip values).map fun p =>
        (p.1, p.2.resolved options (slotMode options p.1)) := by
  rw [resolvedSlots]
  generalize template.slots = slots
  induction slots generalizing values with
  | nil => rfl
  | cons kind slots ih =>
    cases values with
    | nil => rfl
    | cons value values => exact congrArg _ ih

/-- Of a page that is waited for is told what is told of its slots, from the time when somebody
waits. -/
theorem tells_pending (count : values.length = template.slotCount) {start last : Timeline}
    {text : Text}
    (awaited : (Rendered.pending ⟨template, template.freshSlots options values⟩).await options
      start = (some (.ok text), last)) :
    ∃ told, start.Tells told last ∧ told.Perm
      ((template.slots.zip values).flatMap fun p => Slot.told options .pending p.1 p.2) := by
  simp only [Rendered.await, Live.bind_apply, Live.pure_apply] at awaited
  rcases said : (PendingText.waiting options).await
    ⟨template, template.freshSlots options values⟩ start with ⟨⟨page, o⟩, line⟩
  rw [said] at awaited
  cases awaited
  obtain ⟨settled, notes, line', reduces, tells, wrote⟩ :=
    (PendingText.keeps_leaves ⟨template, template.freshSlots options values⟩ start).await
      ⟨rfl, [], .refl, .refl start⟩ said text rfl
  obtain ⟨settles, told⟩ := Task.told_of_done reduces
  have resolved := Task.outcome_of_settles settles
  rw [outcome_freshSlots] at resolved
  cases resolved
  have written :
      (template.write options (template.resolvedSlots options values) line').1 = .ok text :=
    congrArg Prod.fst wrote
  have tells' := tells_write (length_resolvedSlots options count) written
  rw [wrote, zip_resolvedSlots, List.flatMap_map] at tells'
  refine ⟨_, tells.trans tells', ?_⟩
  rw [told_freshSlots] at told
  exact (told.append_right _).trans (List.flatMap_append_perm _ _ _)

end Template

end HtmlTemplate

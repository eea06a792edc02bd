import HtmlTemplate.Proofs.Render.Pending
import HtmlTemplate.Proofs.Task.Fate

/-!
# How pages that wait end

A page that waits ends as the values of its slots do together (`PendingText.Ended`): it is written
when the last of them has settled, at that very tick, or it fails, or it waits for ever. A page of a
few slots fails with each value that is rejected. On a page of more slots than are polled all
together, a value that is rejected is seen only when everything before it has settled, and a value
that never does hides it (`Template.pending_rejected`).
-/

namespace HtmlTemplate

variable {options : Options}

namespace Template

variable {kind : SlotKind} {value : Value} {chunk : Text} {line line' : Timeline}

theorem writeSlots_of_error {error : RenderError}
    (written : Slot.write options kind value line = (.error error, line'))
    (rest : List (SlotKind × Value × Text)) :
    writeSlots options ((kind, value, chunk) :: rest) line = (.error error, line') := by
  rw [writeSlots, Live.bind_apply, written]
  rfl

theorem writeSlots_of_ok {text : Text}
    (written : Slot.write options kind value line = (.ok text, line'))
    (rest : List (SlotKind × Value × Text)) :
    writeSlots options ((kind, value, chunk) :: rest) line =
      ((writeSlots options rest line').1.map (text ++ chunk ++ ·),
        (writeSlots options rest line').2) := by
  rw [writeSlots, Live.bind_apply, written]
  simp only [Live.bind_apply]
  cases (writeSlots options rest line').1 <;> rfl

/-- A page is its first chunk and what its slots and the chunks after them are. -/
theorem write_apply (options : Options) (template : Template) (values : List Value)
    (line : Timeline) :
    template.write options values line =
      ((writeSlots options (template.slots.zip (values.zip (template.chunks.drop 1))) line).1.map
          (template.chunks.headD [] ++ ·),
        (writeSlots options (template.slots.zip (values.zip (template.chunks.drop 1)))
          line).2) := by
  rw [write, Live.bind_apply]
  cases (writeSlots options (template.slots.zip (values.zip (template.chunks.drop 1))) line).1 <;>
    rfl

theorem later_writeSlots (options : Options) (slots : List (SlotKind × Value × Text))
    (line : Timeline) : line.Later (writeSlots options slots line).2 := by
  induction slots generalizing line with
  | nil => exact .refl line
  | cons first rest ih =>
    obtain ⟨kind, value, chunk⟩ := first
    have here := Slot.later_write options kind value line
    rcases written : Slot.write options kind value line with ⟨result, line'⟩
    rw [written] at here
    cases result with
    | error error =>
      rw [writeSlots_of_error written]
      exact here
    | ok text =>
      rw [writeSlots_of_ok written]
      exact here.trans (ih line')

/-- Writing a page takes no time. -/
theorem later_write (options : Options) (template : Template) (values : List Value)
    (line : Timeline) : line.Later (template.write options values line).2 := by
  rw [write_apply]
  exact later_writeSlots options _ line

end Template

namespace PendingText

/-- How the wait for a page ends. -/
def fate (options : Options) (page : PendingText) : Fate (List Value) :=
  Fate.joined page.slots.ready (page.slots.members.map (Task.fate options))

theorem fate_task (page : PendingText) :
    page.task.fate options = (page.fate options).map .array := by
  rw [task, Task.fate, Task.fates_eq_map, fate]

/-- What a wait for a page says at last, and when: it is written with the values at the tick by
which all have settled, is rejected, or stalls. -/
inductive Ended (options : Options) (template : Template) (tick : Nat) :
    Fate (List Value) → Option (Except RenderError Text) → Nat → Prop
  | written {values} (line : Timeline) :
      Ended options template tick (.settles values)
        (some (template.write options values line).1) tick
  | rejected (slot : Nat) (reason : Text) (now : Nat) :
      Ended options template tick .fails (some (.error (.rejected slot reason))) now
  | stalled (now : Nat) : Ended options template tick .never none now

variable {page page' : PendingText} {line line' : Timeline}

/-- The slots of a page may be polled, and hold no verdict back. -/
structure Fit (line : Timeline) (page : PendingText) : Prop where
  ready : Ready line page
  current : ∀ t ∈ page.slots.members, t.Current

theorem fated_poll {p : Polled Group} (fit : Fit line page)
    (polled : page.slots.poll (Task.poll options) line = (p, line')) :
    Task.MembersFated options line.now page.slots.members p.state.members ∧
      p.state.ready.isSome = page.slots.ready.isSome := by
  have each : ∀ t ∈ page.slots.members, t.Ready line := by
    have ready : Task.Ready line (.group page.slots.members page.slots.ready) := fit.ready
    generalize page.slots.ready = queue at ready
    cases ready with
    | together each => exact each
    | inTurn each _ _ => exact each
  have fated := Task.fated_groupPoll
    (Task.polls_currentAt options line.now (Task.totalSize options page.slots.members))
    page.slots line fun t member =>
      ⟨⟨rfl, each t member, Task.size_le_totalSize member⟩, fit.current t member⟩
  have way := Task.isSome_ready_groupPoll (Task.poll options) page.slots line
  rw [polled] at fated way
  exact ⟨fated, way⟩

/-- A poll of a page does not change how it ends. -/
theorem fate_poll {p : Polled Group} (fit : Fit line page)
    (polled : page.slots.poll (Task.poll options) line = (p, line')) :
    fate options { page with slots := p.state } = fate options page := by
  obtain ⟨fated, way⟩ := fated_poll fit polled
  rw [fate, fate, Task.joined_congr way, fated.fates]

/-- Nor when, if it settles. -/
theorem settledBy_poll {p : Polled Group} {values : List Value} (fit : Fit line page)
    (polled : page.slots.poll (Task.poll options) line = (p, line'))
    (settles : fate options page = .settles values) :
    Task.allSettledBy options line.now p.state.members =
      Task.allSettledBy options line.now page.slots.members := by
  obtain ⟨fated, _⟩ := fated_poll fit polled
  exact Task.allSettledBy_eq_of_arrival (Fate.joined_eq_settles.mp settles) fated.fates
    fated.arrivals

/-- How a page ends that has the same way before it as another. -/
theorem Ended.of_tick {tick tick' now : Nat} {template : Template} {fate : Fate (List Value)}
    {o : Option (Except RenderError Text)} (ended : Ended options template tick fate o now)
    (same : ∀ values, fate = .settles values → tick = tick') :
    Ended options template tick' fate o now := by
  cases ended with
  | written line =>
    cases same _ rfl
    exact .written line
  | rejected slot reason now => exact .rejected slot reason now
  | stalled now => exact .stalled now

/-- A page that says what it is ends so. -/
theorem ended_of_said {said : Except RenderError Text} (fit : Fit line page)
    (polled : (waiting options).poll page line = ((page', .said said), line')) :
    Ended options page.template (Task.allSettledBy options line.now page.slots.members)
      (page.fate options) (some said) line'.now := by
  rcases group : page.slots.poll (Task.poll options) line with ⟨p, line₁⟩
  have later := (becomes fit.ready group).later
  have same := fate_poll fit group
  have tick : ∀ values, fate options page = .settles values →
      Task.allSettledBy options line.now p.state.members =
        Task.allSettledBy options line.now page.slots.members := fun _ => settledBy_poll fit group
  replace polled : poll options page line = ((page', .said said), line') := polled
  rw [poll_apply group] at polled
  cases verdict : p.state.verdict with
  | waiting =>
    rw [verdict] at polled
    cases again : p.again <;> rw [again] at polled <;> cases polled
  | failed slot reason =>
    rw [verdict] at polled
    cases polled
    rw [← same, fate, Task.joined_of_failed verdict]
    exact .rejected slot reason _
  | settled values =>
    rw [verdict] at polled
    have settles : fate options page = .settles values := by
      rw [← same]
      exact Task.joined_of_settled verdict
    have now : Task.allSettledBy options line.now page.slots.members = line.now := by
      rw [← tick values settles, Task.members_of_settled verdict, Task.allSettledBy_map_done]
    have last : (page.template.write options values line₁).2.now = line.now :=
      (Template.later_write options page.template values line₁).1.trans later.1
    cases polled
    rw [settles, now, last]
    exact .written line₁

/-- A timer that rings does not change how a page ends. -/
theorem fate_wake (tick : Nat) (page : PendingText) :
    fate options ((waiting options).wake tick page) = fate options page := by
  refine Fate.map_injective (f := Value.array) (fun _ _ same => Value.array.inj same) ?_
  rw [← fate_task, ← fate_task]
  exact Task.fate_wake tick page.task

/-- Nor, if it is the next one, when. -/
theorem settledBy_wake {now due : Nat} (quiet : Quiet now page)
    (next : (waiting options).nextDue? page = some due) :
    Task.allSettledBy options due ((waiting options).wake due page).slots.members =
      Task.allSettledBy options now page.slots.members := by
  have bounds : now < due ∧ due ≤ page.task.settledBy options now :=
    Task.Quiet.nextDue? quiet options next
  have tick : page.task.settledBy options due = max due (page.task.settledBy options now) :=
    Task.Quiet.settledBy_eq quiet (Nat.le_of_lt bounds.1) fun other found =>
      Nat.le_of_eq (Option.some.inj (next.symm.trans found))
  have woken : (page.task.wake due).settledBy options due = page.task.settledBy options due :=
    Task.settledBy_wake due due page.task
  rw [tick, Nat.max_eq_right bounds.2] at woken
  exact woken

/-- However the wait for a page goes, it ends as its values do. -/
theorem ended_of_runs {o : Option (Except RenderError Text)}
    (run : (waiting options).Runs page line page' o line') (fit : Fit line page) :
    Ended options page.template (Task.allSettledBy options line.now page.slots.members)
      (page.fate options) o line'.now := by
  induction run with
  | said polled => exact ended_of_said fit polled
  | again polled _ ih =>
    obtain ⟨later, kept, _⟩ := sound_waiting.again fit.ready polled
    obtain ⟨p, group, rfl, _⟩ := polled_of_nothing (fun _ same => by cases same) polled
    have ended := ih ⟨kept, (fated_poll fit group).1.current⟩
    rw [fate_poll fit group, later.1] at ended
    exact ended.of_tick fun values settles => settledBy_poll fit group settles
  | @stalled page line page' line' polled none =>
    obtain ⟨_, _, quiet, _⟩ := sound_waiting.waiting fit.ready polled
    obtain ⟨p, group, rfl, verdict, _⟩ := polled_of_nothing (fun _ same => by cases same) polled
    have current : Task.Current (.group p.state.members p.state.ready) :=
      .group (fated_poll fit group).1.current verdict
    have stuck := Task.fate_of_stuck options quiet current none rfl
    have never : fate options page = .never := by
      rw [← fate_poll fit group, ← Fate.map_eq_never (f := Value.array), ← fate_task]
      exact stuck
    rw [never]
    exact .stalled _
  | @woken page line page' line' due page'' o line'' polled next _ ih =>
    obtain ⟨later, kept, quiet, _⟩ := sound_waiting.waiting fit.ready polled
    obtain ⟨p, group, rfl, _⟩ := polled_of_nothing (fun _ same => by cases same) polled
    have current := (fated_poll fit group).1.current
    have woken := sound_waiting.wake kept (later.1 ▸ quiet) next
    have ended := ih ⟨woken.1, Task.current_wakeEach current due⟩
    rw [fate_wake, fate_poll fit group] at ended
    exact ended.of_tick fun values settles =>
      (settledBy_wake quiet next).trans (settledBy_poll fit group settles)

end PendingText

/-! ## Pages of templates -/

namespace Template

variable {template : Template} {values : List Value}

/-- How the waits for the values of the slots end. -/
def fates (options : Options) (template : Template) (values : List Value) : List (Fate Value) :=
  (template.slots.zip values).map fun p => p.2.fate options (slotMode options p.1)

theorem fit_freshSlots (options : Options) (template : Template) (values : List Value)
    (line : Timeline) :
    PendingText.Fit line ⟨template, template.freshSlots options values⟩ := by
  refine ⟨Task.ready_atFirst (fun t member => ?_) rfl, fun t member => ?_⟩
  · obtain ⟨p, _, rfl⟩ := List.mem_map.mp member
    exact ⟨_, _, rfl⟩
  · obtain ⟨p, _, rfl⟩ := List.mem_map.mp member
    exact .fresh

theorem fate_freshSlots :
    PendingText.fate options ⟨template, template.freshSlots options values⟩ =
      Fate.joined (Group.readyAtFirst (template.slots.zip values).length)
        (template.fates options values) := by
  rw [PendingText.fate, freshSlots, List.length_map, List.map_map]
  rfl

/-- A page that waits ends as the values of its slots do together, whenever somebody starts to
wait. -/
theorem await_ended (options : Options) (template : Template) (values : List Value)
    (line : Timeline) :
    ∃ said last,
      (Rendered.pending ⟨template, template.freshSlots options values⟩).await options line =
        (said, if said.isNone then (Live.runOut last).2 else last) ∧
      PendingText.Ended options template
        (Task.allSettledBy options line.now (template.freshSlots options values).members)
        (Fate.joined (Group.readyAtFirst (template.slots.zip values).length)
          (template.fates options values)) said last.now := by
  have fit := fit_freshSlots options template values line
  obtain ⟨page, said, last, run, awaited⟩ :=
    Waiting.await_runs PendingText.sound_waiting _ line fit.ready
  have ended := PendingText.ended_of_runs run fit
  rw [fate_freshSlots] at ended
  refine ⟨said, last, ?_, ended⟩
  simp only [Rendered.await, Live.bind_apply, awaited]
  rfl

theorem anyAsync_of_mem {v : Value} (member : v ∈ values) (waits : v.isAsync = true) :
    Value.anyAsync values = true := by
  cases silent : Value.anyAsync values with
  | true => rfl
  | false =>
    rw [Value.anyAsync_eq_false.mp silent v member] at waits
    cases waits

/-- The first slot, if any, whose value does not settle, by how the wait for it ends. -/
def firstUnsettled? (options : Options) (template : Template) (values : List Value) :
    Option (Fate Value) :=
  (template.fates options values).find? fun fate => !fate.isSettled

/-- A page that waits for a value that is rejected fails, or stalls. It fails if all its slots are
polled together, and otherwise exactly if the first value that does not settle is rejected: behind
one that never settles, the rejection is not seen. -/
theorem pending_rejected (count : values.length = template.slotCount)
    (rejected : ∃ p ∈ template.slots.zip values,
      p.2.isAsync = true ∧ p.2.fate options (slotMode options p.1) = .fails) (line : Timeline) :
    ∃ page line', template.render options values line = (.ok (.pending page), line') ∧
      (template.slotCount ≤ Group.limit ∨ template.firstUnsettled? options values = some .fails →
        ∃ slot reason, ((Rendered.pending page).await options line').1 =
          some (.error (.rejected slot reason))) ∧
      (¬ (template.slotCount ≤ Group.limit ∨
          template.firstUnsettled? options values = some .fails) →
        ((Rendered.pending page).await options line').1 = none) := by
  obtain ⟨p, member, waits, fails⟩ := rejected
  have inside : p.2 ∈ values := (List.of_mem_zip member).2
  have found : .fails ∈ template.fates options values := List.mem_map.mpr ⟨p, member, fails⟩
  have length : (template.slots.zip values).length = template.slotCount := by
    rw [List.length_zip, count]
    exact Nat.min_self _
  refine ⟨_, _, render_of_waits options count (anyAsync_of_mem inside waits) line, ?_⟩
  obtain ⟨said, last, awaited, ended⟩ := await_ended options template values
    (Live.note (.renderWaits values.length) line).2
  rw [awaited]
  have joined : Fate.joined (Group.readyAtFirst (template.slots.zip values).length)
      (template.fates options values) = .fails ↔
      template.slotCount ≤ Group.limit ∨ template.firstUnsettled? options values = some .fails := by
    rw [length, Group.readyAtFirst]
    split
    · rename_i few
      exact iff_of_true (Fate.together_eq_fails.mpr found) (.inl few)
    · rename_i many
      exact Fate.inTurn_eq_fails.trans (or_iff_right many).symm
  rw [← joined]
  generalize fate : Fate.joined (Group.readyAtFirst (template.slots.zip values).length)
    (template.fates options values) = fate at ended
  generalize Task.allSettledBy options _ (template.freshSlots options values).members =
    tick at ended
  generalize last.now = now at ended
  cases ended with
  | written => exact absurd fate (Fate.not_settles_of_mem found (fun _ same => by cases same) _)
  | rejected slot reason => exact ⟨fun _ => ⟨slot, reason, rfl⟩, fun other => absurd rfl other⟩
  | stalled => exact ⟨fun same => (by cases same), fun _ => rfl⟩

/-- A page of content slots with nothing between them. -/
def bare (slots : Nat) : Template :=
  ⟨List.replicate (slots + 1) [], List.replicate slots .content, by simp⟩

/-- A value that never settles does not hide a rejection behind it on a page of two slots, but does
on a page of thirty-one. -/
theorem pending_rejected_hidden :
    (∃ page line', (bare 2).render {} [.never, .rejects 1 none ['n', 'o']] Timeline.start =
        (.ok (.pending page), line') ∧
      ∃ slot reason, ((Rendered.pending page).await {} line').1 =
        some (.error (.rejected slot reason))) ∧
    ∃ page line', (bare 31).render {} (.never :: .rejects 1 none ['n', 'o'] ::
        List.replicate 29 (.str ['x'])) Timeline.start = (.ok (.pending page), line') ∧
      ((Rendered.pending page).await {} line').1 = none := by
  constructor
  · obtain ⟨page, line', rendered, fails, _⟩ := @pending_rejected {} (bare 2)
      [.never, .rejects 1 none ['n', 'o']] rfl
      ⟨(.content, .rejects 1 none ['n', 'o']), List.mem_of_getElem? (i := 1) rfl, rfl, rfl⟩
      Timeline.start
    exact ⟨page, line', rendered, fails (.inl (by decide))⟩
  · obtain ⟨page, line', rendered, _, stalls⟩ := @pending_rejected {} (bare 31)
      (.never :: .rejects 1 none ['n', 'o'] :: List.replicate 29 (.str ['x'])) rfl
      ⟨(.content, .rejects 1 none ['n', 'o']), List.mem_of_getElem? (i := 1) rfl, rfl, rfl⟩
      Timeline.start
    refine ⟨page, line', rendered, stalls (not_or.mpr ⟨by decide, fun same => ?_⟩)⟩
    cases same

end Template

end HtmlTemplate

import HtmlTemplate.Proofs.Await
import HtmlTemplate.Proofs.Output.Slot
import HtmlTemplate.Proofs.Task.Renumber
import HtmlTemplate.Render.Fragments

/-!
# A step by itself

What a step of a page comes to is said by the step alone: `Step.alone` is the result of a wait for
it that starts at a given tick, with nothing else on the way. Among other steps it comes to the
same, because neither the numbers of timers nor what is noted makes a difference
(`promises_of_gives`).
-/

namespace HtmlTemplate

variable {options : Options}

namespace Step

/-- What a step makes of its value, for a host that wants no markers. -/
def written (options : Options) (writing : Writing) (value : Value) :
    Noted (Except RenderError Text) :=
  match writing with
  | .slot kind => Slot.written options kind value
  | .element => Noted.map .ok (Content.write options value)

theorem write_eq_record (h : options.adoptable = false) (writing : Writing) (value : Value)
    (line : Timeline) :
    write options writing value line = Live.record (written options writing value) line := by
  cases writing with
  | slot kind => exact Slot.write_eq_record h kind value line
  | element => rfl

/-- The step once its task has come this far. -/
def settle (options : Options) (slot : Nat) (writing : Writing) : Task → Noted Step
  | .done (.ok value) => Noted.map finished (written options writing value)
  | .done (.error reason) => pure (finished (.error (.rejected slot reason)))
  | task => pure (resolving slot writing task)

theorem poll_resolving (h : options.adoptable = false) (slot : Nat) (writing : Writing)
    (task : Task) (line : Timeline) :
    poll options (resolving slot writing task) line =
      (⟨(settle options slot writing (task.poll options line).1.state).result,
          (task.poll options line).1.again⟩,
        (Live.record (settle options slot writing (task.poll options line).1.state)
          (task.poll options line).2).2) := by
  rcases polled : task.poll options line with ⟨⟨t, again⟩, line'⟩
  have silent : ∀ s : Step, ((⟨s, again⟩, line') : Polled Step × Timeline) =
      (⟨(pure s : Noted Step).result, again⟩, (Live.record (pure s : Noted Step) line').2) :=
    fun s => by rw [show (pure s : Noted Step) = .silent s from rfl, Live.record_silent]; rfl
  simp only [poll, Live.bind_apply, polled]
  cases t with
  | done result =>
    cases result with
    | ok value =>
      simp only [Live.bind_apply, write_eq_record h]
      rfl
    | error reason => exact silent _
  | _ => exact silent _

/-! ## Polls -/

/-- The step may be polled. -/
def Ready (line : Timeline) (s : Step) : Prop := s.task.Ready line

/-- The step has nothing to do before its next timer rings. -/
def Quiet (now : Nat) (s : Step) : Prop := s.task.Quiet now

/-- What a poll makes of a step. -/
structure Calms (options : Options) (now : Nat) (s : Step) (p : Polled Step) : Prop where
  quiet : p.again = false → Quiet now p.state
  settles : p.state.task.settledBy options now ≤ s.task.settledBy options now

theorem later_write (options : Options) (writing : Writing) (value : Value) (line : Timeline) :
    line.Later (write options writing value line).2 := by
  cases writing with
  | slot kind => exact Slot.later_write options kind value line
  | element => exact Live.later_record _ line

section Poll

variable {slot : Nat} {writing : Writing} {task : Task} {line line' : Timeline} {again : Bool}

theorem poll_of_unsettled {t : Task} (polled : task.poll options line = (⟨t, again⟩, line'))
    (unsettled : t.isSettled = false) :
    poll options (resolving slot writing task) line =
      (⟨resolving slot writing t, again⟩, line') := by
  simp only [poll, Live.bind_apply, polled]
  cases t with
  | done result => cases unsettled
  | _ => rfl

theorem poll_of_value {value : Value}
    (polled : task.poll options line = (⟨.done (.ok value), again⟩, line')) :
    poll options (resolving slot writing task) line =
      (⟨finished (write options writing value line').1, again⟩,
        (write options writing value line').2) := by
  simp only [poll, Live.bind_apply, polled]
  rfl

theorem poll_of_error {reason : Text}
    (polled : task.poll options line = (⟨.done (.error reason), again⟩, line')) :
    poll options (resolving slot writing task) line =
      (⟨finished (.error (.rejected slot reason)), again⟩, line') := by
  simp only [poll, Live.bind_apply, polled]
  rfl

end Poll

/-- A poll takes no time, leaves no more to resolve, and less when it asks for another one. -/
structure Lessens (options : Options) (s : Step) (line : Timeline) (out : Polled Step × Timeline) :
    Prop where
  later : line.Later out.2
  size : out.1.state.task.size options ≤ s.task.size options
  again : out.1.again = true → out.1.state.task.size options < s.task.size options

theorem lessens_poll (options : Options) (s : Step) (line : Timeline) :
    Lessens options s line (poll options s line) := by
  cases s with
  | literal text => exact ⟨.refl line, Nat.le_refl _, fun again => by cases again⟩
  | finished result => exact ⟨.refl line, Nat.le_refl _, fun again => by cases again⟩
  | resolving slot writing task =>
    have later : line.Later (task.poll options line).2 := Task.polls_lessens.later trivial
    obtain ⟨le, lt⟩ : Task.Lessens options task (task.poll options line).1 :=
      Task.polls_lessens.effect trivial
    rcases polled : task.poll options line with ⟨⟨t, again⟩, line'⟩
    rw [polled] at later le lt
    -- once the task has settled, there is nothing left to resolve
    have ends : ∀ {result line''}, line'.Later line'' →
        Lessens options (resolving slot writing task) line (⟨finished result, again⟩, line'') :=
      fun after => ⟨later.trans after, Nat.zero_le _,
        fun asks => Nat.lt_of_le_of_lt (Nat.zero_le _) (lt asks)⟩
    cases t with
    | done result =>
      cases result with
      | ok value =>
        rw [poll_of_value polled]
        exact ends (later_write options writing value line')
      | error reason =>
        rw [poll_of_error polled]
        exact ends (.refl line')
    | _ =>
      rw [poll_of_unsettled polled rfl]
      exact ⟨later, le, lt⟩

/-- A poll keeps a step ready, leaves it quiet when it does not ask for another poll, and does not
move the tick away by which the step settles. -/
theorem polls_calm (options : Options) (now : Nat) :
    Polls (poll options) (fun line s => line.now = now ∧ Ready line s) (Calms options now) := by
  have each : ∀ {line : Timeline} {s : Step}, line.now = now → Ready line s →
      Ready (poll options s line).2 (poll options s line).1.state ∧
        Calms options now s (poll options s line).1 := by
    intro line s tick ready
    cases s with
    | literal text => exact ⟨.done, fun _ => .done, Nat.le_refl _⟩
    | finished result => exact ⟨.done, fun _ => .done, Nat.le_refl _⟩
    | resolving slot writing task =>
      have polls := Task.polls_calm options now
      have kept := (polls.holds (s := task) ⟨tick, ready⟩).2
      obtain ⟨quiet, settles⟩ := polls.effect (s := task) ⟨tick, ready⟩
      have at_now : now ≤ task.settledBy options now := tick ▸ Task.Ready.le_settledBy ready options
      rcases polled : task.poll options line with ⟨⟨t, again⟩, line'⟩
      rw [polled] at kept quiet settles
      cases t with
      | done result =>
        cases result with
        | ok value =>
          rw [poll_of_value polled]
          exact ⟨.done, fun _ => .done, at_now⟩
        | error reason =>
          rw [poll_of_error polled]
          exact ⟨.done, fun _ => .done, at_now⟩
      | _ =>
        rw [poll_of_unsettled polled rfl]
        exact ⟨kept, quiet, settles⟩
  refine ⟨fun ready later => ⟨later.1.trans ready.1, Task.Ready.later ready.2 later⟩,
    fun _ => (lessens_poll options _ _).later, fun ready => ?_,
    fun ready => (each ready.1 ready.2).2⟩
  exact ⟨(lessens_poll options _ _).later.1.trans ready.1, (each ready.1 ready.2).1⟩

theorem eq_finished {s : Step} {result : Except RenderError Text}
    (settled : s.result? = some result) :
    s = finished result := by
  cases s with
  | finished other =>
    cases settled
    rfl
  | _ => cases settled

/-! ## Waiting for a step -/

/-- How one step is waited for, alone. -/
def waiting (options : Options) : Waiting Step (Except RenderError Text) where
  poll s := do
    let p ← poll options s
    match p.state.result? with
    | some result => pure (p.state, .said result)
    | none => pure (p.state, .nothing p.again)
  turns s := s.task.size options
  nextDue? s := s.task.nextDue?
  wake := wake
  settledBy now s := s.task.settledBy options now

/-- What a step comes to that is waited for alone, from a tick on: nothing when it never settles. -/
def alone (options : Options) (now : Nat) (s : Step) : Option (Except RenderError Text) :=
  ((waiting options).await s { Timeline.start with now := now }).1.2

/-- What a poll of a step says. -/
def reply (p : Polled Step) : Reply (Except RenderError Text) :=
  match p.state.result? with
  | some result => .said result
  | none => .nothing p.again

theorem waiting_poll (s : Step) (line : Timeline) :
    (waiting options).poll s line =
      (((poll options s line).1.state, reply (poll options s line).1),
        (poll options s line).2) := by
  show (poll options s >>= fun p => _) line = _
  rw [Live.bind_apply, reply]
  cases (poll options s line).1.state.result? <;> rfl

theorem polled_of_waiting {s s' : Step} {said : Reply (Except RenderError Text)}
    {line line' : Timeline} (h : (waiting options).poll s line = ((s', said), line')) :
    ∃ again, poll options s line = (⟨s', again⟩, line') ∧ reply ⟨s', again⟩ = said := by
  rw [waiting_poll] at h
  cases h
  exact ⟨_, rfl, rfl⟩

theorem reply_eq_said {p : Polled Step} {result : Except RenderError Text} :
    reply p = .said result ↔ p.state.result? = some result := by
  unfold reply Reply.nothing
  cases p.state.result? <;> cases p.again <;> simp

theorem reply_eq_again {p : Polled Step} :
    reply p = .again ↔ p.state.result? = none ∧ p.again = true := by
  unfold reply Reply.nothing
  cases p.state.result? <;> cases p.again <;> simp

theorem reply_eq_waiting {p : Polled Step} :
    reply p = .waiting ↔ p.state.result? = none ∧ p.again = false := by
  unfold reply Reply.nothing
  cases p.state.result? <;> cases p.again <;> simp

theorem task_wake (tick : Nat) (s : Step) : (s.wake tick).task = s.task.wake tick := by
  cases s <;> rfl

@[simp] theorem result?_wake (tick : Nat) (s : Step) : (s.wake tick).result? = s.result? := by
  cases s <;> rfl

/-- A timer rings only for a step that is still on its way. -/
theorem result?_of_ringing {tick : Nat} {s : Step} (rings : s.task.ringing? tick ≠ none) :
    s.result? = none := by
  cases s with
  | finished result => exact absurd rfl rings
  | _ => rfl

theorem wake_of_silent {tick : Nat} {s : Step} (silent : s.task.ringing? tick = none) :
    s.wake tick = s := by
  cases s with
  | resolving slot writing task =>
    exact congrArg (resolving slot writing) (Task.wake_of_silent silent)
  | _ => rfl

theorem sound_waiting (options : Options) : (waiting options).Sound Ready Quiet := by
  have calms : ∀ {line : Timeline} {s : Step} {p : Polled Step} {line' : Timeline},
      Ready line s → poll options s line = (p, line') →
      line.Later line' ∧ Ready line' p.state ∧ Calms options line.now s p := by
    intro line s p line' ready polled
    have polls := polls_calm options line.now
    have later := polls.later (s := s) ⟨rfl, ready⟩
    have kept := (polls.holds (s := s) ⟨rfl, ready⟩).2
    have calm := polls.effect (s := s) ⟨rfl, ready⟩
    rw [polled] at later kept calm
    exact ⟨later, kept, calm⟩
  refine ⟨fun {line s _ _} ready result => ?_, fun ready result => ?_,
    fun quiet found => Task.Quiet.nextDue? quiet options found,
    fun {line s due} ready quiet found => ?_⟩
  · obtain ⟨again, polled, said⟩ := polled_of_waiting result
    obtain ⟨later, kept, calm⟩ := calms ready polled
    have lessens := lessens_poll options s line
    rw [polled] at lessens
    exact ⟨later, kept, lessens.again (reply_eq_again.mp said).2, calm.settles⟩
  · obtain ⟨again, polled, said⟩ := polled_of_waiting result
    obtain ⟨later, kept, calm⟩ := calms ready polled
    exact ⟨later, kept, calm.quiet (reply_eq_waiting.mp said).2, calm.settles⟩
  · have bounds := Task.Quiet.nextDue? quiet options found
    refine ⟨?_, ?_⟩
    · show Task.Ready _ (s.wake due).task
      rw [task_wake]
      exact Task.Ready.wake ready quiet fun later found' =>
        Nat.le_of_eq (Option.some.inj (found.symm.trans found'))
    · show Task.settledBy options due (s.wake due).task ≤ _
      rw [task_wake, Task.settledBy_wake]
      exact Nat.le_trans (quiet.settledBy_le due) (Nat.max_le.mpr ⟨bounds.2, Nat.le_refl _⟩)

/-! ## On any timeline -/

/-- The step with other numbers for its timers. -/
def renumber (f : Nat → Nat) : Step → Step
  | resolving slot writing task => resolving slot writing (task.renumber f)
  | s => s

theorem task_renumber (f : Nat → Nat) (s : Step) : (s.renumber f).task = s.task.renumber f := by
  cases s <;> rfl

theorem settle_renumber (f : Nat → Nat) (slot : Nat) (writing : Writing) (t : Task) :
    settle options slot writing (t.renumber f) =
      Noted.map (renumber f) (settle options slot writing t) := by
  cases t with
  | done result => cases result <;> rfl
  | _ => rfl

theorem result?_renumber (f : Nat → Nat) (s : Step) : (s.renumber f).result? = s.result? := by
  cases s <;> rfl

theorem poll_renumber (h : options.adoptable = false) {f : Nat → Nat} (s : Step)
    {line line' : Timeline} (lines : line.Shifts f line') :
    (poll options (s.renumber f) line').1 = (poll options s line).1.map (renumber f) ∧
      (poll options s line).2.Shifts f (poll options (s.renumber f) line').2 := by
  cases s with
  | literal text => exact ⟨rfl, lines⟩
  | finished result => exact ⟨rfl, lines⟩
  | resolving slot writing task =>
    obtain ⟨same, later⟩ := Task.poll_renumber (Timeline.parallel_shifts f) options task lines
    rw [renumber, poll_resolving h, poll_resolving h, same]
    simp only [Polled.map, settle_renumber]
    exact ⟨rfl, later.record _⟩

theorem renames_waiting (h : options.adoptable = false) {f : Nat → Nat} (mono : StrictMono f) :
    (waiting options).Renames (renumber f) (Timeline.Shifts f) where
  poll {s line line'} lines := by
    have said : reply ((poll options s line).1.map (renumber f)) =
        reply (poll options s line).1 := by
      simp only [reply, Polled.map, result?_renumber]
    rw [waiting_poll, waiting_poll, (poll_renumber h s lines).1, said]
    rfl
  lines {s line line'} lines := by
    rw [waiting_poll, waiting_poll]
    exact (poll_renumber h s lines).2
  due s := by
    show (s.renumber f).task.nextDue? = s.task.nextDue?
    rw [task_renumber, Task.nextDue?_renumber]
  wake tick s := by
    cases s with
    | resolving slot writing task =>
      exact congrArg (resolving slot writing) (Task.wake_renumber mono tick task)
    | _ => rfl
  clock tick lines := lines.setClock tick

theorem Ready.renumber {line : Timeline} {s : Step} (ready : Ready line s) {f : Nat → Nat}
    (same : ∀ k < line.timers, f k = k) : s.renumber f = s := by
  cases s with
  | resolving slot writing task =>
    exact congrArg (resolving slot writing) (Task.Ready.renumber ready same)
  | _ => rfl

/-- Timers that others have set meanwhile make no difference. -/
theorem gives_later (h : options.adoptable = false) {s : Step} {line line' : Timeline}
    {o : Option (Except RenderError Text)} (ready : Ready line s) (later : line.Later line')
    (given : (waiting options).Gives s line o) : (waiting options).Gives s line' o := by
  obtain ⟨f, mono, same, lines⟩ := Timeline.Shifts.exists_of_later later
  have given' := given.rename (renames_waiting h mono) lines
  rw [ready.renumber same] at given'
  exact given'

/-- At a tick, the step comes to `o`, whatever else is on the way. -/
def Promises (options : Options) (now : Nat) (s : Step) (o : Option (Except RenderError Text)) :
    Prop :=
  ∀ line : Timeline, line.now = now → Ready line s → (waiting options).Gives s line o

/-- The step comes to `o` after its next timer has rung. -/
def PromisesLater (options : Options) (s : Step) (o : Option (Except RenderError Text)) : Prop :=
  match s.task.nextDue? with
  | none => o = none
  | some due => Promises options due (s.wake due) o

theorem promises_of_gives (h : options.adoptable = false) {s : Step} {line : Timeline}
    {o : Option (Except RenderError Text)} (ready : Ready line s)
    (given : (waiting options).Gives s line o) : Promises options line.now s o := by
  intro line' tick ready'
  -- both timelines lead to one on which as many timers were set as on the two together
  have both : ∀ {a : Timeline}, a.now = line.now → a.timers ≤ line.timers + line'.timers →
      a.Later { line with timers := line.timers + line'.timers } := fun tick le => ⟨tick.symm, le⟩
  have given' := Waiting.gives_await (sound_waiting options) s line' ready'
  have same := (gives_later h ready (both rfl (Nat.le_add_right _ _)) given).unique
    (gives_later h ready' (both tick (Nat.le_add_left _ _)) given')
  rw [same]
  exact given'

theorem promises_alone (h : options.adoptable = false) {now : Nat} {s : Step}
    (ready : Ready { Timeline.start with now := now } s) :
    Promises options now s (alone options now s) :=
  promises_of_gives h ready (Waiting.gives_await (sound_waiting options) s _ ready)

/-- What a poll makes of the promise of a step. -/
def Keeps (options : Options) (now : Nat) (s : Step) (p : Polled Step) : Prop :=
  ∀ o, Promises options now s o →
    match reply p with
    | .said result => o = some result
    | .again => Promises options now p.state o
    | .waiting => PromisesLater options p.state o

theorem keeps_poll (h : options.adoptable = false) {s : Step} {line : Timeline}
    (ready : Ready line s) : Keeps options line.now s (poll options s line).1 := by
  intro o promise
  have polls := polls_calm options line.now
  have kept := polls.holds (s := s) ⟨rfl, ready⟩
  have calm := polls.effect (s := s) ⟨rfl, ready⟩
  obtain ⟨last, line', run⟩ := promise line rfl ready
  cases run with
  | said result =>
    obtain ⟨again, polled, said⟩ := polled_of_waiting result
    rw [polled, said]
  | again result rest =>
    obtain ⟨again, polled, said⟩ := polled_of_waiting result
    rw [polled] at kept ⊢
    rw [said, ← kept.1]
    exact promises_of_gives h kept.2 ⟨_, _, rest⟩
  | stalled result none =>
    obtain ⟨again, polled, said⟩ := polled_of_waiting result
    replace none : Task.nextDue? _ = .none := none
    rw [polled, said]
    simp only [PromisesLater, none]
  | woken result some rest =>
    obtain ⟨again, polled, said⟩ := polled_of_waiting result
    replace some : Task.nextDue? _ = .some _ := some
    rw [polled] at kept calm ⊢
    rw [said]
    simp only [PromisesLater, some]
    have quiet := calm.quiet (reply_eq_waiting.mp said).2
    have woken := (sound_waiting options).wake kept.2 (kept.1 ▸ quiet) some
    exact promises_of_gives h woken.1 ⟨_, _, rest⟩

end Step

end HtmlTemplate

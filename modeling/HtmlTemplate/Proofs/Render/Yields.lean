import HtmlTemplate.Proofs.Render.Step
import HtmlTemplate.Proofs.Task.Blamed
import HtmlTemplate.Proofs.Task.Idle
import HtmlTemplate.Proofs.Task.Told

/-!
# What a step comes to

What a step comes to depends on its value alone, and not on when and how often it is polled
(`Step.Comes`): a value that settles is written as what it resolves to, one that is rejected makes
the step fail, for a reason for which it rejects, and of one that never settles nothing comes. Polls
and timers only narrow this down (`Step.narrows_poll`, `Step.narrows_wake`), and a wait for the step
alone ends with it (`Step.comes_alone`).
-/

namespace HtmlTemplate

variable {options : Options}

namespace Step

/-- What a step may give out. -/
inductive Yields (options : Options) : Step → Except RenderError Text → Prop
  | literal {text} : Yields options (literal text) (.ok text)
  /-- What a value settles with is written. -/
  | written {slot writing task value} : task.fate options = .settles value →
      Yields options (resolving slot writing task) (written options writing value).result
  /-- A value fails for one of the reasons for which it rejects. -/
  | rejected {slot writing task reason} : task.fate options = .fails → task.MayFail options reason →
      Yields options (resolving slot writing task) (.error (.rejected slot reason))
  | finished {result} : Yields options (finished result) result

/-- What may come of a step: something that it gives out, or nothing if its value never settles. -/
def Comes (options : Options) (s : Step) : Option (Except RenderError Text) → Prop
  | some result => s.Yields options result
  | none => s.task.fate options = .never

/-- Whatever may come of the second step may come of the first. -/
def Narrows (options : Options) (s t : Step) : Prop := ∀ o, t.Comes options o → s.Comes options o

theorem Narrows.refl (s : Step) : s.Narrows options s := fun _ comes => comes

theorem Narrows.trans {s t u : Step} (h : s.Narrows options t) (h' : t.Narrows options u) :
    s.Narrows options u := fun o comes => h o (h' o comes)

/-- A step with a result gives out nothing else. -/
theorem comes_finished {result : Except RenderError Text} {o : Option (Except RenderError Text)} :
    (finished result).Comes options o ↔ o = some result := by
  cases o with
  | none => exact ⟨fun never => (by cases never), fun same => (by cases same)⟩
  | some other =>
    constructor
    · rintro ⟨⟩
      rfl
    · intro same
      cases same
      exact .finished

/-- What comes of a value that settles is what it settles with, written. -/
theorem Comes.of_settles {slot : Nat} {writing : Writing} {task : Task} {value : Value}
    {o : Option (Except RenderError Text)} (comes : (resolving slot writing task).Comes options o)
    (settles : task.fate options = .settles value) :
    o = some (Step.written options writing value).result := by
  cases o with
  | none =>
    replace comes : task.fate options = .never := comes
    rw [settles] at comes
    cases comes
  | some result =>
    cases comes with
    | written settled =>
      rw [settles] at settled
      cases settled
      rfl
    | rejected fails =>
      rw [settles] at fails
      cases fails

/-! ## Polls and timers -/

section Poll

variable {slot : Nat} {writing : Writing} {task : Task}

/-- A task goes on, and what may come of its step is no more than before. -/
theorem narrows_of_reduces {t : Task} {notes : List Note} (reduces : task.Reduces options notes t) :
    (resolving slot writing task).Narrows options (resolving slot writing t) := by
  rintro (_ | result) comes
  · exact reduces.fate.symm.trans comes
  · cases comes with
    | written settles => exact .written (reduces.fate.symm.trans settles)
    | rejected fails mayFail =>
      exact .rejected (reduces.fate.symm.trans fails) (reduces.mayFail mayFail)

theorem narrows_of_value {value : Value} {notes : List Note}
    (reduces : task.Reduces options notes (.done (.ok value))) :
    (resolving slot writing task).Narrows options
      (finished (Step.written options writing value).result) := by
  intro o comes
  cases comes_finished.mp comes
  exact .written reduces.fate.symm

theorem narrows_of_error {reason : Text} {notes : List Note}
    (reduces : task.Reduces options notes (.done (.error reason))) :
    (resolving slot writing task).Narrows options (finished (.error (.rejected slot reason))) := by
  intro o comes
  cases comes_finished.mp comes
  exact .rejected reduces.fate.symm (reduces.mayFail .done)

end Poll

/-- Whatever is left of a step after a poll, nothing else comes of it. -/
theorem narrows_poll (plain : options.adoptable = false) (s : Step) (line : Timeline) :
    s.Narrows options (poll options s line).1.state := by
  cases s with
  | literal text =>
    intro o comes
    cases comes_finished.mp comes
    exact .literal
  | finished result => exact .refl _
  | resolving slot writing task =>
    obtain ⟨notes, reduces, _⟩ := Task.poll_goesOn options task line
    rcases polled : task.poll options line with ⟨⟨t, again⟩, line'⟩
    rw [polled] at reduces
    rcases Task.settled_cases t with ⟨value, rfl⟩ | ⟨reason, rfl⟩ | unsettled
    · rw [poll_of_value polled, write_eq_record plain]
      exact narrows_of_value reduces
    · rw [poll_of_error polled]
      exact narrows_of_error reduces
    · rw [poll_of_unsettled polled unsettled]
      exact narrows_of_reduces reduces

/-- Nothing else comes of a step when timers ring. -/
theorem narrows_wake (tick : Nat) (s : Step) : s.Narrows options (s.wake tick) := by
  cases s with
  | resolving slot writing task => exact narrows_of_reduces (Task.reduces_wake options tick task)
  | _ => exact .refl _

theorem kept_wake {s : Step} (kept : s.task.Kept) (tick : Nat) : (s.wake tick).task.Kept := by
  rw [task_wake]
  exact kept.wake tick

/-- The step has its result, or it waits and nobody is left to poll for it. -/
def Rests (s : Step) : Prop := s.result? = none → s.task.isSettled = false ∧ s.task.Idle

/-- What a poll leaves of a step. -/
structure Leaves (p : Polled Step) : Prop where
  kept : p.state.task.Kept
  rests : p.again = false → p.state.Rests

theorem leaves_finished (result : Except RenderError Text) (again : Bool) :
    Leaves ⟨finished result, again⟩ := ⟨.done, fun _ none => by cases none⟩

theorem leaves_poll {s : Step} (kept : s.task.Kept) (line : Timeline) :
    Leaves (poll options s line).1 := by
  cases s with
  | literal text => exact leaves_finished _ _
  | finished result => exact leaves_finished _ _
  | resolving slot writing task =>
    obtain ⟨still, idle⟩ : Task.Leaves (task.poll options line).1 := Task.leaves_poll kept line
    rcases polled : task.poll options line with ⟨⟨t, again⟩, line'⟩
    rw [polled] at still idle
    rcases Task.settled_cases t with ⟨value, rfl⟩ | ⟨reason, rfl⟩ | unsettled
    · rw [poll_of_value polled]
      exact leaves_finished _ _
    · rw [poll_of_error polled]
      exact leaves_finished _ _
    · rw [poll_of_unsettled polled unsettled]
      exact ⟨still, fun silent _ => ⟨unsettled, idle silent⟩⟩

/-- Of a step that waits without a timer nothing comes. -/
theorem Rests.never {s : Step} (rests : s.Rests) (kept : s.task.Kept) (waits : s.result? = none)
    (none : s.task.nextDue? = .none) : s.Comes options .none := by
  obtain ⟨unsettled, idle⟩ := rests waits
  exact kept.never idle none unsettled options

/-- What a poll makes of a step, whenever it comes. -/
structure Tends (options : Options) (s : Step) (p : Polled Step) : Prop where
  narrows : s.Narrows options p.state
  leaves : Leaves p

theorem polls_tend (plain : options.adoptable = false) :
    Polls (poll options) (fun _ s => s.task.Kept) (Tends options) where
  keeps kept _ := kept
  later _ := (lessens_poll options _ _).later
  holds kept := (leaves_poll kept _).kept
  effect kept := ⟨narrows_poll plain _ _, leaves_poll kept _⟩

/-! ## Steps that nobody has polled -/

/-- Nobody has polled the step. -/
inductive Unasked : Step → Prop
  | literal {text} : Unasked (literal text)
  | resolving {slot writing mode value} : Unasked (resolving slot writing (.fresh mode value))

theorem Unasked.result? {s : Step} (h : s.Unasked) : s.result? = none := by
  cases h <;> rfl

theorem Unasked.ready {s : Step} (h : s.Unasked) (line : Timeline) : s.Ready line := by
  cases h with
  | literal => exact .done
  | resolving => exact .fresh

theorem Unasked.kept {s : Step} (h : s.Unasked) : s.task.Kept := by
  cases h with
  | literal => exact .done
  | resolving => exact .fresh

/-! ## Waiting for a step alone -/

/-- However a wait for a step goes, it ends with something that may come of the step. -/
theorem comes_of_runs (plain : options.adoptable = false) {s s' : Step} {line line' : Timeline}
    {o : Option (Except RenderError Text)} (run : (waiting options).Runs s line s' o line')
    (kept : s.task.Kept) : s.Comes options o := by
  have tends : ∀ {s s' : Step} {line line' : Timeline} {said : Reply (Except RenderError Text)},
      s.task.Kept → (waiting options).poll s line = ((s', said), line') →
      ∃ again, Tends options s ⟨s', again⟩ ∧ reply ⟨s', again⟩ = said := by
    intro s s' line line' said kept result
    obtain ⟨again, polled, replied⟩ := polled_of_waiting result
    have tends : Tends options s (poll options s line).1 := (polls_tend plain).effect kept
    rw [polled] at tends
    exact ⟨again, tends, replied⟩
  induction run with
  | said result =>
    obtain ⟨_, tends, replied⟩ := tends kept result
    obtain rfl := eq_finished (reply_eq_said.mp replied)
    exact tends.narrows _ (comes_finished.mpr rfl)
  | again result _ ih =>
    obtain ⟨_, tends, _⟩ := tends kept result
    exact tends.narrows _ (ih tends.leaves.kept)
  | stalled result none =>
    obtain ⟨_, tends, replied⟩ := tends kept result
    obtain ⟨waits, silent⟩ := reply_eq_waiting.mp replied
    exact tends.narrows _ ((tends.leaves.rests silent).never tends.leaves.kept waits none)
  | @woken _ _ s' _ due _ _ _ result _ _ ih =>
    obtain ⟨_, tends, _⟩ := tends kept result
    exact tends.narrows _ (narrows_wake due s' _ (ih (kept_wake tends.leaves.kept due)))

/-- What comes of a step that is waited for alone. -/
theorem comes_alone (plain : options.adoptable = false) {s : Step} (unasked : s.Unasked)
    (now : Nat) :
    s.Comes options (alone options now s) := by
  obtain ⟨_, _, run⟩ := Waiting.gives_await (sound_waiting options) s _ (unasked.ready _)
  exact comes_of_runs plain run unasked.kept

theorem alone_literal (options : Options) (now : Nat) (text : Text) :
    alone options now (literal text) = some (.ok text) := by
  have said : ∀ line, (waiting options).await (literal text) line =
      ((finished (.ok text), some (.ok text)), line) := fun line => Waiting.await_of_said rfl
  rw [alone, said]

/-- A value that settles is written. -/
theorem alone_of_settles (plain : options.adoptable = false) (now slot : Nat) (writing : Writing)
    {mode : Mode} {value settled : Value} (settles : value.fate options mode = .settles settled) :
    alone options now (resolving slot writing (.fresh mode value)) =
      some (Step.written options writing settled).result :=
  (comes_alone plain .resolving now).of_settles settles

end Step

end HtmlTemplate

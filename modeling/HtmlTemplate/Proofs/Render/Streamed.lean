import HtmlTemplate.Proofs.Render.Told

/-!
# What is told of a stream

A stream that gives out all its fragments has told of each of its steps what was to be told of it,
once (`Fragments.tells_drain`). A poll of a step reduces its task, and writes its value when that is
there (`Step.tells_poll`); which steps are polled, when, and how often makes no difference.
-/

namespace HtmlTemplate

variable {options : Options}

/-! ## Steps -/

namespace Step

/-- What is told of a step from now on, if it comes to a fragment. -/
def told (options : Options) : Step → List Note
  | resolving _ writing task =>
    task.told options ++ (written options writing (task.outcome options)).notes
  | _ => []

/-- The step has a fragment, or a value that settles and can be written. -/
def Fine (options : Options) : Step → Prop
  | resolving _ _ task => ∃ v, task.fate options = .settles v
  | finished (.error _) => False
  | _ => True

theorem tells_write (options : Options) (writing : Writing) (value : Value) (line : Timeline) :
    line.Tells (written options writing value).notes (write options writing value line).2 := by
  cases writing with
  | slot kind => exact Slot.tells_write options kind value line
  | element => exact .record _ line

/-- What a poll tells of a step and what is still to be told is what was to be told, if the step
comes to a fragment. -/
theorem tells_poll (options : Options) (s : Step) (line : Timeline) :
    ∃ notes, line.Tells notes (s.poll options line).2 ∧
      ((s.poll options line).1.state.Fine options → s.Fine options ∧
        (notes ++ (s.poll options line).1.state.told options).Perm (s.told options)) := by
  cases s with
  | literal text => exact ⟨[], .refl line, fun _ => ⟨trivial, .refl _⟩⟩
  | finished result => exact ⟨[], .refl line, fun fine => ⟨fine, .refl _⟩⟩
  | resolving slot writing task =>
    obtain ⟨notes, reduces, tells, _⟩ := Task.poll_goesOn options task line
    rcases polled : task.poll options line with ⟨⟨t, again⟩, line'⟩
    rw [polled] at reduces tells
    rcases Task.settled_cases t with ⟨v, rfl⟩ | ⟨reason, rfl⟩ | unsettled
    · rw [poll_of_value polled]
      obtain ⟨settles, told⟩ := Task.told_of_done reduces
      refine ⟨_, tells.trans (tells_write options writing v line'), fun _ => ⟨⟨v, settles⟩, ?_⟩⟩
      rw [Step.told, Step.told, List.append_nil, ← Task.outcome_of_settles settles]
      · exact told.append_right _
      all_goals simp
    · rw [poll_of_error polled]
      exact ⟨notes, tells, fun fine => fine.elim⟩
    · rw [poll_of_unsettled polled unsettled]
      refine ⟨notes, tells, fun fine => ?_⟩
      obtain ⟨v, settles⟩ := fine
      have settles' : task.fate options = .settles v := reduces.fate.symm.trans settles
      refine ⟨⟨v, settles'⟩, ?_⟩
      rw [Step.told, Step.told, ← Task.outcome_of_settles settles,
        ← Task.outcome_of_settles settles', ← List.append_assoc]
      exact (reduces.told settles').append_right _

theorem told_wake (tick : Nat) (s : Step) : (s.wake tick).told options = s.told options := by
  cases s with
  | resolving slot writing task => simp only [wake, told, Task.told_wake, Task.outcome_wake]
  | _ => rfl

theorem fine_wake {tick : Nat} {s : Step} (fine : (s.wake tick).Fine options) : s.Fine options := by
  cases s with
  | resolving slot writing task =>
    obtain ⟨v, settles⟩ := fine
    exact ⟨v, (Task.fate_wake tick task).symm.trans settles⟩
  | _ => exact fine

end Step

/-! ## Streams -/

namespace Fragments

variable {steps : List Step} {start line last : Timeline} {given : Nat} {f g : Fragments}

/-- What has become of some steps, and what was told of them. -/
structure Accounts (options : Options) (steps : List Step) (start : Timeline) (given : Nat)
    (members : List Step) (line : Timeline) : Prop where
  length : members.length = steps.length
  given : ∀ i < given, ∃ text, members[i]? = some (.finished (.ok text))
  told : ∃ notes, start.Tells notes line ∧ ((∀ s ∈ members, s.Fine options) →
    (∀ s ∈ steps, s.Fine options) ∧
      (notes ++ members.flatMap (Step.told options)).Perm (steps.flatMap (Step.told options)))

theorem Accounts.set {members : List Step} {i : Nat} {s : Step}
    (h : Accounts options steps start given members line) (found : members[i]? = some s) :
    Accounts options steps start given (members.set i (s.poll options line).1.state)
      (s.poll options line).2 := by
  obtain ⟨bound, _⟩ := List.getElem?_eq_some_iff.mp found
  refine ⟨List.length_set.trans h.length, fun j before => ?_, ?_⟩
  · obtain ⟨text, gave⟩ := h.given j before
    by_cases same : i = j
    · -- A step that was given out is finished, and a poll leaves it as it is.
      subst same
      rw [found] at gave
      cases gave
      exact ⟨text, List.getElem?_set_self bound⟩
    · exact ⟨text, (List.getElem?_set_ne same).trans gave⟩
  · obtain ⟨notes, tells, account⟩ := h.told
    obtain ⟨notes', tells', polled⟩ := Step.tells_poll options s line
    refine ⟨notes ++ notes', tells.trans tells', fun fine => ?_⟩
    obtain ⟨here, told⟩ := polled (fine _ (List.mem_set bound _))
    obtain ⟨all, account⟩ := account fun t member => by
      obtain ⟨j, found'⟩ := List.getElem?_of_mem member
      by_cases same : i = j
      · subst same
        rw [found] at found'
        cases found'
        exact here
      · exact fine t (List.mem_of_getElem? ((List.getElem?_set_ne same).trans found'))
    refine ⟨all, ?_⟩
    rw [List.append_assoc]
    exact ((Task.flatMap_set_perm found told).append_left notes).trans account

/-- A stream that has given out some fragments and has not failed. -/
structure Sending (options : Options) (steps : List Step) (start : Timeline) (given : Nat)
    (f : Fragments) (line : Timeline) : Prop where
  going : f.failed = false
  place : f.given = given
  account : Accounts options steps start given f.steps line

/-- What holds when a stream that has given out some fragments is asked for the next one. -/
def Sent (options : Options) (steps : List Step) (start : Timeline) (given : Nat) (f : Fragments) :
    Option Item → Timeline → Prop
  | none, line => f.steps.length ≤ given ∧ Sending options steps start given f line
  | some (.ok _), line => given < f.steps.length ∧ Sending options steps start (given + 1) f line
  | some (.error _), _ => True

theorem sent_give (h : Sending options steps start given f line) {item : Item}
    (front : front? f.given f.steps = some item) :
    Waiting.Replied (Sending options steps start given) (Sent options steps start given)
      (f.give item line) := by
  cases item with
  | error error => exact trivial
  | ok text =>
    obtain ⟨s, found, result⟩ := Option.bind_eq_some_iff.mp front
    obtain ⟨bound, _⟩ := List.getElem?_eq_some_iff.mp found
    rw [h.place] at found bound
    refine ⟨bound, h.going, congrArg (· + 1) h.place, h.account.length, fun i before => ?_,
      h.account.told⟩
    rcases Nat.lt_succ_iff_lt_or_eq.mp before with before | rfl
    · exact h.account.given i before
    · cases s with
      | finished other =>
        cases result
        exact ⟨text, found⟩
      | _ => cases result

theorem keeps_sending (options : Options) (steps : List Step) (start : Timeline) (given : Nat) :
    (waiting options).Keeps (Sending options steps start given)
      (Sent options steps start given) where
  poll {f line} sending := by
    show Waiting.Replied _ _ (poll options f line)
    by_cases ended : f.steps.length ≤ f.given
    · rw [poll_of_ended (.inr ended)]
      exact ⟨sending.place ▸ ended, sending⟩
    · have left : f.given < f.steps.length := Nat.lt_of_not_le ended
      cases front : front? f.given f.steps with
      | some item =>
        rw [poll_of_front sending.going left front]
        exact sent_give sending front
      | none =>
        have account := Queue.pollInTurn_invariant (Accounts options steps start given)
          (fun h found => h.set found) (fun step => step.result?.isSome)
          (fun steps => (front? f.given steps).isSome) ⟨f.steps, f.ready⟩ sending.account
        rcases polled : Queue.pollInTurn (Step.poll options) (fun step => step.result?.isSome)
          (fun steps => (front? f.given steps).isSome) ⟨f.steps, f.ready⟩ line with ⟨p, line'⟩
        rw [polled] at account
        rw [poll_of_turns sending.going left front polled]
        have sending' : Sending options steps start given
            { f with steps := p.state.members, ready := p.state.ready } line' :=
          ⟨sending.going, sending.place, account⟩
        cases front' : front? f.given p.state.members with
        | some item => exact sent_give sending' front'
        | none => cases p.again <;> exact sending'
  wake {f line due} sending _ := by
    obtain ⟨going, place, length, gave, notes, tells, account⟩ := sending
    refine ⟨going, place, (List.length_map _).trans length, fun i before => ?_, notes, tells,
      fun fine => ?_⟩
    · obtain ⟨text, found⟩ := gave i before
      exact ⟨text, by simp [waiting, found, Step.wake]⟩
    · have told : (f.steps.map (Step.wake due)).flatMap (Step.told options) =
          f.steps.flatMap (Step.told options) := by
        rw [List.flatMap_map]
        exact List.flatMap_congr fun s _ => Step.told_wake due s
      rw [show ((waiting options).wake due f).steps = f.steps.map (Step.wake due) from rfl, told]
      exact account fun s member => Step.fine_wake (fine _ (List.mem_map.mpr ⟨s, member, rfl⟩))

/-- Once all fragments were given out, all that was due has been told of the steps. -/
theorem Accounts.complete {members : List Step}
    (h : Accounts options steps start given members line) (all : members.length ≤ given) :
    (∀ s ∈ steps, s.Fine options) ∧
      ∃ notes, start.Tells notes line ∧ notes.Perm (steps.flatMap (Step.told options)) := by
  have finished : ∀ s ∈ members, ∃ text, s = .finished (.ok text) := by
    intro s member
    obtain ⟨i, found⟩ := List.getElem?_of_mem member
    obtain ⟨bound, _⟩ := List.getElem?_eq_some_iff.mp found
    obtain ⟨text, gave⟩ := h.given i (Nat.lt_of_lt_of_le bound all)
    rw [found] at gave
    exact ⟨text, Option.some.inj gave⟩
  obtain ⟨notes, tells, account⟩ := h.told
  obtain ⟨fine, told⟩ := account fun s member => by
    obtain ⟨text, rfl⟩ := finished s member
    exact trivial
  have silent : members.flatMap (Step.told options) = [] :=
    List.flatMap_eq_nil_iff.mpr fun s member => by
      obtain ⟨text, rfl⟩ := finished s member
      rfl
  rw [silent, List.append_nil] at told
  exact ⟨fine, notes, tells, told⟩

theorem tells_drainWithin (count : Nat) (sending : Sending options steps start given f line)
    (enough : f.steps.length < given + count) {sent : List (Nat × Text)}
    (drained : f.drainWithin options count line = ((sent, .complete), last)) :
    (∀ s ∈ steps, s.Fine options) ∧
      ∃ notes, start.Tells notes last ∧ notes.Perm (steps.flatMap (Step.told options)) := by
  -- With each request that is left one more fragment is given out, so there are enough for all.
  induction count generalizing given f line sent with
  | zero =>
    cases drained
    exact sending.account.complete (Nat.le_of_lt enough)
  | succ count ih =>
    rcases next : f.next options line with ⟨⟨g, said⟩, line'⟩
    simp only [drainWithin, Live.bind_apply, next] at drained
    cases said with
    | none => cases drained
    | some item =>
      have came := (keeps_sending options steps start given).await sending next
      cases item with
      | none =>
        cases drained
        exact came.2.account.complete came.1
      | some item =>
        cases item with
        | error error => cases drained
        | ok text =>
          rcases others : g.drainWithin options count line' with ⟨⟨rest, ending⟩, line''⟩
          simp only [Live.bind_apply, Live.now, others] at drained
          cases drained
          have length := came.2.account.length.trans sending.account.length.symm
          exact ih came.2 (by omega) others

/-- Of a stream that gives out all its fragments has been told what was due of its steps. -/
theorem tells_drain {sent : List (Nat × Text)}
    (drained : (ofSteps steps).drain options start = ((sent, .complete), last)) :
    (∀ s ∈ steps, s.Fine options) ∧
      ∃ notes, start.Tells notes last ∧ notes.Perm (steps.flatMap (Step.told options)) := by
  refine tells_drainWithin _ ⟨rfl, rfl, rfl, fun i before => absurd before (Nat.not_lt_zero i),
    [], .refl start, fun fine => ⟨fine, .refl _⟩⟩ ?_ drained
  rw [remaining_ofSteps]
  show steps.length < 0 + (steps.length + 1)
  omega

end Fragments

end HtmlTemplate

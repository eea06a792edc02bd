import HtmlTemplate.Proofs.Render.Step

/-!
# Fragments come in order

The steps of a page are polled side by side, in whatever order their timers ring, and each item is
held back until everything before it has been given out. A `Course` is anything that polls and
timers keep of each step in its place, and `OnTheWay` is what every moment of a stream keeps then. A
request of a reader is answered by the next step, with what the course knows of it
(`next_of_onTheWay`).

Without markers, one such course is that each step still comes to what it comes to alone
(`Course.ofResults`).
-/

namespace HtmlTemplate

variable {options : Options}

/-- What is kept of the steps of a stream, by their places: of a step whose turn is to come, and of
any other one, which has its result or waits for a timer. -/
structure Course (options : Options) where
  turn : Nat → Nat → Step → Prop
  rest : Nat → Nat → Step → Prop
  asks : ∀ {line s i}, s.Ready line → turn line.now i s →
    (Step.poll options s line).1.state.result? = none → (Step.poll options s line).1.again = true →
    turn line.now i (Step.poll options s line).1.state
  leaves : ∀ {line s i}, s.Ready line → turn line.now i s →
    (Step.poll options s line).1.state.result?.isSome = true ∨
      (Step.poll options s line).1.again = false →
    rest line.now i (Step.poll options s line).1.state
  quiet : ∀ {now i s}, rest now i s → s.result? = none → s.Quiet now
  rings : ∀ {now i s due}, rest now i s → s.result? = none → s.task.nextDue? = some due →
    now < due → turn due i (s.wake due)
  stays : ∀ {now i s tick}, rest now i s → s.task.ringing? tick = none → now ≤ tick → rest tick i s

namespace Course

/-- What a poll does to a step on a course. -/
structure Follows (course : Course options) (now : Nat) (s : Step) (p : Polled Step) : Prop where
  calm : Step.Calms options now s p
  asks : ∀ i, course.turn now i s → p.state.result? = none → p.again = true →
    course.turn now i p.state
  leaves : ∀ i, course.turn now i s → p.state.result?.isSome = true ∨ p.again = false →
    course.rest now i p.state

theorem polls_follows (course : Course options) (now : Nat) :
    Polls (Step.poll options) (fun line s => line.now = now ∧ s.Ready line)
      (course.Follows now) := by
  have calm := Step.polls_calm options now
  refine ⟨calm.keeps, calm.later, calm.holds, fun {line s} ready => ?_⟩
  have effect := calm.effect ready
  obtain ⟨rfl, ready⟩ := ready
  exact ⟨effect, fun i turn => course.asks ready turn, fun i turn => course.leaves ready turn⟩

end Course

namespace Fragments

/-- The steps of a stream keep to a course. -/
structure OnTheWay {options : Options} (course : Course options) (count : Nat) (line : Timeline)
    (f : Fragments) : Prop where
  going : f.failed = false
  length : f.steps.length = count
  ready : ∀ s ∈ f.steps, s.Ready line
  fit : Queue.Fit (fun s : Step => s.result?.isSome) ⟨f.steps, f.ready⟩
  holds : Queue.Holds (course.turn line.now) (course.rest line.now) ⟨f.steps, f.ready⟩

/-- All steps of a stream as one task. -/
def task (f : Fragments) : Task := .group (f.steps.map Step.task) (some f.ready)

/-- Nothing is left to do before the next timer rings. -/
def Quiet (now : Nat) (f : Fragments) : Prop := f.task.Quiet now

variable {course : Course options} {count : Nat} {line : Timeline} {f : Fragments}

/-! ## A poll -/

/-- What is left after some turns of a stream that is on its way. -/
structure Goes (course : Course options) (count : Nat) (line : Timeline) (f g : Fragments)
    (line' : Timeline) : Prop where
  later : line.Later line'
  onTheWay : OnTheWay course count line' g
  given : g.given = f.given
  settles : g.task.settledBy options line.now ≤ f.task.settledBy options line.now

theorem Goes.refl (h : OnTheWay course count line f) : Goes course count line f f line :=
  ⟨.refl line, h, rfl, Nat.le_refl _⟩

/-- Polling the steps in turn asks for another poll only with less to do. -/
theorem lowers_pollInTurn (options : Options) (ends : List Step → Bool) (q : Queue Step)
    (line : Timeline) {p : Polled (Queue Step)} {line' : Timeline}
    (polled : Queue.pollInTurn (Step.poll options) (fun s => s.result?.isSome) ends q line =
      (p, line'))
    (again : p.again = true) :
    p.state.ready.length + Task.totalSize options (p.state.members.map Step.task) <
      q.ready.length + Task.totalSize options (q.members.map Step.task) := by
  have lessens : Polls (Step.poll options) (fun _ _ => True) fun (s : Step) (p : Polled Step) =>
      p.state.task.size options ≤ s.task.size options ∧
        (p.again = true → p.state.task.size options < s.task.size options) :=
    ⟨fun _ _ => trivial, fun _ => (Step.lessens_poll options _ _).later, fun _ => trivial, fun _ =>
      ⟨(Step.lessens_poll options _ _).size, (Step.lessens_poll options _ _).again⟩⟩
  obtain ⟨n, turned, asks⟩ :=
    Queue.turned_pollInTurn (fun s : Step => s.result?.isSome) ends lessens q
    line fun _ _ => trivial
  rw [polled] at turned asks
  have weight := turned.visits.weight (fun s : Step => s.task.size options) fun effect => effect
  have positive := asks again
  rw [Task.totalSize_eq_sum, Task.totalSize_eq_sum, List.map_map, List.map_map]
  replace weight : p.state.ready.length +
      (p.state.members.map (Task.size options ∘ Step.task)).sum + n ≤
        q.ready.length + (q.members.map (Task.size options ∘ Step.task)).sum := weight
  omega

/-- Polling the steps in turn keeps a stream on its way. When it does not ask for another poll, and
the next item is not there, no step is left to poll. -/
theorem goes_pollInTurn (h : OnTheWay course count line f) (ends : List Step → Bool) :
    ∃ p line', Queue.pollInTurn (Step.poll options) (fun s => s.result?.isSome) ends
        ⟨f.steps, f.ready⟩ line = (p, line') ∧
      Goes course count line f { f with steps := p.state.members, ready := p.state.ready } line' ∧
      (p.again = true → p.state.ready.length +
        Task.totalSize options (p.state.members.map Step.task) <
          f.ready.length + Task.totalSize options (f.steps.map Step.task)) ∧
      Queue.Idle ends p := by
  obtain ⟨_, turned, _⟩ := Queue.turned_pollInTurn (fun s : Step => s.result?.isSome) ends
    (course.polls_follows line.now) ⟨f.steps, f.ready⟩ line fun s member => ⟨rfl, h.ready s member⟩
  have idle := Queue.idle_pollInTurn (Step.poll options) ends ⟨f.steps, f.ready⟩ line h.fit
  have lowers := @lowers_pollInTurn options ends ⟨f.steps, f.ready⟩ line
  have length : (Queue.pollInTurn (Step.poll options) (fun s => s.result?.isSome) ends
      ⟨f.steps, f.ready⟩ line).1.state.members.length = f.steps.length :=
    Queue.length_pollInTurn _ _
  generalize Queue.pollInTurn (Step.poll options) (fun s => s.result?.isSome) ends
    ⟨f.steps, f.ready⟩ line = out at turned idle lowers length
  obtain ⟨p, line'⟩ := out
  obtain ⟨visits, later, kept⟩ := turned
  refine ⟨p, line', rfl, ⟨later, ⟨h.going, length.trans h.length, fun s member => (kept s member).2,
    visits.fit h.fit, ?_⟩, rfl, ?_⟩, lowers rfl, idle⟩
  · rw [later.1]
    refine visits.holds (fun turn effect leaves => effect.leaves _ turn leaves)
      (fun turn effect unsettled again => effect.asks _ turn (by simpa using unsettled) again)
      h.fit h.holds
  · refine Task.allSettledBy_le (Task.le_allSettledBy _ _) fun t member => ?_
    obtain ⟨s, inside, rfl⟩ := List.mem_map.mp member
    refine visits.each (P := fun s => s.task.settledBy options line.now ≤ _)
      (fun le effect => Nat.le_trans effect.calm.settles le) (fun s member => ?_) s inside
    exact Task.settledBy_le_all (List.mem_map.mpr ⟨s, member, rfl⟩)

/-- After the end nothing is polled any more. -/
theorem poll_of_ended (h : f.failed = true ∨ f.steps.length ≤ f.given) (line : Timeline) :
    poll options f line = ((f, .said none), line) := by
  have ended : (f.failed || f.steps.length ≤ f.given) = true := by
    rcases h with failed | given
    · simp [failed]
    · simp [given]
  unfold poll
  rw [if_pos ended]
  rfl

/-- The next item is given out as soon as it is there. -/
theorem poll_of_front (going : f.failed = false) (left : f.given < f.steps.length) {item : Item}
    (front : front? f.given f.steps = some item) : poll options f line = f.give item line := by
  have goes : (f.failed || f.steps.length ≤ f.given) = false := by simp [going, left]
  unfold poll
  rw [goes, front]
  rfl

/-- Otherwise the steps are polled, and after that it may be there. -/
theorem poll_of_turns {line' : Timeline} {p : Polled (Queue Step)} (going : f.failed = false)
    (left : f.given < f.steps.length) (front : front? f.given f.steps = none)
    (polled : Queue.pollInTurn (Step.poll options) (fun step => step.result?.isSome)
      (fun steps => (front? f.given steps).isSome) ⟨f.steps, f.ready⟩ line = (p, line')) :
    poll options f line =
      match front? f.given p.state.members with
      | some item => { f with steps := p.state.members, ready := p.state.ready }.give item line'
      | none =>
        (({ f with steps := p.state.members, ready := p.state.ready }, .nothing p.again),
          line') := by
  have goes : (f.failed || f.steps.length ≤ f.given) = false := by simp [going, left]
  unfold poll
  rw [goes, front]
  simp only [Bool.false_eq_true, if_false, Live.bind_apply, polled]
  cases front? f.given p.state.members <;> rfl

theorem rest_front (h : OnTheWay course count line f) {item : Item}
    (front : front? f.given f.steps = some item) :
    course.rest line.now f.given (.finished item) := by
  obtain ⟨s, found, result⟩ := Option.bind_eq_some_iff.mp front
  have outside : f.given ∉ f.ready := by
    intro member
    obtain ⟨t, found', unsettled⟩ := h.fit.unsettled f.given member
    rw [found] at found'
    cases found'
    simp [result] at unsettled
  have came := (h.holds f.given s found).2 outside
  cases s with
  | finished other =>
    cases result
    exact came
  | _ => cases result

/-- What a poll of a stream does: the next item is given out as soon as it is there. -/
inductive Outcome (course : Course options) (count : Nat) (line : Timeline) (f : Fragments) :
    (Fragments × Reply (Option Item)) × Timeline → Prop
  | ended : f.failed = true ∨ f.steps.length ≤ f.given →
      Outcome course count line f ((f, .said none), line)
  | gives {g line' text} : Goes course count line f g line' → g.given < g.steps.length →
      course.rest line'.now g.given (.finished (.ok text)) →
      Outcome course count line f
        (({ g with given := g.given + 1 }, .said (some (.ok text))), line')
  | fails {g line' error} : Goes course count line f g line' → g.given < g.steps.length →
      course.rest line'.now g.given (.finished (.error error)) →
      Outcome course count line f ((⟨[], 0, [], true⟩, .said (some (.error error))),
        (Live.note (.streamAborted error) line').2)
  | nothing {g line' again} : Goes course count line f g line' → g.given < g.steps.length →
      front? g.given g.steps = none →
      (again = true → (waiting options).turns g < (waiting options).turns f) →
      (again = false → g.ready = []) →
      Outcome course count line f ((g, .nothing again), line')

theorem outcome_give {g : Fragments} {line' : Timeline}
    (goes : Goes course count line f g line') (left : g.given < g.steps.length) {item : Item}
    (front : front? g.given g.steps = some item) :
    Outcome course count line f (g.give item line') := by
  have result := rest_front goes.onTheWay front
  cases item with
  | ok text => exact .gives goes left result
  | error error => exact .fails goes left result

/-- A stream that may be polled: it has failed, or is on its way. -/
def Ready (course : Course options) (count : Nat) (line : Timeline) (f : Fragments) : Prop :=
  f.failed = true ∨ OnTheWay course count line f

theorem outcome_poll (h : Ready course count line f) :
    Outcome course count line f (poll options f line) := by
  by_cases ended : f.failed = true ∨ f.steps.length ≤ f.given
  · rw [poll_of_ended ended]
    exact .ended ended
  · have left : f.given < f.steps.length := Nat.lt_of_not_le fun le => ended (.inr le)
    replace h : OnTheWay course count line f :=
      h.resolve_left fun failed => ended (.inl failed)
    cases front : front? f.given f.steps with
    | some item =>
      rw [poll_of_front h.going left front]
      exact outcome_give (.refl h) left front
    | none =>
      obtain ⟨p, line', polled, goes, lowers, idle⟩ :=
        goes_pollInTurn h fun steps => (front? f.given steps).isSome
      have left' : f.given < p.state.members.length :=
        Nat.lt_of_lt_of_le left (Nat.le_of_eq (h.length.trans goes.onTheWay.length.symm))
      rw [poll_of_turns h.going left front polled]
      cases front' : front? f.given p.state.members with
      | some item => exact outcome_give goes left' front'
      | none =>
        refine .nothing goes left' front' lowers fun silent => ?_
        refine (idle silent).resolve_right fun ended => ?_
        replace ended : (front? f.given p.state.members).isSome = true := ended
        rw [front'] at ended
        cases ended

/-- A poll takes no time. -/
theorem Outcome.later {out : (Fragments × Reply (Option Item)) × Timeline}
    (outcome : Outcome course count line f out) : line.Later out.2 := by
  cases outcome with
  | ended => exact .refl line
  | gives goes => exact goes.later
  | fails goes => exact goes.later.trans (Live.later_record _ _)
  | nothing goes => exact goes.later

/-- A poll that asks for another one has brought the steps on their way. -/
theorem goes_of_again {g : Fragments} {line' : Timeline} (h : Ready course count line f)
    (polled : (waiting options).poll f line = ((g, .again), line')) :
    Goes course count line f g line' ∧ g.given < g.steps.length ∧
      (waiting options).turns g < (waiting options).turns f := by
  have outcome := outcome_poll h
  replace polled : poll options f line = ((g, .again), line') := polled
  rw [polled] at outcome
  generalize said : Reply.again = reply at outcome
  cases outcome with
  | @nothing _ _ again goes left _ lowers _ =>
    cases again with
    | true => exact ⟨goes, left, lowers rfl⟩
    | false => cases said
  | _ => cases said

/-- A stream after a poll that leaves it waiting for a timer. -/
structure Waits (course : Course options) (count : Nat) (line : Timeline) (f g : Fragments)
    (line' : Timeline) : Prop where
  goes : Goes course count line f g line'
  left : g.given < g.steps.length
  front : front? g.given g.steps = none
  nobody : g.ready = []

theorem waits_of_waiting {g : Fragments} {line' : Timeline} (h : Ready course count line f)
    (polled : (waiting options).poll f line = ((g, .waiting), line')) :
    Waits course count line f g line' := by
  have outcome := outcome_poll h
  replace polled : poll options f line = ((g, .waiting), line') := polled
  rw [polled] at outcome
  generalize said : Reply.waiting = reply at outcome
  cases outcome with
  | @nothing _ _ again goes left front _ empty =>
    cases again with
    | true => cases said
    | false => exact ⟨goes, left, front, empty rfl⟩
  | _ => cases said

theorem OnTheWay.give (h : OnTheWay course count line f) :
    OnTheWay course count line { f with given := f.given + 1 } :=
  ⟨h.going, h.length, h.ready, h.fit, h.holds⟩

/-! ## Waiting -/

/-- When timers ring, the steps that they ring for join the queue. -/
theorem mem_ready_wake (options : Options) {tick i : Nat} :
    i ∈ ((waiting options).wake tick f).ready ↔
      i ∈ f.ready ∨ ∃ s, f.steps[i]? = some s ∧ s.task.ringing? tick ≠ none := by
  show i ∈ Group.wakeReady tick (f.steps.map Step.task) f.ready ↔ _
  rw [Task.mem_wakeReady]
  simp

theorem fit_wake (options : Options)
    (fit : Queue.Fit (fun s : Step => s.result?.isSome) ⟨f.steps, f.ready⟩) (tick : Nat) :
    Queue.Fit (fun s : Step => s.result?.isSome)
      ⟨((waiting options).wake tick f).steps, ((waiting options).wake tick f).ready⟩ := by
  refine ⟨Task.nodup_wakeReady fit.nodup tick _, fun i member => ?_⟩
  have woken : ∀ {s : Step}, f.steps[i]? = some s → s.result?.isSome = false →
      ∃ t, (f.steps.map (Step.wake tick))[i]? = some t ∧ t.result?.isSome = false :=
    fun {s} found unsettled => ⟨s.wake tick, by simp [found], by simpa using unsettled⟩
  rcases (mem_ready_wake options).mp member with member | ⟨s, found, rings⟩
  · obtain ⟨s, found, unsettled⟩ := fit.unsettled i member
    exact woken found unsettled
  · exact woken found (by simp [Step.result?_of_ringing rings])

/-- Whoever is not in the queue then was not there before, and no timer has rung for him. -/
theorem stays_of_not_ready (options : Options) {tick i : Nat} {s : Step}
    (found : f.steps[i]? = some s) (outside : i ∉ ((waiting options).wake tick f).ready) :
    i ∉ f.ready ∧ s.task.ringing? tick = none := by
  obtain ⟨absent, silent⟩ := not_or.mp (mt (mem_ready_wake options).mpr outside)
  exact ⟨absent, Classical.byContradiction fun rings => silent ⟨s, found, rings⟩⟩

/-- At first every step is in the queue. -/
theorem mem_ready_ofSteps {steps : List Step} {i : Nat} {s : Step}
    (found : (ofSteps steps).steps[i]? = some s) : i ∈ (ofSteps steps).ready := by
  obtain ⟨bound, _⟩ := List.getElem?_eq_some_iff.mp found
  exact List.mem_range.mpr bound

theorem fit_ofSteps {steps : List Step} (unsettled : ∀ s ∈ steps, s.result? = none) :
    Queue.Fit (fun s : Step => s.result?.isSome)
      ⟨(ofSteps steps).steps, (ofSteps steps).ready⟩ := by
  refine ⟨List.nodup_range, fun i member => ?_⟩
  have bound : i < steps.length := List.mem_range.mp member
  refine ⟨steps[i], List.getElem?_eq_getElem bound, ?_⟩
  simp [unsettled _ (List.getElem_mem bound)]

/-- When nobody is left to poll, everybody waits. -/
theorem OnTheWay.quiet (h : OnTheWay course count line f) (empty : f.ready = []) :
    Quiet line.now f := by
  refine .group (fun t member => ?_) empty
  obtain ⟨s, inside, rfl⟩ := List.mem_map.mp member
  obtain ⟨i, found⟩ := List.mem_iff_getElem?.mp inside
  have outside : i ∉ f.ready := by simp [empty]
  have rest := (h.holds i s found).2 outside
  cases s with
  | resolving slot writing task => exact course.quiet rest rfl
  | _ => exact .done

/-- When the next timer has rung, the steps keep to their course. -/
theorem OnTheWay.wake (h : OnTheWay course count line f) (quiet : Quiet line.now f) {due : Nat}
    (next : (waiting options).nextDue? f = some due) :
    OnTheWay course count (Live.setClock due line).2 ((waiting options).wake due f) := by
  obtain ⟨_, least⟩ := Task.nextDueAmong?_eq_some next
  have after : line.now < due := (Task.Quiet.nextDue? quiet options next).1
  have empty : f.ready = [] := by
    cases quiet with
    | group _ empty => exact empty
  have each : ∀ s ∈ f.steps, s.Quiet line.now := by
    intro s member
    cases quiet with
    | group each _ => exact each _ (List.mem_map.mpr ⟨s, member, rfl⟩)
  refine ⟨h.going, (List.length_map _).trans h.length, fun s member => ?_,
    fit_wake options h.fit due, fun i s found => ?_⟩
  · obtain ⟨s, inside, rfl⟩ := List.mem_map.mp member
    show Task.Ready _ (s.wake due).task
    rw [Step.task_wake]
    exact (h.ready s inside).wake (each s inside)
      (least s.task (List.mem_map.mpr ⟨s, inside, rfl⟩))
  · obtain ⟨t, before, rfl⟩ : ∃ t, f.steps[i]? = some t ∧ t.wake due = s := by
      simpa [waiting] using found
    have rest := (h.holds i t before).2 (by simp [empty])
    refine ⟨fun member => ?_, fun outside => ?_⟩
    · obtain ⟨t', before', rings⟩ :=
        ((mem_ready_wake options).mp member).resolve_left (by simp [empty])
      obtain rfl : t = t' := Option.some.inj (before.symm.trans before')
      obtain ⟨first, nextDue, le⟩ : ∃ first, t.task.nextDue? = some first ∧ first ≤ due := by
        refine Classical.byContradiction fun none => rings (Task.ringing?_eq_none.mpr ?_)
        exact fun first nextDue => Nat.lt_of_not_le fun le => none ⟨first, nextDue, le⟩
      have same :=
        least t.task (List.mem_map.mpr ⟨t, List.mem_of_getElem? before, rfl⟩) first nextDue
      obtain rfl : first = due := Nat.le_antisymm le same
      exact course.rings rest (Step.result?_of_ringing rings) nextDue after
    · obtain ⟨_, silent⟩ := stays_of_not_ready options before outside
      rw [Step.wake_of_silent silent]
      exact course.stays rest silent (Nat.le_of_lt after)

theorem sound_waiting (course : Course options) (count : Nat) :
    (waiting options).Sound (Ready course count) Quiet where
  again ready polled := by
    obtain ⟨goes, _, lowers⟩ := goes_of_again ready polled
    exact ⟨goes.later, .inr goes.onTheWay, lowers, goes.settles⟩
  waiting ready polled := by
    obtain ⟨goes, _, _, nobody⟩ := waits_of_waiting ready polled
    exact ⟨goes.later, .inr goes.onTheWay, goes.later.1 ▸ goes.onTheWay.quiet nobody, goes.settles⟩
  due quiet found := Task.Quiet.nextDue? quiet options found
  wake {line f due} ready quiet found := by
    have bounds := Task.Quiet.nextDue? quiet options found
    refine ⟨?_, ?_⟩
    · rcases ready with failed | onTheWay
      · exact .inl failed
      · exact .inr (onTheWay.wake quiet found)
    · have woken : ((waiting options).wake due f).task = f.task.wake due := by
        simp only [task, waiting, Task.wake, Task.wakeEach_eq_map, List.map_map, Option.map_some]
        congr 2
        exact funext fun s => Step.task_wake due s
      show Task.settledBy options due ((waiting options).wake due f).task ≤ _
      rw [woken, Task.settledBy_wake]
      exact Nat.le_trans (Task.Quiet.settledBy_le quiet due)
        (Nat.max_le.mpr ⟨bounds.2, Nat.le_refl _⟩)

/-! ## Requests -/

/-- Nothing can be given out, and there is nothing to wait for. -/
structure Stuck (f : Fragments) : Prop where
  going : f.failed = false
  left : f.given < f.steps.length
  front : front? f.given f.steps = none
  nobody : f.ready = []
  never : Task.nextDueAmong? (f.steps.map Step.task) = none

/-- The answer to a request: the result of the next step, if it has one. -/
inductive Answered (course : Course options) (count : Nat) (f : Fragments) (line : Timeline) :
    Fragments → Option (Option Item) → Timeline → Prop
  | ended : f.steps.length ≤ f.given → Answered course count f line f (some none) line
  | gives {g text line'} : f.given < count → course.rest line'.now f.given (.finished (.ok text)) →
      OnTheWay course count line' g → g.given = f.given + 1 →
      Answered course count f line g (some (some (.ok text))) line'
  | fails {error line'} : f.given < count →
      course.rest line'.now f.given (.finished (.error error)) →
      Answered course count f line ⟨[], 0, [], true⟩ (some (some (.error error))) line'
  | stalls {g line' s} : f.given < count → course.rest line'.now f.given s → s.result? = none →
      s.task.nextDue? = none → Stuck g → Answered course count f line g none line'

theorem Answered.of_goes {f g h : Fragments} {line line' last : Timeline} {o : Option (Option Item)}
    (given : g.given = f.given) (left : g.given < g.steps.length)
    (answered : Answered course count g line' h o last) :
    Answered course count f line h o last := by
  cases answered with
  | ended passed => omega
  | gives inside rest onTheWay next =>
    exact .gives (given ▸ inside) (given ▸ rest) onTheWay (given ▸ next)
  | fails inside rest => exact .fails (given ▸ inside) (given ▸ rest)
  | stalls inside rest waits none stuck =>
    exact .stalls (given ▸ inside) (given ▸ rest) waits none stuck

/-- A stream that waits for nothing has a next step that waits for nothing. -/
theorem exists_waiting (left : f.given < f.steps.length) (front : front? f.given f.steps = none)
    (never : Task.nextDueAmong? (f.steps.map Step.task) = none) :
    ∃ s, f.steps[f.given]? = some s ∧ s.result? = none ∧ s.task.nextDue? = none := by
  have found := List.getElem?_eq_getElem left
  refine ⟨f.steps[f.given], found, ?_, ?_⟩
  · rw [front?, found] at front
    exact front
  · rw [Task.nextDueAmong?_eq, Task.earliest_eq_none] at never
    exact never _ (List.mem_map.mpr ⟨_, List.mem_map.mpr ⟨_, List.getElem_mem left, rfl⟩, rfl⟩)

/-- However the wait for the next item goes, it ends with the result of the next step. -/
theorem answered_of_runs {f' : Fragments} {o : Option (Option Item)} {line' : Timeline}
    (h : OnTheWay course count line f) (run : (waiting options).Runs f line f' o line') :
    Answered course count f line f' o line' := by
  induction run with
  | @said f line f' item line' polled =>
    have outcome := outcome_poll (.inr h)
    replace polled : poll options f line = ((f', .said item), line') := polled
    rw [polled] at outcome
    generalize said : Reply.said item = reply at outcome
    cases outcome with
    | ended passed =>
      cases said
      exact .ended (passed.resolve_left (by simp [h.going]))
    | gives goes left rest =>
      cases said
      have inside := goes.onTheWay.length ▸ left
      exact .gives (goes.given ▸ inside) (goes.given ▸ rest) goes.onTheWay.give
        (by simp [goes.given])
    | fails goes left rest =>
      cases said
      have inside := goes.onTheWay.length ▸ left
      exact .fails (goes.given ▸ inside) (goes.given ▸ rest)
    | @nothing _ _ again => cases again <;> cases said
  | again polled _ ih =>
    obtain ⟨goes, left, _⟩ := goes_of_again (.inr h) polled
    exact (ih goes.onTheWay).of_goes goes.given left
  | stalled polled none =>
    obtain ⟨goes, left, front, nobody⟩ := waits_of_waiting (.inr h) polled
    obtain ⟨s, found, waits, never⟩ := exists_waiting left front none
    have rest := (goes.onTheWay.holds _ s found).2 (by simp [nobody])
    have inside := goes.onTheWay.length ▸ left
    exact .stalls (goes.given ▸ inside) (goes.given ▸ rest) waits never
      ⟨goes.onTheWay.going, left, front, nobody, none⟩
  | @woken f line f' line' due f'' o line'' polled some _ ih =>
    obtain ⟨goes, left, _, nobody⟩ := waits_of_waiting (.inr h) polled
    have woken := goes.onTheWay.wake (goes.onTheWay.quiet nobody) some
    have same : ((waiting options).wake due f').given = f.given := goes.given
    exact (ih woken).of_goes same (by simpa [waiting] using left)

/-- A request of a stream that is on its way is answered by the result of the next step. -/
theorem next_of_onTheWay (h : OnTheWay course count line f) :
    ∃ f' o line', (waiting options).Runs f line f' o line' ∧
      Answered course count f line f' o line' ∧
      next options f line = ((f', o), if o.isNone then (Live.runOut line').2 else line') := by
  obtain ⟨f', o, line', run, result⟩ :=
    Waiting.await_runs (sound_waiting course count) f line (.inr h)
  exact ⟨f', o, line', run, answered_of_runs h run, result⟩

theorem next_of_ended (h : f.failed = true ∨ f.steps.length ≤ f.given) (line : Timeline) :
    next options f line = ((f, some none), line) :=
  Waiting.await_of_said (poll_of_ended h line)

theorem next_of_stuck (h : Stuck f) (line : Timeline) :
    next options f line = ((f, none), (Live.runOut line).2) := by
  have nobody : Queue.pollInTurn (Step.poll options) (fun step => step.result?.isSome)
      (fun steps => (front? f.given steps).isSome) ⟨f.steps, f.ready⟩ line =
        (.quiet ⟨f.steps, f.ready⟩, line) := by
    rw [h.nobody]
    simp only [Queue.pollInTurn]
    cases List.countP _ f.steps <;> rfl
  refine Waiting.await_of_stuck ?_ h.never
  show poll options f line = _
  rw [poll_of_turns h.going h.left h.front nobody]
  simp only [Polled.quiet, h.front]
  rfl

end Fragments

/-! ## The course of results -/

namespace Course

variable {results : List (Option Fragments.Item)}

/-- Each step comes to its result, whatever else is on the way; a step that waits for a timer does
once that has rung. -/
def ofResults (plain : options.adoptable = false) (results : List (Option Fragments.Item)) :
    Course options where
  turn now i s := ∀ o, results[i]? = some o → s.Promises options now o
  rest now i s := (s.result? = none → s.Quiet now) ∧ ∀ o, results[i]? = some o →
    match s.result? with
    | some item => o = some item
    | none => s.PromisesLater options o
  asks {line s i} ready turn none again o found := by
    have kept := Step.keeps_poll plain ready o (turn o found)
    rw [Step.reply_eq_again.mpr ⟨none, again⟩] at kept
    exact kept
  leaves {line s i} ready turn leaves := by
    have quiet := ((Step.polls_calm options line.now).effect (s := s) ⟨rfl, ready⟩).quiet
    have silent : (Step.poll options s line).1.state.result? = none →
        (Step.poll options s line).1.again = false := fun none =>
      leaves.resolve_left (by simp [none])
    refine ⟨fun none => quiet (silent none), fun o found => ?_⟩
    have kept := Step.keeps_poll plain ready o (turn o found)
    cases result : (Step.poll options s line).1.state.result? with
    | some item =>
      rw [Step.reply_eq_said.mpr result] at kept
      exact kept
    | none =>
      rw [Step.reply_eq_waiting.mpr ⟨result, silent result⟩] at kept
      exact kept
  quiet rest none := rest.1 none
  rings {now i s due} rest none next _ o found := by
    have later := rest.2 o found
    rw [none] at later
    simp only [Step.PromisesLater, next] at later
    exact later
  stays {now i s tick} rest silent _ :=
    ⟨fun none => Task.Quiet.of_silent (rest.1 none) silent, rest.2⟩

variable {plain : options.adoptable = false} {now i : Nat}

theorem result_of_finished {item : Fragments.Item} (inside : i < results.length)
    (rest : (ofResults plain results).rest now i (.finished item)) :
    results[i]? = some (some item) := by
  have found := List.getElem?_eq_getElem inside
  rw [found, rest.2 _ found]

theorem result_of_stuck {s : Step} (inside : i < results.length)
    (rest : (ofResults plain results).rest now i s) (waits : s.result? = none)
    (never : s.task.nextDue? = none) : results[i]? = some none := by
  have found := List.getElem?_eq_getElem inside
  have later := rest.2 _ found
  rw [waits] at later
  simp only [Step.PromisesLater, never] at later
  rw [found, later]

end Course

end HtmlTemplate

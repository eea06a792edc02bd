import HtmlTemplate.Proofs.Task.Wake
import HtmlTemplate.Proofs.Value.Fate

/-!
# How tasks end

How the wait for a task ends is known from the start (`Task.fate`). Polls and timers bring the end
closer and never change it, and for a task that settles they do not change the tick of the end
either (`polls_fate`, `fate_wake`, `Quiet.settledBy_eq`). A task that waits for nothing has settled
or never will (`fate_of_stuck`), as long as no group is left waiting that has its verdict
(`Current`).
-/

namespace HtmlTemplate

variable {options : Options}

namespace Task

mutual

/-- How the wait for a task ends. -/
def fate (options : Options) : Task → Fate Value
  | fresh mode value => value.fate options mode
  | asleep mode _ _ (.ok value) => value.fate options mode
  | asleep _ _ _ (.error _) => .fails
  | forever => .never
  | convert kind inner => (fate options inner).map fun v => (convertValue kind v).result
  | group members ready => (Fate.joined ready (fates options members)).map .array
  | done (.ok value) => .settles value
  | done (.error _) => .fails

/-- How the waits for some tasks end. -/
def fates (options : Options) : List Task → List (Fate Value)
  | [] => []
  | t :: rest => fate options t :: fates options rest

end

theorem fates_eq_map (options : Options) (members : List Task) :
    fates options members = members.map (fate options) := by
  induction members with
  | nil => rfl
  | cons t rest ih => simp only [fates, List.map_cons, ih]

/-- The tick by which a task settles, if it does. -/
def arrival (options : Options) (now : Nat) (t : Task) : Fate Nat :=
  (fate options t).map fun _ => settledBy options now t

/-- A task that has given every verdict that it has. -/
inductive Current : Task → Prop
  | fresh {mode value} : Current (fresh mode value)
  | asleep {mode timer name outcome} : Current (asleep mode timer name outcome)
  | forever : Current forever
  | convert {kind inner} : isSettled inner = false → Current inner → Current (convert kind inner)
  | group {members ready} : (∀ t ∈ members, Current t) →
      Group.verdict ⟨members, ready⟩ = .waiting → Current (group members ready)
  | done {result} : Current (done result)

/-! ## Verdicts -/

section Verdict

theorem settled_cases (t : Task) :
    (∃ v, t = done (.ok v)) ∨ (∃ reason, t = done (.error reason)) ∨ isSettled t = false := by
  cases t with
  | done result =>
    cases result with
    | ok v => exact .inl ⟨v, rfl⟩
    | error reason => exact .inr (.inl ⟨reason, rfl⟩)
  | _ => exact .inr (.inr rfl)

theorem verdictTogether_of_unsettled {t : Task} (unsettled : isSettled t = false)
    (rest : List Task) :
    Group.verdictTogether (t :: rest) = (Group.verdictTogether rest).behind := by
  cases t with
  | done result => cases unsettled
  | _ => rfl

theorem verdictInTurn_of_unsettled {t : Task} (unsettled : isSettled t = false) (rest : List Task) :
    Group.verdictInTurn (t :: rest) = .waiting := by
  cases t with
  | done result => cases unsettled
  | _ => rfl

theorem isFailed_after (v : Value) (verdict : Verdict) :
    (verdict.after v).isFailed = verdict.isFailed := by
  cases verdict <;> rfl

theorem isFailed_behind (verdict : Verdict) : verdict.behind.isFailed = verdict.isFailed := by
  cases verdict <;> rfl

theorem after_eq_waiting {v : Value} {verdict : Verdict} :
    verdict.after v = .waiting ↔ verdict = .waiting := by
  cases verdict <;> simp [Verdict.after]

theorem after_eq_settled {v : Value} {verdict : Verdict} {values : List Value} :
    verdict.after v = .settled values ↔
      ∃ others, verdict = .settled others ∧ v :: others = values := by
  cases verdict <;> simp [Verdict.after]

theorem behind_ne_settled (verdict : Verdict) (values : List Value) :
    verdict.behind ≠ .settled values := by
  cases verdict <;> simp [Verdict.behind]

/-- Members that are polled together fail as soon as one of them has. -/
theorem together_of_isFailed {members : List Task}
    (failed : (Group.verdictTogether members).isFailed = true) :
    Fate.together (members.map (fate options)) = .fails := by
  rw [Fate.together_eq_fails]
  induction members with
  | nil => cases failed
  | cons t rest ih =>
    rcases settled_cases t with ⟨v, rfl⟩ | ⟨reason, rfl⟩ | unsettled
    · rw [Group.verdictTogether, isFailed_after] at failed
      exact List.mem_cons_of_mem _ (ih failed)
    · exact List.mem_cons_self
    · rw [verdictTogether_of_unsettled unsettled, isFailed_behind] at failed
      exact List.mem_cons_of_mem _ (ih failed)

/-- Members that are waited for in turn fail with the first one that has not settled with a
value. -/
theorem inTurn_of_isFailed {members : List Task}
    (failed : (Group.verdictInTurn members).isFailed = true) :
    Fate.inTurn (members.map (fate options)) = .fails := by
  induction members with
  | nil => cases failed
  | cons t rest ih =>
    rcases settled_cases t with ⟨v, rfl⟩ | ⟨reason, rfl⟩ | unsettled
    · rw [Group.verdictInTurn, isFailed_after] at failed
      simp [fate, Fate.inTurn, ih failed]
    · rfl
    · rw [verdictInTurn_of_unsettled unsettled] at failed
      cases failed

/-- A group with a failure fails. -/
theorem joined_of_failed {g : Group} {member : Nat} {reason : Text}
    (verdict : g.verdict = .failed member reason) :
    Fate.joined g.ready (g.members.map (fate options)) = .fails := by
  obtain ⟨members, ready⟩ := g
  have failed : (Group.verdict ⟨members, ready⟩).isFailed = true := by rw [verdict]; rfl
  cases ready with
  | none => exact together_of_isFailed failed
  | some ready => exact inTurn_of_isFailed failed

theorem members_of_settledTogether {members : List Task} {values : List Value}
    (verdict : Group.verdictTogether members = .settled values) :
    members = values.map fun v => done (.ok v) := by
  induction members generalizing values with
  | nil =>
    cases verdict
    rfl
  | cons t rest ih =>
    rcases settled_cases t with ⟨v, rfl⟩ | ⟨reason, rfl⟩ | unsettled
    · obtain ⟨others, settled, rfl⟩ := after_eq_settled.mp verdict
      rw [ih settled, List.map_cons]
    · cases verdict
    · rw [verdictTogether_of_unsettled unsettled] at verdict
      exact absurd verdict (behind_ne_settled _ _)

theorem members_of_settledInTurn {members : List Task} {values : List Value}
    (verdict : Group.verdictInTurn members = .settled values) :
    members = values.map fun v => done (.ok v) := by
  induction members generalizing values with
  | nil =>
    cases verdict
    rfl
  | cons t rest ih =>
    rcases settled_cases t with ⟨v, rfl⟩ | ⟨reason, rfl⟩ | unsettled
    · obtain ⟨others, settled, rfl⟩ := after_eq_settled.mp verdict
      rw [ih settled, List.map_cons]
    · cases verdict
    · rw [verdictInTurn_of_unsettled unsettled] at verdict
      cases verdict

/-- A group has settled when all its members have, with these values. -/
theorem members_of_settled {g : Group} {values : List Value}
    (verdict : g.verdict = .settled values) :
    g.members = values.map fun v => done (.ok v) := by
  obtain ⟨members, ready⟩ := g
  cases ready with
  | none => exact members_of_settledTogether verdict
  | some ready => exact members_of_settledInTurn verdict

theorem joined_of_settled {g : Group} {values : List Value}
    (verdict : g.verdict = .settled values) :
    Fate.joined g.ready (g.members.map (fate options)) = .settles values := by
  rw [Fate.joined_eq_settles, members_of_settled verdict, List.map_map]
  rfl

/-- A group ends as its members do together. -/
theorem fate_task (g : Group) :
    fate options g.task = (Fate.joined g.ready (g.members.map (fate options))).map .array := by
  unfold Group.task
  cases verdict : g.verdict with
  | waiting => rw [fate, fates_eq_map]
  | failed member reason => rw [joined_of_failed verdict]; rfl
  | settled values => rw [joined_of_settled verdict]; rfl

theorem current_task {g : Group} (current : ∀ t ∈ g.members, Current t) : Current g.task := by
  unfold Group.task
  cases verdict : g.verdict with
  | waiting => exact .group current verdict
  | failed member reason => exact .done
  | settled values => exact .done

theorem allSettledBy_map_done (now : Nat) (values : List Value) :
    allSettledBy options now (values.map fun v => done (.ok v)) = now := by
  induction values with
  | nil => rfl
  | cons v rest ih => simp only [List.map_cons, allSettledBy, ih, settledBy, Nat.max_self]

/-- A group that settles does so by the tick by which all its members have. -/
theorem settledBy_task {g : Group} {now : Nat} {values : List Value}
    (settles : Fate.joined g.ready (g.members.map (fate options)) = .settles values) :
    settledBy options now g.task = allSettledBy options now g.members := by
  unfold Group.task
  cases verdict : g.verdict with
  | waiting => rfl
  | failed member reason =>
    rw [joined_of_failed verdict] at settles
    cases settles
  | settled values =>
    rw [members_of_settled verdict, allSettledBy_map_done]
    rfl

end Verdict

/-! ## A poll does not change the end -/

/-- A poll leaves a task on its way to the same end. -/
structure Fated (options : Options) (now : Nat) (t : Task) (p : Polled Task) : Prop where
  current : Current p.state
  fate : fate options p.state = fate options t
  arrival : arrival options now p.state = arrival options now t

/-- A task of a bounded size that is ready at a tick, with no verdict held back. -/
structure CurrentAt (options : Options) (now bound : Nat) (line : Timeline) (t : Task) : Prop where
  readyAt : ReadyAt options now bound line t
  current : Current t

section Fated

variable {now bound : Nat}

/-- What a part of the same end and tick comes to, the whole comes to. -/
theorem Fated.of_part {t part : Task} {p : Polled Task} (h : Fated options now part p)
    (same : Task.fate options part = Task.fate options t)
    (tick : settledBy options now part = settledBy options now t) : Fated options now t p := by
  refine ⟨h.current, h.fate.trans same, h.arrival.trans ?_⟩
  rw [Task.arrival, Task.arrival, same, tick]

theorem Fated.refl {t : Task} (current : Current t) : Fated options now t (.quiet t) :=
  ⟨current, rfl, rfl⟩

theorem Fated.done {t : Task} {v : Value} {again : Bool} (same : Task.fate options t = .settles v)
    (tick : settledBy options now t = now) : Fated options now t ⟨done (.ok v), again⟩ := by
  refine ⟨.done, same.symm, ?_⟩
  rw [Task.arrival, Task.arrival, same, tick]
  rfl

/-- A placeholder goes by its value. -/
theorem Fated.convert {kind : PlaceholderKind} {inner t : Task} {again : Bool}
    (unsettled : isSettled t = false) (current : Current t)
    (same : Task.fate options t = Task.fate options inner)
    (tick : Task.arrival options now t = Task.arrival options now inner) :
    Fated options now (convert kind inner) ⟨.convert kind t, again⟩ := by
  refine ⟨.convert unsettled current, by rw [Task.fate, same, Task.fate], ?_⟩
  rw [Task.arrival, Task.arrival, Task.fate, Task.fate, Fate.map_map, Fate.map_map]
  exact tick

/-- All of some tasks settle by the same tick if each does. -/
theorem allSettledBy_eq_of_arrival {members others : List Task} {values : List Value}
    (settles : members.map (Task.fate options) = values.map .settles)
    (fates : others.map (Task.fate options) = members.map (Task.fate options))
    (arrivals : others.map (Task.arrival options now) = members.map (Task.arrival options now)) :
    allSettledBy options now others = allSettledBy options now members := by
  induction members generalizing others values with
  | nil => rw [List.map_eq_nil_iff.mp arrivals]
  | cons t rest ih =>
    cases others with
    | nil => cases arrivals
    | cons s others =>
      cases values with
      | nil => cases settles
      | cons v values =>
        obtain ⟨first, settles⟩ := List.cons.inj settles
        obtain ⟨same, fates⟩ := List.cons.inj fates
        obtain ⟨tick, arrivals⟩ := List.cons.inj arrivals
        rw [Task.arrival, Task.arrival, same, first] at tick
        rw [allSettledBy, allSettledBy, ih settles fates arrivals]
        exact congrArg (max · _) (Fate.settles.inj tick)

variable {poll : Task → Live (Polled Task)}

/-- What is left of the members of a group after a poll. -/
structure MembersFated (options : Options) (now : Nat) (members others : List Task) : Prop where
  current : ∀ t ∈ others, Current t
  fates : others.map (Task.fate options) = members.map (Task.fate options)
  arrivals : others.map (Task.arrival options now) = members.map (Task.arrival options now)

theorem fated_groupPoll (h : Polls poll (CurrentAt options now bound) (Fated options now))
    (g : Group) (line : Timeline) (fits : ∀ t ∈ g.members, CurrentAt options now bound line t) :
    MembersFated options now g.members (g.poll poll line).1.state.members := by
  obtain ⟨members, ready⟩ := g
  cases ready with
  | none =>
    obtain ⟨round, _, kept⟩ := together_pollTogether h isFailed members line fits
    exact ⟨fun t member => (kept t member).current, round.map_eq fun fated => fated.fate,
      round.map_eq fun fated => fated.arrival⟩
  | some ready =>
    obtain ⟨n, turned, _⟩ := Queue.turned_pollInTurn isSettled
      (fun members => (Group.verdictInTurn members).isFailed) h ⟨members, ready⟩ line fits
    exact ⟨fun t member => (turned.kept t member).current,
      turned.visits.map_eq fun fated => fated.fate, turned.visits.map_eq fun fated => fated.arrival⟩

theorem joined_congr {ready ready' : Option (List Nat)} (same : ready'.isSome = ready.isSome)
    (fates : List (Fate Value)) : Fate.joined ready' fates = Fate.joined ready fates := by
  cases ready <;> cases ready' <;> first | rfl | cases same

theorem fated_stepGroup (h : Polls poll (CurrentAt options now bound) (Fated options now))
    (g : Group) (line : Timeline) (fits : ∀ t ∈ g.members, CurrentAt options now bound line t) :
    Fated options now (group g.members g.ready) (stepGroup poll g line).1 := by
  obtain ⟨current, fates, arrivals⟩ := fated_groupPoll h g line fits
  have way := isSome_ready_groupPoll poll g line
  have same : Task.fate options (g.poll poll line).1.state.task =
      Task.fate options (group g.members g.ready) := by
    rw [fate_task, fates, joined_congr way, Task.fate, fates_eq_map]
  refine ⟨current_task current, same, ?_⟩
  show Task.arrival options now (g.poll poll line).1.state.task = _
  rw [Task.arrival, Task.arrival, same, Task.fate, fates_eq_map]
  cases settles : Fate.joined g.ready (g.members.map (Task.fate options)) with
  | settles values =>
    have tick : settledBy options now (g.poll poll line).1.state.task =
        settledBy options now (group g.members g.ready) := by
      have settled : Fate.joined (g.poll poll line).1.state.ready
          ((g.poll poll line).1.state.members.map (Task.fate options)) = .settles values := by
        rw [fates, joined_congr way, settles]
      rw [settledBy_task settled]
      exact allSettledBy_eq_of_arrival (Fate.joined_eq_settles.mp settles) fates arrivals
    rw [tick]
  | fails => rfl
  | never => rfl

theorem fated_stepConvert (h : Polls poll (CurrentAt options now bound) (Fated options now))
    (kind : PlaceholderKind) {inner : Task} (line : Timeline)
    (fits : CurrentAt options now bound line inner) :
    Fated options now (convert kind inner) (stepConvert poll kind inner line).1 := by
  obtain ⟨current, same, tick⟩ : Fated options now inner (poll inner line).1 := h.effect fits
  show Fated options now (convert kind inner)
    ⟨(converted kind (poll inner line).1.state (poll inner line).2).1, (poll inner line).1.again⟩
  cases state : (poll inner line).1.state with
  | done result =>
    rw [state] at same tick
    cases result with
    | ok v =>
      rw [Task.arrival, Task.arrival, ← same] at tick
      exact .done (by rw [Task.fate, ← same]; rfl) (Fate.settles.inj tick).symm
    | error reason =>
      have fails : Task.fate options (convert kind inner) = .fails := by rw [Task.fate, ← same]; rfl
      refine ⟨.done, fails.symm, ?_⟩
      rw [Task.arrival, Task.arrival, fails]
      rfl
  | _ =>
    rw [state] at current same tick
    exact .convert rfl current same tick

/-- A future that is asked for ends as a timer that was set for it. -/
theorem fated_stepFuture (h : Polls poll (CurrentAt options now bound) (Fated options now))
    (mode : Mode) (delay : Nat) (name : Option Text) (outcome : Except Text Value) {line : Timeline}
    (tick : line.now = now) (number : Nat)
    (small : size options (asleep mode ⟨now + delay, number⟩ name outcome) ≤ bound + 1) :
    Fated options now (asleep mode ⟨now + delay, number⟩ name outcome)
      (stepFuture poll mode delay name outcome line).1 := by
  unfold stepFuture
  split
  · rename_i none
    cases outcome with
    | ok value =>
      have part : Fated options now (fresh mode value)
          (poll (fresh mode value) (Live.note (.settled name) line).2).1 :=
        h.effect ⟨⟨tick, .fresh, Nat.le_of_succ_le_succ small⟩, .fresh⟩
      exact part.of_part rfl (by simp only [settledBy, none, Nat.add_zero])
    | error reason => exact ⟨.done, rfl, rfl⟩
  · subst tick
    refine ⟨.asleep, ?_, ?_⟩ <;> cases outcome <;> rfl

theorem fated_stepObject (h : Polls poll (CurrentAt options now bound) (Fated options now))
    (mode : Mode) (entries : List (Text × Value)) {line : Timeline} (tick : line.now = now)
    (small : size options (fresh mode (.object entries)) ≤ bound + 1) :
    Fated options now (fresh mode (.object entries))
      (stepObject options poll mode entries line).1 := by
  obtain ⟨content, expansions⟩ := mode
  cases content with
  | false => exact .done rfl rfl
  | true =>
    cases expansions with
    | zero => exact .done rfl rfl
    | succ expansions =>
      simp only [stepObject, if_true]
      cases found : options.transform? entries with
      | none =>
        refine .done ?_ ?_
        · simp [Task.fate, Value.fate, Value.fateWith, Value.fateObject, found]
        · simp [settledBy, waitFor, Value.waitWith, Value.waitObject, found]
      | some transformed =>
        have small : size options (fresh ⟨true, expansions⟩ transformed.result) ≤ bound := by
          simpa [size, Value.sizeWith, Value.sizeObject, found] using small
        have part : Fated options now (fresh ⟨true, expansions⟩ transformed.result)
            (poll (fresh ⟨true, expansions⟩ transformed.result)
              (Live.record transformed line).2).1 := h.effect ⟨⟨tick, .fresh, small⟩, .fresh⟩
        refine part.of_part ?_ ?_
        · simp [Task.fate, Value.fate, Value.fateWith, Value.fateObject, found]
        · simp [settledBy, waitFor, Value.waitWith, Value.waitObject, found]

theorem fated_stepArray (h : Polls poll (CurrentAt options now bound) (Fated options now))
    (mode : Mode) (items : List Value) {line : Timeline} (tick : line.now = now)
    (small : size options (fresh mode (.array items)) ≤ bound + 1)
    (waits : Value.anyAsync items = true) :
    Fated options now (fresh mode (.array items))
      (stepGroup poll ⟨items.map (fresh mode), Group.readyAtFirst items.length⟩ line).1 := by
  have small : totalSize options (items.map (fresh mode)) ≤ bound := by
    simp only [size, Value.sizeWith, if_pos waits] at small
    rw [totalSize_map_fresh]
    omega
  have fits : ∀ t ∈ items.map (fresh mode), CurrentAt options now bound line t := by
    intro t member
    refine ⟨⟨tick, ?_, Nat.le_trans (size_le_totalSize member) small⟩, ?_⟩ <;>
    · obtain ⟨v, _, rfl⟩ := List.mem_map.mp member
      constructor
  have part := fated_stepGroup h ⟨items.map (fresh mode), Group.readyAtFirst items.length⟩ line fits
  refine part.of_part ?_ ?_
  · rw [Task.fate, Task.fate, fates_eq_map, Value.fate_array, if_pos waits, List.map_map]
    rfl
  · simp only [settledBy, allSettledBy_map_fresh, waitFor, Value.waitWith, if_pos waits]

theorem fated_stepFresh (h : Polls poll (CurrentAt options now bound) (Fated options now))
    (mode : Mode) (value : Value) {line : Timeline} (tick : line.now = now)
    (small : size options (fresh mode value) ≤ bound + 1) :
    Fated options now (fresh mode value) (stepFresh options poll mode value line).1 := by
  cases value with
  | array items =>
    simp only [stepFresh]
    split
    · rename_i waits
      exact fated_stepArray h mode items tick small waits
    · rename_i silent
      refine .done ?_ ?_
      · rw [Task.fate, Value.fate_array, if_neg silent]
      · simp only [settledBy, waitFor, Value.waitWith, if_neg silent, Nat.add_zero]
  | object entries => exact fated_stepObject h mode entries tick small
  | component name body =>
    simp only [stepFresh]
    split
    · rename_i content
      have small : size options (fresh mode body) ≤ bound := by
        simpa [size, Value.sizeWith, content] using small
      have part : Fated options now (fresh mode body)
          (poll (fresh mode body) (Live.note (.rendered name) line).2).1 :=
        h.effect ⟨⟨tick, .fresh, small⟩, .fresh⟩
      refine part.of_part ?_ ?_
      · simp only [Task.fate, Value.fate, Value.fateWith, if_pos content]
      · simp only [settledBy, waitFor, Value.waitWith, if_pos content]
    · rename_i content
      refine .done ?_ ?_
      · simp only [Task.fate, Value.fate, Value.fateWith, if_neg content]
      · simp only [settledBy, waitFor, Value.waitWith, if_neg content, Nat.add_zero]
  | resolves delay name value =>
    refine (fated_stepFuture h mode delay name (.ok value) tick 0 small).of_part rfl ?_
    simp only [settledBy, waitFor, Value.waitWith]
    omega
  | rejects delay name reason =>
    exact (fated_stepFuture h mode delay name (.error reason) tick 0
      (Nat.succ_le_succ (Nat.zero_le _))).of_part rfl rfl
  | never => exact ⟨.forever, rfl, rfl⟩
  | placeholder kind value =>
    exact (fated_stepConvert h kind line
      ⟨⟨tick, .fresh, Nat.le_of_succ_le_succ small⟩, .fresh⟩).of_part rfl rfl
  | deferred kind name future =>
    exact (fated_stepConvert h kind (Live.note (.called name) line).2
      ⟨⟨tick, .fresh, Nat.le_of_succ_le_succ small⟩, .fresh⟩).of_part rfl rfl
  | _ => exact .done rfl rfl

theorem fated_step (h : Polls poll (CurrentAt options now bound) (Fated options now)) {t : Task}
    {line : Timeline} (fits : CurrentAt options now (bound + 1) line t) :
    Fated options now t (step options poll t line).1 := by
  obtain ⟨⟨tick, ready, small⟩, current⟩ := fits
  cases t with
  | fresh mode value => exact fated_stepFresh h mode value tick small
  | asleep mode timer name outcome =>
    rw [step_asleep]
    cases ready with
    | asleep due number =>
      split
      · exact .refl current
      · have same : now + 0 = timer.due := by omega
        have small : size options (asleep mode ⟨now + 0, timer.number⟩ name outcome) ≤
            bound + 1 := by
          cases outcome <;> exact small
        have part := fated_stepFuture h mode 0 name outcome tick timer.number small
        rw [same] at part
        exact part
  | forever => exact .refl current
  | convert kind inner =>
    cases ready with
    | convert ready =>
      cases current with
      | convert _ current =>
        exact fated_stepConvert h kind line ⟨⟨tick, ready, Nat.le_of_succ_le_succ small⟩, current⟩
  | group members queue =>
    have small : totalSize options members ≤ bound := by
      simp only [size] at small
      omega
    have each : ∀ t ∈ members, Ready line t := by
      cases ready with
      | together each => exact each
      | inTurn each _ _ => exact each
    cases current with
    | group current _ =>
      exact fated_stepGroup h ⟨members, queue⟩ line fun t member =>
        ⟨⟨tick, each t member, Nat.le_trans (size_le_totalSize member) small⟩, current t member⟩
  | done result => exact .refl current

end Fated

theorem polls_currentAt (options : Options) (now bound : Nat) :
    Polls (poll options) (CurrentAt options now bound) (Fated options now) := by
  have polls : ∀ {bound : Nat}, (∀ {line t}, CurrentAt options now bound line t →
      Fated options now t (poll options t line).1) →
      Polls (poll options) (CurrentAt options now bound) (Fated options now) := by
    intro bound fated
    have ready := @polls_readyAt options now bound
    exact ⟨fun fits later => ⟨fits.readyAt.later later, fits.current⟩,
      fun fits => ready.later fits.readyAt,
      fun fits => ⟨ready.holds fits.readyAt, (fated fits).current⟩, fun fits => fated fits⟩
  induction bound with
  | zero =>
    refine polls fun {line t} fits => ?_
    rw [poll_eq_step]
    rcases eq_of_size_eq_zero (Nat.le_zero.mp fits.readyAt.small) with rfl | ⟨result, rfl⟩
    · exact .refl .forever
    · exact .refl .done
  | succ bound ih =>
    refine polls fun {line t} fits => ?_
    rw [poll_eq_step]
    exact fated_step ih fits

/-- A poll leaves a task on its way to the same end, at the same tick if it settles. -/
theorem polls_fate (options : Options) (now : Nat) :
    Polls (poll options) (fun line t => line.now = now ∧ Ready line t ∧ Current t)
      (Fated options now) where
  keeps fits later := ⟨later.1.trans fits.1, fits.2.1.later later, fits.2.2⟩
  later fits := (polls_currentAt options now _).later ⟨⟨fits.1, fits.2.1, Nat.le_refl _⟩, fits.2.2⟩
  holds fits :=
    have kept := (polls_currentAt options now _).holds ⟨⟨fits.1, fits.2.1, Nat.le_refl _⟩, fits.2.2⟩
    ⟨kept.readyAt.tick, kept.readyAt.ready, kept.current⟩
  effect fits :=
    (polls_currentAt options now _).effect ⟨⟨fits.1, fits.2.1, Nat.le_refl _⟩, fits.2.2⟩

/-! ## Timers -/

theorem fate_wake (tick : Nat) (t : Task) : fate options (wake tick t) = fate options t := by
  induction t using memberInduction with
  | convert kind inner ih => simp only [wake, fate, ih]
  | group members ready ih =>
    have way : (ready.map (Group.wakeReady tick members)).isSome = ready.isSome := Option.isSome_map
    rw [wake, fate, fate, fates_eq_map, fates_eq_map, wakeEach_eq_map, List.map_map,
      joined_congr way]
    exact congrArg (fun fates => Fate.map Value.array (Fate.joined ready fates))
      (List.map_congr_left ih)
  | _ => rfl

theorem verdictTogether_wakeEach (tick : Nat) (members : List Task) :
    Group.verdictTogether (wakeEach tick members) = Group.verdictTogether members := by
  induction members with
  | nil => rfl
  | cons t rest ih =>
    rcases settled_cases t with ⟨v, rfl⟩ | ⟨reason, rfl⟩ | unsettled
    · simp only [wakeEach, wake, Group.verdictTogether, ih]
    · rfl
    · rw [wakeEach, verdictTogether_of_unsettled unsettled,
        verdictTogether_of_unsettled (by rw [isSettled_wake, unsettled]), ih]

theorem verdictInTurn_wakeEach (tick : Nat) (members : List Task) :
    Group.verdictInTurn (wakeEach tick members) = Group.verdictInTurn members := by
  induction members with
  | nil => rfl
  | cons t rest ih =>
    rcases settled_cases t with ⟨v, rfl⟩ | ⟨reason, rfl⟩ | unsettled
    · simp only [wakeEach, wake, Group.verdictInTurn, ih]
    · rfl
    · rw [wakeEach, verdictInTurn_of_unsettled unsettled,
        verdictInTurn_of_unsettled (by rw [isSettled_wake, unsettled])]

/-- Waking changes no verdict. -/
theorem verdict_wakeEach (tick : Nat) (members : List Task) {ready ready' : Option (List Nat)}
    (same : ready'.isSome = ready.isSome) :
    Group.verdict ⟨wakeEach tick members, ready'⟩ = Group.verdict ⟨members, ready⟩ := by
  cases ready <;> cases ready' <;>
    first
    | exact verdictTogether_wakeEach tick members
    | exact verdictInTurn_wakeEach tick members
    | cases same

theorem Current.wake {t : Task} (current : Current t) (tick : Nat) : Current (wake tick t) := by
  induction current with
  | fresh => exact .fresh
  | asleep => exact .asleep
  | forever => exact .forever
  | convert unsettled _ ih => exact .convert (by rw [isSettled_wake, unsettled]) ih
  | @group members ready _ waiting ih =>
    refine .group (fun t member => ?_) ?_
    · rw [wakeEach_eq_map] at member
      obtain ⟨s, inside, rfl⟩ := List.mem_map.mp member
      exact ih s inside
    · have way : (ready.map (Group.wakeReady tick members)).isSome = ready.isSome :=
        Option.isSome_map
      rw [verdict_wakeEach tick members way, waiting]
  | done => exact .done

theorem current_wakeEach {members : List Task} (current : ∀ t ∈ members, Current t) (tick : Nat) :
    ∀ t ∈ wakeEach tick members, Current t := by
  intro t member
  rw [wakeEach_eq_map] at member
  obtain ⟨s, inside, rfl⟩ := List.mem_map.mp member
  exact (current s inside).wake tick

/-- The tick by which a quiet task settles stays until its next timer rings, but is never past. -/
theorem Quiet.settledBy_eq {now tick : Nat} {t : Task} (h : Quiet now t) (le : now ≤ tick)
    (next : ∀ due, Task.nextDue? t = some due → tick ≤ due) :
    settledBy options tick t = max tick (settledBy options now t) := by
  have each : ∀ {members : List Task}, (∀ t ∈ members, Quiet now t →
      (∀ due, Task.nextDue? t = some due → tick ≤ due) →
        settledBy options tick t = max tick (settledBy options now t)) →
      (∀ t ∈ members, Quiet now t) → (∀ due, nextDueAmong? members = some due → tick ≤ due) →
      allSettledBy options tick members = max tick (allSettledBy options now members) := by
    intro members ih quiet next
    induction members with
    | nil => exact (Nat.max_eq_left le).symm
    | cons t rest ihRest =>
      have first := ih t List.mem_cons_self (quiet t List.mem_cons_self) fun due found => by
        obtain ⟨due', le, among⟩ := exists_nextDueAmong? (List.mem_cons_self (l := rest)) found
        exact Nat.le_trans (next due' among) le
      have others := ihRest (fun s member => ih s (List.mem_cons_of_mem t member))
        (fun s member => quiet s (List.mem_cons_of_mem t member)) fun due found => by
          obtain ⟨s, member, found⟩ := (nextDueAmong?_eq_some found).1
          obtain ⟨due', le, among⟩ := exists_nextDueAmong? (List.mem_cons_of_mem t member) found
          exact Nat.le_trans (next due' among) le
      rw [allSettledBy, allSettledBy, first, others]
      omega
  induction h with
  | @asleep _ timer _ outcome _ =>
    have due : tick ≤ timer.due := next _ rfl
    cases outcome with
    | ok value => exact (Nat.max_eq_right (Nat.le_trans due (Nat.le_add_right _ _))).symm
    | error reason => exact (Nat.max_eq_right due).symm
  | forever => exact (Nat.max_eq_left le).symm
  | convert _ ih => exact ih next
  | group quiet _ ih => exact each (fun t member _ => ih t member) quiet next
  | done => exact (Nat.max_eq_left le).symm

/-! ## Nothing left to wait for -/

theorem verdictTogether_map_done (values : List Value) :
    Group.verdictTogether (values.map fun v => done (.ok v)) = .settled values := by
  induction values with
  | nil => rfl
  | cons v rest ih =>
    rw [List.map_cons, Group.verdictTogether, ih]
    rfl

/-- Tasks that settle, and that never do unless they have, have settled. -/
theorem members_of_fates {members : List Task} {values : List Value}
    (settles : members.map (fate options) = values.map .settles)
    (never : ∀ t ∈ members, isSettled t = false → fate options t = .never) :
    members = values.map fun v => done (.ok v) := by
  induction members generalizing values with
  | nil => rw [List.map_eq_nil_iff.mp settles.symm, List.map_nil]
  | cons t rest ih =>
    cases values with
    | nil => cases settles
    | cons v values =>
      obtain ⟨first, settles⟩ := List.cons.inj settles
      have others := ih settles fun s member => never s (List.mem_cons_of_mem t member)
      rcases settled_cases t with ⟨u, rfl⟩ | ⟨reason, rfl⟩ | unsettled
      · cases first
        rw [others, List.map_cons]
      · cases first
      · rw [never t List.mem_cons_self unsettled] at first
        cases first

theorem together_of_waiting {members : List Task}
    (waiting : Group.verdictTogether members = .waiting)
    (never : ∀ t ∈ members, isSettled t = false → fate options t = .never) :
    Fate.together (members.map (fate options)) = .never := by
  have fine : .fails ∉ members.map (fate options) := by
    intro fails
    obtain ⟨t, member, failed⟩ := List.mem_map.mp fails
    rcases settled_cases t with ⟨v, rfl⟩ | ⟨reason, rfl⟩ | unsettled
    · cases failed
    · have failed := isFailed_verdictTogether member rfl
      rw [waiting] at failed
      cases failed
    · rw [never t member unsettled] at failed
      cases failed
  cases joined : Fate.together (members.map (fate options)) with
  | never => rfl
  | fails => exact absurd (Fate.together_eq_fails.mp joined) fine
  | settles values =>
    rw [members_of_fates (Fate.together_eq_settles.mp joined) never, verdictTogether_map_done]
      at waiting
    cases waiting

theorem inTurn_of_waiting {members : List Task} (waiting : Group.verdictInTurn members = .waiting)
    (never : ∀ t ∈ members, isSettled t = false → fate options t = .never) :
    Fate.inTurn (members.map (fate options)) = .never := by
  induction members with
  | nil => cases waiting
  | cons t rest ih =>
    rcases settled_cases t with ⟨v, rfl⟩ | ⟨reason, rfl⟩ | unsettled
    · have others := ih (after_eq_waiting.mp waiting) fun s member =>
        never s (List.mem_cons_of_mem _ member)
      simp only [List.map_cons, fate, Fate.inTurn, others]
      rfl
    · cases waiting
    · rw [List.map_cons, never t List.mem_cons_self unsettled]
      rfl

/-- A group that waits for members that never settle never settles. -/
theorem never_of_waiting {g : Group} (waiting : g.verdict = .waiting)
    (never : ∀ t ∈ g.members, isSettled t = false → fate options t = .never) :
    Fate.joined g.ready (g.members.map (fate options)) = .never := by
  obtain ⟨members, ready⟩ := g
  cases ready with
  | none => exact together_of_waiting waiting never
  | some ready => exact inTurn_of_waiting waiting never

/-- A task that waits for nothing has settled, or never does. -/
theorem fate_of_stuck (options : Options) {now : Nat} {t : Task} (quiet : Quiet now t)
    (current : Current t) (none : nextDue? t = .none) (unsettled : isSettled t = false) :
    fate options t = .never := by
  induction quiet with
  | asleep => cases none
  | forever => rfl
  | convert _ ih =>
    cases current with
    | convert unsettled current => rw [fate, ih current none unsettled]; rfl
  | @group members ready _ _ ih =>
    cases current with
    | group current waiting =>
      rw [nextDue?, nextDueAmong?_eq, earliest_eq_none] at none
      have joined : Fate.joined ready (members.map (fate options)) = .never :=
        never_of_waiting waiting fun t member unsettled =>
          ih t member (current t member) (none _ (List.mem_map.mpr ⟨t, member, rfl⟩)) unsettled
      rw [fate, fates_eq_map, joined]
      rfl
  | done => cases unsettled

end Task

end HtmlTemplate

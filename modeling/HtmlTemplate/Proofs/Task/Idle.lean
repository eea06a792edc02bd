import HtmlTemplate.Proofs.Task.Fate

/-!
# Tasks at any moment

Whether a task is `Ready` or `Quiet` depends on the clock, so that somebody who polls late, or for
no reason, may find it neither. That it is `Kept` does not: in a large group whoever is not in the
queue is idle. Polls and timers at any moment keep a task, and a poll that asks for no other one
leaves it idle (`leaves_poll`, `Kept.wake`). A task that is idle and has no timer has settled, or
never will (`Kept.never`).
-/

namespace HtmlTemplate

variable {options : Options}

namespace Task

/-- Nobody is left to poll: whatever is on its way waits for a timer, or for nothing. -/
inductive Idle : Task → Prop
  | asleep {mode timer name outcome} : Idle (asleep mode timer name outcome)
  | forever : Idle forever
  | convert {kind inner} : Idle inner → Idle (convert kind inner)
  | group {members ready} : (∀ t ∈ members, Idle t) → ready.getD [] = [] →
      Idle (group members ready)
  | done {result} : Idle (done result)

/-- Whoever is not in the queue is idle. -/
structure Attended (q : Queue Task) : Prop where
  fit : q.Fit isSettled
  others : q.Holds (fun _ _ => True) fun _ t => Idle t

/-- A task that has given every verdict that it has, and in whose groups everybody is attended
to. -/
inductive Kept : Task → Prop
  | fresh {mode value} : Kept (fresh mode value)
  | asleep {mode timer name outcome} : Kept (asleep mode timer name outcome)
  | forever : Kept forever
  | convert {kind inner} : isSettled inner = false → Kept inner → Kept (convert kind inner)
  | group {members ready} : (∀ t ∈ members, Kept t) →
      (∀ queue, ready = some queue → Attended ⟨members, queue⟩) →
      Group.verdict ⟨members, ready⟩ = .waiting → Kept (group members ready)
  | done {result} : Kept (done result)

theorem idle_of_isSettled {t : Task} (settled : isSettled t = true) : Idle t := by
  cases t with
  | done result => exact .done
  | _ => cases settled

theorem Kept.current {t : Task} (kept : Kept t) : Current t := by
  induction kept with
  | fresh => exact .fresh
  | asleep => exact .asleep
  | forever => exact .forever
  | convert unsettled _ ih => exact .convert unsettled ih
  | group _ _ waiting ih => exact .group ih waiting
  | done => exact .done

/-- An idle task without a timer is quiet, whatever the clock says. -/
theorem Idle.quiet {t : Task} (idle : Idle t) (none : nextDue? t = none) (now : Nat) :
    Quiet now t := by
  induction idle with
  | asleep => cases none
  | forever => exact .forever
  | convert _ ih => exact .convert (ih none)
  | @group members ready _ empty ih =>
    rw [nextDue?, nextDueAmong?_eq, earliest_eq_none] at none
    exact .group (fun t member => ih t member (none _ (List.mem_map.mpr ⟨t, member, rfl⟩))) empty
  | done => exact .done

/-- A task that is idle and has no timer never settles, unless it has. -/
theorem Kept.never {t : Task} (kept : Kept t) (idle : Idle t) (none : nextDue? t = none)
    (unsettled : isSettled t = false) (options : Options) : t.fate options = .never :=
  fate_of_stuck options (idle.quiet none 0) kept.current none unsettled

/-! ## Polls -/

/-- What a poll leaves: the task is kept, and idle when no other poll is asked for. -/
structure Leaves (p : Polled Task) : Prop where
  kept : Kept p.state
  idle : p.again = false → Idle p.state

/-- A task of a bounded size that may be polled at any moment. -/
structure KeptUpTo (options : Options) (bound : Nat) (t : Task) : Prop where
  kept : Kept t
  small : size options t ≤ bound

/-- A group whose members may be polled at any moment, with its verdict still to be given. -/
structure KeptGroup (g : Group) : Prop where
  each : ∀ t ∈ g.members, Kept t
  queue : ∀ queue, g.ready = some queue → Attended ⟨g.members, queue⟩

theorem Leaves.quiet {t : Task} (kept : Kept t) (idle : Idle t) : Leaves (.quiet t) :=
  ⟨kept, fun _ => idle⟩

theorem leaves_done (result : Except Text Value) (again : Bool) : Leaves ⟨done result, again⟩ :=
  ⟨.done, fun _ => .done⟩

/-- Polls that attend to whatever is small enough. -/
abbrev Attends (options : Options) (bound : Nat) (poll : Task → Live (Polled Task)) : Prop :=
  Polls poll (fun _ => KeptUpTo options bound) fun _ => Leaves

section Polls

variable {bound : Nat} {poll : Task → Live (Polled Task)}

/-- A poll of a group keeps it. When it asks for no other one and the group has to be waited for,
nobody is left to poll. -/
theorem kept_groupPoll (h : Attends options bound poll) (g : Group) (line : Timeline)
    (kept : KeptGroup g) (small : totalSize options g.members ≤ bound) :
    KeptGroup (g.poll poll line).1.state ∧ ((g.poll poll line).1.again = false →
      (g.poll poll line).1.state.verdict = .waiting →
      Idle (group (g.poll poll line).1.state.members (g.poll poll line).1.state.ready)) := by
  obtain ⟨members, ready⟩ := g
  have fits : ∀ t ∈ members, KeptUpTo options bound t := fun t member =>
    ⟨kept.each t member, Nat.le_trans (size_le_totalSize member) small⟩
  cases ready with
  | none =>
    obtain ⟨round, _, still⟩ := together_pollTogether h isFailed members line fits
    refine ⟨⟨fun t member => (still t member).kept, fun _ same => by cases same⟩, ?_⟩
    refine fun silent verdict => .group (round.each (fun t member => ?_) silent Leaves.idle) rfl
    refine Bool.eq_false_iff.mpr fun failed => ?_
    have failed := isFailed_verdictTogether member failed
    exact Bool.false_ne_true ((congrArg Verdict.isFailed verdict).symm.trans failed)
  | some ready =>
    obtain ⟨fit, others⟩ := kept.queue ready rfl
    obtain ⟨_, turned, _⟩ := Queue.turned_pollInTurn isSettled
      (fun members => (Group.verdictInTurn members).isFailed) h ⟨members, ready⟩ line fits
    have last : Queue.Holds (fun _ _ => True) (fun _ t => Idle t) (Queue.pollInTurn poll isSettled
        (fun members => (Group.verdictInTurn members).isFailed) ⟨members, ready⟩ line).1.state :=
      turned.visits.holds (fun _ effect leaves => leaves.elim idle_of_isSettled effect.idle)
        (fun _ _ _ _ => trivial) fit others
    refine ⟨⟨fun t member => (turned.kept t member).kept, fun queue same => ?_⟩, ?_⟩
    · cases same
      exact ⟨turned.visits.fit fit, last⟩
    · intro silent verdict
      have empty := (Queue.idle_pollInTurn poll
        (fun members => (Group.verdictInTurn members).isFailed) ⟨members, ready⟩ line fit
        silent).resolve_right fun ended =>
          Bool.false_ne_true ((congrArg Verdict.isFailed verdict).symm.trans ended)
      refine .group (fun t member => ?_) empty
      obtain ⟨i, found⟩ := List.mem_iff_getElem?.mp member
      exact (last i t found).2 (empty ▸ List.not_mem_nil)

theorem leaves_stepGroup (h : Attends options bound poll) (g : Group) (line : Timeline)
    (kept : KeptGroup g) (small : totalSize options g.members ≤ bound) :
    Leaves (stepGroup poll g line).1 := by
  obtain ⟨⟨each, queue⟩, idle⟩ := kept_groupPoll h g line kept small
  show Leaves ⟨(g.poll poll line).1.state.task, (g.poll poll line).1.again⟩
  unfold Group.task
  cases verdict : (g.poll poll line).1.state.verdict with
  | waiting => exact ⟨.group each queue verdict, fun silent => idle silent verdict⟩
  | failed member reason => exact leaves_done _ _
  | settled values => exact leaves_done _ _

theorem leaves_stepConvert (h : Attends options bound poll) (kind : PlaceholderKind) {inner : Task}
    (line : Timeline) (fits : KeptUpTo options bound inner) :
    Leaves (stepConvert poll kind inner line).1 := by
  obtain ⟨kept, idle⟩ : Leaves (poll inner line).1 := h.effect fits
  show Leaves ⟨(converted kind (poll inner line).1.state (poll inner line).2).1,
    (poll inner line).1.again⟩
  cases state : (poll inner line).1.state with
  | done result => cases result <;> exact leaves_done _ _
  | _ =>
    rw [state] at kept idle
    exact ⟨.convert rfl kept, fun silent => .convert (idle silent)⟩

theorem leaves_stepFuture (h : Attends options bound poll) (mode : Mode) (delay : Nat)
    (name : Option Text) (outcome : Except Text Value) (line : Timeline)
    (small : size options (asleep mode ⟨0, 0⟩ name outcome) ≤ bound + 1) :
    Leaves (stepFuture poll mode delay name outcome line).1 := by
  unfold stepFuture
  split
  · cases outcome with
    | ok value => exact h.effect (s := fresh mode value) ⟨.fresh, Nat.le_of_succ_le_succ small⟩
    | error reason => exact leaves_done _ _
  · exact .quiet .asleep .asleep

theorem leaves_stepObject (h : Attends options bound poll) (mode : Mode)
    (entries : List (Text × Value)) (line : Timeline)
    (small : size options (fresh mode (.object entries)) ≤ bound + 1) :
    Leaves (stepObject options poll mode entries line).1 := by
  obtain ⟨content, expansions⟩ := mode
  cases content with
  | false => exact leaves_done _ _
  | true =>
    cases expansions with
    | zero => exact leaves_done _ _
    | succ expansions =>
      simp only [stepObject, if_true]
      cases found : options.transform? entries with
      | none => exact leaves_done _ _
      | some transformed =>
        refine h.effect (s := fresh ⟨true, expansions⟩ transformed.result) ⟨.fresh, ?_⟩
        simpa [size, Value.sizeWith, Value.sizeObject, found] using small

/-- Members that nobody has asked for are all in the queue. -/
theorem keptGroup_atFirst (mode : Mode) (items : List Value) :
    KeptGroup ⟨items.map (fresh mode), Group.readyAtFirst items.length⟩ := by
  have fresh_of_mem : ∀ t ∈ items.map (fresh mode), ∃ value, t = fresh mode value := fun t member =>
    (List.mem_map.mp member).imp fun _ made => made.2.symm
  refine ⟨fun t member => ?_, fun queue same => ?_⟩
  · obtain ⟨value, rfl⟩ := fresh_of_mem t member
    exact .fresh
  · have all : queue = List.range (items.map (fresh mode)).length := by
      unfold Group.readyAtFirst at same
      split at same
      · cases same
      · cases same
        rw [List.length_map]
    subst all
    refine ⟨⟨List.nodup_range, fun i member => ?_⟩,
      fun i t found => ⟨fun _ => trivial, fun outside => ?_⟩⟩
    · have found := List.getElem?_eq_getElem (List.mem_range.mp member)
      obtain ⟨value, same⟩ := fresh_of_mem _ (List.mem_of_getElem? found)
      exact ⟨_, found, by rw [same]; rfl⟩
    · exact absurd (List.mem_range.mpr (List.getElem?_eq_some_iff.mp found).1) outside

theorem leaves_stepFresh (h : Attends options bound poll) (mode : Mode) (value : Value)
    (line : Timeline) (small : size options (fresh mode value) ≤ bound + 1) :
    Leaves (stepFresh options poll mode value line).1 := by
  cases value with
  | array items =>
    simp only [stepFresh]
    split
    · rename_i waits
      refine leaves_stepGroup h _ line (keptGroup_atFirst mode items) ?_
      simp only [size, Value.sizeWith, if_pos waits] at small
      rw [totalSize_map_fresh]
      omega
    · exact leaves_done _ _
  | object entries => exact leaves_stepObject h mode entries line small
  | component name body =>
    simp only [stepFresh]
    split
    · rename_i content
      refine h.effect (s := fresh mode body) ⟨.fresh, ?_⟩
      simpa [size, Value.sizeWith, content] using small
    · exact leaves_done _ _
  | resolves delay name value => exact leaves_stepFuture h mode delay name (.ok value) line small
  | rejects delay name reason =>
    exact leaves_stepFuture h mode delay name (.error reason) line small
  | never => exact .quiet .forever .forever
  | placeholder kind value =>
    exact leaves_stepConvert h kind line ⟨.fresh, Nat.le_of_succ_le_succ small⟩
  | deferred kind name future =>
    exact leaves_stepConvert h kind _ ⟨.fresh, Nat.le_of_succ_le_succ small⟩
  | _ => exact leaves_done _ _

theorem leaves_step (h : Attends options bound poll) {t : Task} (line : Timeline)
    (fits : KeptUpTo options (bound + 1) t) : Leaves (step options poll t line).1 := by
  obtain ⟨kept, small⟩ := fits
  cases kept with
  | @fresh mode value => exact leaves_stepFresh h mode value line small
  | @asleep mode timer name outcome =>
    rw [step_asleep]
    split
    · exact .quiet .asleep .asleep
    · refine leaves_stepFuture h mode 0 name outcome line ?_
      cases outcome <;> exact small
  | forever => exact .quiet .forever .forever
  | convert _ kept => exact leaves_stepConvert h _ line ⟨kept, Nat.le_of_succ_le_succ small⟩
  | @group members ready each queue _ =>
    refine leaves_stepGroup h ⟨members, ready⟩ line ⟨each, queue⟩ ?_
    simp only [size] at small
    show totalSize options members ≤ bound
    omega
  | done => exact leaves_done _ _

end Polls

theorem attends_poll (bound : Nat) : Attends options bound (poll options) := by
  have polls : ∀ {bound : Nat}, (∀ {t} line, KeptUpTo options bound t →
      Leaves (poll options t line).1) → Attends options bound (poll options) := by
    intro bound leaves
    refine ⟨fun fits _ => fits, fun _ => polls_lessens.later trivial, fun fits => ?_,
      fun fits => leaves _ fits⟩
    exact ⟨(leaves _ fits).kept, Nat.le_trans (polls_lessens.effect trivial).1 fits.small⟩
  induction bound with
  | zero =>
    refine polls fun {t} line fits => ?_
    rw [poll_eq_step]
    rcases eq_of_size_eq_zero (Nat.le_zero.mp fits.small) with rfl | ⟨result, rfl⟩
    · exact .quiet .forever .forever
    · exact leaves_done _ _
  | succ bound ih =>
    refine polls fun {t} line fits => ?_
    rw [poll_eq_step]
    exact leaves_step ih line fits

/-- A poll at any moment keeps a task, and leaves it idle when it does not ask for another one. -/
theorem leaves_poll {t : Task} (kept : Kept t) (line : Timeline) : Leaves (poll options t line).1 :=
  (attends_poll _).effect ⟨kept, Nat.le_refl _⟩

/-! ## Timers -/

/-- Whoever a timer rings for joins the queue, and for the others it changes nothing. -/
theorem Attended.wake {members : List Task} {ready : List Nat}
    (attended : Attended ⟨members, ready⟩) (tick : Nat) :
    Attended ⟨members.map (wake tick), Group.wakeReady tick members ready⟩ := by
  refine ⟨fit_wakeReady attended.fit tick, fun i t woken => ⟨fun _ => trivial, fun outside => ?_⟩⟩
  obtain ⟨s, found, rfl⟩ : ∃ s, members[i]? = some s ∧ Task.wake tick s = t := by simpa using woken
  obtain ⟨absent, silent⟩ := not_or.mp (mt mem_wakeReady.mpr outside)
  have silent : ringing? tick s = none :=
    Classical.byContradiction fun rings => silent ⟨s, found, rings⟩
  rw [wake_of_silent silent]
  exact (attended.others i s found).2 absent

/-- Timers that ring at any moment keep a task. -/
theorem Kept.wake {t : Task} (kept : Kept t) (tick : Nat) : Kept (wake tick t) := by
  induction kept with
  | fresh => exact .fresh
  | asleep => exact .asleep
  | forever => exact .forever
  | convert unsettled _ ih => exact .convert (by rw [isSettled_wake, unsettled]) ih
  | @group members ready _ queue waiting ih =>
    refine .group (fun t member => ?_) (fun woken same => ?_) ?_
    · rw [wakeEach_eq_map] at member
      obtain ⟨s, inside, rfl⟩ := List.mem_map.mp member
      exact ih s inside
    · obtain ⟨before, rfl, rfl⟩ := Option.map_eq_some_iff.mp same
      rw [wakeEach_eq_map]
      exact (queue before rfl).wake tick
    · have way : (ready.map (Group.wakeReady tick members)).isSome = ready.isSome :=
        Option.isSome_map
      rw [verdict_wakeEach tick members way, waiting]
  | done => exact .done

end Task

end HtmlTemplate

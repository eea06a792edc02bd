import HtmlTemplate.Proofs.Task.Size
import HtmlTemplate.Task.Await

/-!
# Tasks between two ticks

A task is `Ready` when it may be polled at the present tick: none of its timers should have rung
before, and in a large group whoever is not in the queue has nothing to do. It is `Quiet` when it
only waits for timers that are still to ring. Polling a ready task until it asks no more leaves it
quiet (`polls_calm`), and when the next timer has rung a quiet task is ready again
(`Ready.wake`). Meanwhile the tick by which it settles never moves away.
-/

namespace HtmlTemplate

variable {options : Options}

namespace Task

/-- Nothing is left to do before one of the timers rings, all of which ring later than `now`. -/
inductive Quiet (now : Nat) : Task → Prop
  | asleep {mode timer name outcome} : now < timer.due →
      Quiet now (asleep mode timer name outcome)
  | forever : Quiet now forever
  | convert {kind inner} : Quiet now inner → Quiet now (convert kind inner)
  | group {members ready} : (∀ t ∈ members, Quiet now t) → ready.getD [] = [] →
      Quiet now (group members ready)
  | done {result} : Quiet now (done result)

/-- The task may be polled: its timers were set on the timeline and none should have rung before,
and the members of a large group are quiet unless their turn is to come. -/
inductive Ready (line : Timeline) : Task → Prop
  | fresh {mode value} : Ready line (fresh mode value)
  | asleep {mode timer name outcome} : line.now ≤ timer.due → timer.number < line.timers →
      Ready line (asleep mode timer name outcome)
  | forever : Ready line forever
  | convert {kind inner} : Ready line inner → Ready line (convert kind inner)
  | together {members} : (∀ t ∈ members, Ready line t) → Ready line (group members none)
  | inTurn {members ready} : (∀ t ∈ members, Ready line t) →
      Queue.Fit isSettled ⟨members, ready⟩ →
      (∀ i t, members[i]? = some t → i ∈ ready ∨ Quiet line.now t) →
      Ready line (group members (some ready))
  | done {result} : Ready line (done result)

theorem quiet_of_isSettled {now : Nat} {t : Task} (h : isSettled t = true) : Quiet now t := by
  cases t with
  | done result => exact .done
  | _ => cases h

/-- Setting more timers at the same tick does not spoil a task. -/
theorem Ready.later {line line' : Timeline} {t : Task} (h : Ready line t)
    (later : line.Later line') : Ready line' t := by
  obtain ⟨same, more⟩ := later
  induction h with
  | fresh => exact .fresh
  | asleep due number => exact .asleep (same ▸ due) (Nat.lt_of_lt_of_le number more)
  | forever => exact .forever
  | convert _ ih => exact .convert ih
  | together _ ih => exact .together ih
  | inTurn _ fit turn ih => exact .inTurn ih fit (same ▸ turn)
  | done => exact .done

/-! ## The tick by which everything has settled -/

theorem allSettledBy_le {now bound : Nat} {members : List Task} (h : now ≤ bound)
    (each : ∀ t ∈ members, settledBy options now t ≤ bound) :
    allSettledBy options now members ≤ bound := by
  induction members with
  | nil => exact h
  | cons t rest ih =>
    exact Nat.max_le.mpr ⟨each t List.mem_cons_self,
      ih fun s member => each s (List.mem_cons_of_mem t member)⟩

theorem le_allSettledBy (now : Nat) (members : List Task) :
    now ≤ allSettledBy options now members := by
  induction members with
  | nil => exact Nat.le_refl now
  | cons t rest ih => exact Nat.le_trans ih (Nat.le_max_right _ _)

theorem settledBy_le_all {now : Nat} {members : List Task} {t : Task} (h : t ∈ members) :
    settledBy options now t ≤ allSettledBy options now members := by
  induction members with
  | nil => cases h
  | cons s rest ih =>
    rcases List.mem_cons.mp h with rfl | h
    · exact Nat.le_max_left _ _
    · exact Nat.le_trans (ih h) (Nat.le_max_right _ _)

theorem allSettledBy_map_fresh (now : Nat) (mode : Mode) (items : List Value) :
    allSettledBy options now (items.map (fresh mode)) =
      now + Value.longestWith (Value.waitObject options mode.expansions) mode.content items := by
  induction items with
  | nil => rfl
  | cons v rest ih =>
    simp only [List.map_cons, allSettledBy, ih, settledBy, waitFor, Value.longestWith]
    exact (Nat.add_max_add_left _ _ _).symm ▸ rfl

theorem Ready.le_settledBy {line : Timeline} {t : Task} (h : Ready line t) (options : Options) :
    line.now ≤ settledBy options line.now t := by
  induction h with
  | fresh => exact Nat.le_add_right _ _
  | @asleep _ _ _ outcome due _ =>
    cases outcome with
    | ok value => exact Nat.le_trans due (Nat.le_add_right _ _)
    | error reason => exact due
  | convert _ ih => exact ih
  | together => exact le_allSettledBy _ _
  | inTurn => exact le_allSettledBy _ _
  | forever => exact Nat.le_refl _
  | done => exact Nat.le_refl _

/-- The tick by which a quiet task settles does not depend on the present one, which may only be
past it. -/
theorem Quiet.settledBy_le {now : Nat} {t : Task} (h : Quiet now t) (tick : Nat) :
    settledBy options tick t ≤ max tick (settledBy options now t) := by
  induction h with
  | @asleep _ _ _ outcome _ => cases outcome <;> exact Nat.le_max_right _ _
  | forever => exact Nat.le_max_left _ _
  | convert _ ih => exact ih
  | @group members ready _ _ ih =>
    refine allSettledBy_le (Nat.le_max_left _ _) fun t member => Nat.le_trans (ih t member) ?_
    exact Nat.max_le.mpr ⟨Nat.le_max_left _ _,
      Nat.le_trans (settledBy_le_all member) (Nat.le_max_right _ _)⟩
  | done => exact Nat.le_max_left _ _

/-! ## A poll leaves a task calm -/

/-- A poll that does not ask for another one leaves the task quiet, and no poll moves the tick away
by which it settles. -/
structure Calms (options : Options) (now : Nat) (t : Task) (p : Polled Task) : Prop where
  quiet : p.again = false → Quiet now p.state
  settles : settledBy options now p.state ≤ settledBy options now t

/-- A task of a bounded size that is ready at a tick. -/
structure ReadyAt (options : Options) (now bound : Nat) (line : Timeline) (t : Task) : Prop where
  tick : line.now = now
  ready : Ready line t
  small : size options t ≤ bound

section Calm

variable {now bound : Nat}

theorem ReadyAt.later {line line' : Timeline} {t : Task} (h : ReadyAt options now bound line t)
    (later : line.Later line') : ReadyAt options now bound line' t :=
  ⟨later.1.trans h.tick, h.ready.later later, h.small⟩

/-- What a poll should make of a task: it stays ready, and is calm. -/
structure Becomes (options : Options) (now : Nat) (line : Timeline) (t : Task)
    (out : Polled Task × Timeline) : Prop where
  later : line.Later out.2
  ready : Ready out.2 out.1.state
  calm : Calms options now t out.1

/-- Whatever waits for nothing is calm. -/
theorem Becomes.quiet {line line' : Timeline} {t t' : Task} (later : line.Later line')
    (ready : Ready line' t') (quiet : Quiet now t')
    (settles : settledBy options now t' ≤ settledBy options now t) :
    Becomes options now line t (.quiet t', line') := ⟨later, ready, fun _ => quiet, settles⟩

/-- A settled task is calm. -/
theorem Becomes.done {line line' : Timeline} {t : Task} {result : Except Text Value}
    (at_now : line.now = now) (ready : Ready line t) (later : line.Later line') :
    Becomes options now line t (.quiet (done result), line') :=
  .quiet later .done .done (at_now ▸ ready.le_settledBy options)

/-- What becomes of a part that takes no longer becomes of the whole. -/
theorem Becomes.of_part {line line' : Timeline} {t part : Task} {out : Polled Task × Timeline}
    (h : Becomes options now line' part out) (later : line.Later line')
    (le : settledBy options now part ≤ settledBy options now t) :
    Becomes options now line t out :=
  ⟨later.trans h.later, h.ready, h.calm.quiet, Nat.le_trans h.calm.settles le⟩

variable {poll : Task → Live (Polled Task)}

theorem becomes_of_polls
    (h : Polls poll (ReadyAt options now bound) (Calms options now)) (line : Timeline) {t : Task}
    (ready : ReadyAt options now bound line t) : Becomes options now line t (poll t line) :=
  ⟨h.later ready, (h.holds ready).ready, h.effect ready⟩

/-- A group that is polled all together has failed as soon as one member has. -/
theorem isFailed_verdictTogether {members : List Task} {t : Task} (h : t ∈ members)
    (failed : isFailed t = true) : (Group.verdictTogether members).isFailed = true := by
  induction members with
  | nil => cases h
  | cons s rest ih =>
    have after : ∀ (verdict : Verdict) (v : Value),
        (verdict.after v).isFailed = verdict.isFailed := fun verdict _ => by cases verdict <;> rfl
    have behind : ∀ verdict : Verdict, verdict.behind.isFailed = verdict.isFailed :=
      fun verdict => by cases verdict <;> rfl
    rcases List.mem_cons.mp h with rfl | member
    · cases t with
      | done result =>
        cases result with
        | ok v => cases failed
        | error reason => rfl
      | _ => cases failed
    · have others := ih member
      cases s with
      | done result =>
        cases result with
        | ok v => exact (after _ _).trans others
        | error reason => rfl
      | _ => exact (behind _).trans others

theorem allSettledBy_together {isFailed : Task → Bool} {members : List Task}
    {p : Polled (List Task)} (h : Together (Calms options now) isFailed members p) :
    allSettledBy options now p.state ≤ allSettledBy options now members := by
  induction h with
  | nil => exact Nat.le_refl _
  | failed effect _ =>
    exact Nat.max_le.mpr ⟨Nat.le_trans effect.settles (Nat.le_max_left _ _), Nat.le_max_right _ _⟩
  | cons effect _ _ ih =>
    exact Nat.max_le.mpr ⟨Nat.le_trans effect.settles (Nat.le_max_left _ _),
      Nat.le_trans ih (Nat.le_max_right _ _)⟩

theorem allSettledBy_visits {n : Nat} {q q' : Queue Task}
    (h : Queue.Visits (Calms options now) isSettled n q q') :
    allSettledBy options now q'.members ≤ allSettledBy options now q.members := by
  refine allSettledBy_le (le_allSettledBy _ _) (h.each (fun le effect => ?_) fun t member => ?_)
  · exact Nat.le_trans effect.settles le
  · exact settledBy_le_all member

/-- After any number of turns, whoever is not in the queue is quiet. -/
theorem quiet_visits {n : Nat} {q q' : Queue Task}
    (h : Queue.Visits (Calms options now) isSettled n q q') (fit : q.Fit isSettled)
    (turn : ∀ i t, q.members[i]? = some t → i ∈ q.ready ∨ Quiet now t) :
    ∀ i t, q'.members[i]? = some t → i ∈ q'.ready ∨ Quiet now t := by
  have start : q.Holds (fun _ _ => True) (fun _ t => Quiet now t) := fun i t found =>
    ⟨fun _ => trivial, fun outside => (turn i t found).resolve_left outside⟩
  have last := h.holds (fun {i s p} _ effect leaves => ?_) (fun _ _ _ _ => trivial) fit start
  · intro i t found
    by_cases member : i ∈ q'.ready
    · exact .inl member
    · exact .inr ((last i t found).2 member)
  · rcases leaves with settled | silent
    · exact quiet_of_isSettled settled
    · exact effect.quiet silent

/-- A group is ready as soon as its members are asked for. -/
theorem ready_atFirst {line : Timeline} {members : List Task} {size : Nat}
    (fresh : ∀ t ∈ members, ∃ mode value, t = Task.fresh mode value)
    (all : size = members.length) :
    Ready line (group members (Group.readyAtFirst size)) := by
  have each : ∀ t ∈ members, Ready line t := by
    intro t member
    obtain ⟨mode, value, rfl⟩ := fresh t member
    exact .fresh
  unfold Group.readyAtFirst
  split
  · exact .together each
  · refine .inTurn each ⟨List.nodup_range, fun i member => ?_⟩ fun i t found => .inl ?_
    · have bound : i < members.length := all ▸ List.mem_range.mp member
      obtain ⟨mode, value, same⟩ := fresh _ (List.getElem_mem bound)
      exact ⟨members[i], List.getElem?_eq_getElem bound, by rw [same]; rfl⟩
    · rw [List.mem_range, all]
      exact (List.getElem?_eq_some_iff.mp found).1

/-- What a poll should make of a group: it stays ready, and when it does not ask for another poll
and has to be waited for, all its members are quiet and nobody is left to poll. -/
structure GroupBecomes (options : Options) (now : Nat) (line : Timeline) (g : Group)
    (out : Polled Group × Timeline) : Prop where
  later : line.Later out.2
  ready : Ready out.2 (group out.1.state.members out.1.state.ready)
  settles : allSettledBy options now out.1.state.members ≤ allSettledBy options now g.members
  quiet : out.1.again = false → out.1.state.verdict = .waiting →
    Quiet now (group out.1.state.members out.1.state.ready)

theorem becomes_groupPoll (h : Polls poll (ReadyAt options now bound) (Calms options now))
    (g : Group) (line : Timeline) (tick : line.now = now)
    (ready : Ready line (group g.members g.ready)) (small : totalSize options g.members ≤ bound) :
    GroupBecomes options now line g (g.poll poll line) := by
  obtain ⟨members, queue⟩ := g
  have fits : ∀ t ∈ members, Ready line t → ReadyAt options now bound line t :=
    fun t member ready => ⟨tick, ready, Nat.le_trans (size_le_totalSize member) small⟩
  cases ready with
  | together each =>
    obtain ⟨round, later, kept⟩ := together_pollTogether h isFailed members line
      fun t member => fits t member (each t member)
    refine ⟨later, .together fun t member => (kept t member).ready, allSettledBy_together round,
      fun silent verdict => ?_⟩
    refine .group (round.each (fun s member => ?_) silent fun effect => effect.quiet) rfl
    refine Bool.eq_false_iff.mpr fun failed => ?_
    have failed := isFailed_verdictTogether member failed
    exact Bool.false_ne_true ((congrArg Verdict.isFailed verdict).symm.trans failed)
  | @inTurn _ ready each fit turn =>
    obtain ⟨n, turned, _⟩ := Queue.turned_pollInTurn isSettled
      (fun members => (Group.verdictInTurn members).isFailed) h ⟨members, ready⟩ line
      fun t member => fits t member (each t member)
    have idle := Queue.idle_pollInTurn poll
      (fun members => (Group.verdictInTurn members).isFailed) ⟨members, ready⟩ line fit
    have quiet := quiet_visits turned.visits fit (tick ▸ turn)
    refine ⟨turned.later, .inTurn (fun t member => (turned.kept t member).ready)
      (turned.visits.fit fit) ((turned.later.1.trans tick) ▸ quiet),
      allSettledBy_visits turned.visits, fun silent verdict => ?_⟩
    have empty := (idle silent).resolve_right fun ended =>
      Bool.false_ne_true ((congrArg Verdict.isFailed verdict).symm.trans ended)
    refine .group (fun t member => ?_) empty
    obtain ⟨i, found⟩ := List.mem_iff_getElem?.mp member
    refine (quiet i t found).resolve_left fun member => ?_
    rw [empty] at member
    cases member

theorem becomes_group (h : Polls poll (ReadyAt options now bound) (Calms options now)) (g : Group)
    (line : Timeline) (tick : line.now = now) (ready : Ready line (group g.members g.ready))
    (small : totalSize options g.members ≤ bound) :
    Becomes options now line (group g.members g.ready) (stepGroup poll g line) := by
  obtain ⟨later, kept, settles, quiet⟩ := becomes_groupPoll h g line tick ready small
  show Becomes options now line (group g.members g.ready)
    (⟨(g.poll poll line).1.state.task, (g.poll poll line).1.again⟩, (g.poll poll line).2)
  unfold Group.task
  cases verdict : (g.poll poll line).1.state.verdict with
  | waiting => exact ⟨later, kept, fun silent => quiet silent verdict, settles⟩
  | failed member reason => exact ⟨later, .done, fun _ => .done, le_allSettledBy now g.members⟩
  | settled values => exact ⟨later, .done, fun _ => .done, le_allSettledBy now g.members⟩

theorem becomes_convert (h : Polls poll (ReadyAt options now bound) (Calms options now))
    (kind : PlaceholderKind) {inner : Task} (line : Timeline)
    (ready : ReadyAt options now bound line inner) :
    Becomes options now line (convert kind inner) (stepConvert poll kind inner line) := by
  obtain ⟨later, kept, quiet, settles⟩ := becomes_of_polls h line ready
  have at_now := ready.tick ▸ ready.ready.le_settledBy options
  show Becomes options now line (convert kind inner)
    (⟨(converted kind (poll inner line).1.state (poll inner line).2).1, (poll inner line).1.again⟩,
      (converted kind (poll inner line).1.state (poll inner line).2).2)
  cases state : (poll inner line).1.state with
  | done result =>
    cases result <;> exact ⟨later, .done, fun _ => .done, at_now⟩
  | _ =>
    rw [state] at kept quiet settles
    exact ⟨later, .convert kept, fun silent => .convert (quiet silent), settles⟩

/-- A future that is asked for takes as long as a timer that was set for it. -/
theorem becomes_future (h : Polls poll (ReadyAt options now bound) (Calms options now))
    (mode : Mode) (delay : Nat) (name : Option Text) (outcome : Except Text Value)
    {line : Timeline} (tick : line.now = now) (number : Nat)
    (small : size options (asleep mode ⟨now + delay, number⟩ name outcome) ≤ bound + 1) :
    Becomes options now line (asleep mode ⟨now + delay, number⟩ name outcome)
      (stepFuture poll mode delay name outcome line) := by
  unfold stepFuture
  split
  · rename_i none
    cases outcome with
    | ok value =>
      have part := becomes_of_polls h (Live.note (.settled name) line).2
        (t := fresh mode value) ⟨tick, .fresh, Nat.le_of_succ_le_succ small⟩
      exact part.of_part (Live.later_note _ line) (by simp only [settledBy, none]; omega)
    | error reason =>
      exact .quiet (Live.later_note _ line) .done .done (Nat.le_add_right now delay)
  · rename_i some
    subst tick
    refine .quiet (Live.later_setTimer delay line)
      (.asleep (Nat.le_add_right _ _) (Nat.lt_succ_self _))
      (.asleep (Nat.lt_add_of_pos_right (Nat.pos_of_ne_zero some))) ?_
    cases outcome <;> exact Nat.le_refl _

theorem becomes_object (h : Polls poll (ReadyAt options now bound) (Calms options now))
    (mode : Mode) (entries : List (Text × Value)) {line : Timeline} (tick : line.now = now)
    (small : size options (fresh mode (.object entries)) ≤ bound + 1) :
    Becomes options now line (fresh mode (.object entries))
      (stepObject options poll mode entries line) := by
  obtain ⟨content, expansions⟩ := mode
  have settled : ∀ v : Value, Becomes options now line
      (fresh ⟨content, expansions⟩ (.object entries)) (.quiet (done (.ok v)), line) :=
    fun v => .done tick .fresh (.refl line)
  cases content with
  | false => exact settled _
  | true =>
    cases expansions with
    | zero => exact settled _
    | succ expansions =>
      simp only [stepObject, if_true]
      cases found : options.transform? entries with
      | none => exact settled _
      | some transformed =>
        have small : size options (fresh ⟨true, expansions⟩ transformed.result) ≤ bound := by
          simpa [size, Value.sizeWith, Value.sizeObject, found] using small
        have part := becomes_of_polls h (Live.record transformed line).2
          ⟨tick, .fresh, small⟩
        refine part.of_part (Live.later_record transformed line) (Nat.le_of_eq ?_)
        simp [settledBy, waitFor, Value.waitWith, Value.waitObject, found]

theorem becomes_fresh (h : Polls poll (ReadyAt options now bound) (Calms options now))
    (mode : Mode) (value : Value) {line : Timeline} (tick : line.now = now)
    (small : size options (fresh mode value) ≤ bound + 1) :
    Becomes options now line (fresh mode value) (stepFresh options poll mode value line) := by
  have settled : ∀ v : Value, Becomes options now line (fresh mode value)
      (.quiet (done (.ok v)), line) := fun v => .done tick .fresh (.refl line)
  cases value with
  | array items =>
    simp only [stepFresh]
    split
    · rename_i waits
      have small : totalSize options (items.map (fresh mode)) ≤ bound := by
        simp only [size, Value.sizeWith, if_pos waits] at small
        rw [totalSize_map_fresh]
        omega
      have each : ∀ t ∈ items.map (fresh mode), ∃ mode value, t = fresh mode value := by
        intro t member
        obtain ⟨v, _, rfl⟩ := List.mem_map.mp member
        exact ⟨mode, v, rfl⟩
      have part := becomes_group h ⟨items.map (fresh mode), Group.readyAtFirst items.length⟩ line
        tick (ready_atFirst each (by simp)) small
      refine part.of_part (.refl line) (Nat.le_of_eq ?_)
      simp only [settledBy, allSettledBy_map_fresh, waitFor, Value.waitWith, if_pos waits]
    · exact settled _
  | object entries => exact becomes_object h mode entries tick small
  | component name body =>
    simp only [stepFresh]
    split
    · rename_i content
      have small : size options (fresh mode body) ≤ bound := by
        simpa [size, Value.sizeWith, content] using small
      have part := becomes_of_polls h (Live.note (.rendered name) line).2
        ⟨tick, .fresh, small⟩
      refine part.of_part (Live.later_note _ line) (Nat.le_of_eq ?_)
      simp only [settledBy, waitFor, Value.waitWith, if_pos content]
    · exact settled _
  | resolves delay name value =>
    refine (becomes_future h mode delay name (.ok value) tick 0 small).of_part (.refl line) ?_
    simp only [settledBy, waitFor, Value.waitWith]
    omega
  | rejects delay name reason =>
    exact (becomes_future h mode delay name (.error reason) tick 0
      (Nat.succ_le_succ (Nat.zero_le _))).of_part (.refl line) (Nat.le_refl _)
  | never => exact .quiet (.refl line) .forever .forever (Nat.le_refl now)
  | placeholder kind value =>
    exact (becomes_convert h kind line ⟨tick, .fresh, Nat.le_of_succ_le_succ small⟩).of_part
      (.refl line) (Nat.le_refl _)
  | deferred kind name future =>
    exact (becomes_convert h kind (Live.note (.called name) line).2
      ⟨tick, .fresh, Nat.le_of_succ_le_succ small⟩).of_part (Live.later_note _ line) (Nat.le_refl _)
  | _ => exact settled _

theorem becomes_step (h : Polls poll (ReadyAt options now bound) (Calms options now)) {t : Task}
    {line : Timeline} (ready : ReadyAt options now (bound + 1) line t) :
    Becomes options now line t (step options poll t line) := by
  obtain ⟨tick, ready, small⟩ := ready
  cases t with
  | fresh mode value => exact becomes_fresh h mode value tick small
  | asleep mode timer name outcome =>
    rw [step_asleep]
    cases ready with
    | asleep due number =>
      split
      · rename_i before
        exact .quiet (.refl line) (.asleep due number) (.asleep (tick ▸ before)) (Nat.le_refl _)
      · have small : size options (asleep mode ⟨now + 0, timer.number⟩ name outcome) ≤
            bound + 1 := by
          cases outcome <;> exact small
        refine (becomes_future h mode 0 name outcome tick _ small).of_part (.refl line) ?_
        cases outcome <;> simp only [settledBy] <;> omega
  | forever => exact .quiet (.refl line) .forever .forever (Nat.le_refl _)
  | convert kind inner =>
    cases ready with
    | convert ready => exact becomes_convert h kind line ⟨tick, ready, Nat.le_of_succ_le_succ small⟩
  | group members queue =>
    refine becomes_group h ⟨members, queue⟩ line tick ready ?_
    simp only [size] at small
    show totalSize options members ≤ bound
    omega
  | done result => exact .quiet (.refl line) .done .done (Nat.le_refl _)

end Calm

theorem polls_readyAt (now bound : Nat) :
    Polls (poll options) (ReadyAt options now bound) (Calms options now) := by
  have polls : ∀ {bound : Nat}, (∀ {line t}, ReadyAt options now bound line t →
      Becomes options now line t (poll options t line)) →
      Polls (poll options) (ReadyAt options now bound) (Calms options now) := by
    intro bound becomes
    refine ⟨fun ready later => ready.later later, fun ready => (becomes ready).later,
      fun ready => ?_, fun ready => (becomes ready).calm⟩
    exact ⟨(becomes ready).later.1.trans ready.tick, (becomes ready).ready,
      Nat.le_trans (polls_lessens.effect trivial).1 ready.small⟩
  induction bound with
  | zero =>
    refine polls fun {line t} ready => ?_
    rw [poll_eq_step]
    rcases eq_of_size_eq_zero (Nat.le_zero.mp ready.small) with rfl | ⟨result, rfl⟩
    · exact .quiet (.refl line) .forever .forever (Nat.le_refl _)
    · exact .quiet (.refl line) .done .done (Nat.le_refl _)
  | succ bound ih =>
    refine polls fun {line t} ready => ?_
    rw [poll_eq_step]
    exact becomes_step ih ready

/-- A poll keeps a task ready, leaves it quiet when it does not ask for another poll, and does not
move the tick away by which the task settles. -/
theorem polls_calm (options : Options) (now : Nat) :
    Polls (poll options) (fun line t => line.now = now ∧ Ready line t) (Calms options now) where
  keeps ready later := ⟨later.1.trans ready.1, ready.2.later later⟩
  later ready := (polls_readyAt now _).later ⟨ready.1, ready.2, Nat.le_refl _⟩
  holds ready :=
    let kept := (polls_readyAt now _).holds ⟨ready.1, ready.2, Nat.le_refl _⟩
    ⟨kept.tick, kept.ready⟩
  effect ready := (polls_readyAt now _).effect ⟨ready.1, ready.2, Nat.le_refl _⟩

end Task

end HtmlTemplate

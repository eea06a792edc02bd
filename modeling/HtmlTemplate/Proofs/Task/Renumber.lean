import HtmlTemplate.Proofs.Task.Wake
import Mathlib.Order.MinMax
import Mathlib.Order.Monotone.Basic

/-!
# The numbers of timers

What a task does must not depend on how many timers others have set before. `renumber f` gives the
timers of a task other numbers, in the same order. A poll of the renumbered task does the same as a
poll of the task, on any timeline at the same tick whose next numbers are the new ones
(`poll_renumber`), and so does waking (`wake_renumber`). What else two timelines have in common is a
parameter, so that this also tells of timelines that differ in nothing that a task sees
(`poll_same`).
-/

namespace HtmlTemplate

variable {options : Options} {f : Nat → Nat}

/-- Two timelines at the same tick, where `f` renumbers the timers that are still to be set. -/
structure Timeline.Shifts (f : Nat → Nat) (line line' : Timeline) : Prop where
  tick : line'.now = line.now
  timers : ∀ k, f (line.timers + k) = line'.timers + k

namespace Timeline.Shifts

variable {line line' : Timeline}

theorem record {α : Type} (h : Shifts f line line') (x : Noted α) :
    Shifts f (Live.record x line).2 (Live.record x line').2 := ⟨h.tick, h.timers⟩

theorem setTimer (h : Shifts f line line') (delay : Nat) :
    Shifts f (Live.setTimer delay line).2 (Live.setTimer delay line').2 := by
  refine ⟨h.tick, fun k => ?_⟩
  show f (line.timers + 1 + k) = line'.timers + 1 + k
  rw [Nat.add_assoc, h.timers (1 + k), Nat.add_assoc]

theorem setClock (h : Shifts f line line') (tick : Nat) :
    Shifts f (Live.setClock tick line).2 (Live.setClock tick line').2 := ⟨rfl, h.timers⟩

/-- Numbers that are in use stay, the others leave room for those that were set meanwhile. -/
theorem exists_of_later (h : line.Later line') :
    ∃ f, StrictMono f ∧ (∀ k < line.timers, f k = k) ∧ Shifts f line line' := by
  obtain ⟨tick, more⟩ := h
  refine ⟨fun k => if k < line.timers then k else k + (line'.timers - line.timers), ?_, ?_, tick,
    fun k => ?_⟩
  · intro a b less
    dsimp only
    split <;> split <;> omega
  · exact fun k below => if_pos below
  · rw [if_neg (by omega)]
    omega

end Timeline.Shifts

/-- A relation between two timelines at the same tick, the second of which has the numbers of `f`
for timers, that notes and timers on both keep. -/
structure Timeline.Parallel (f : Nat → Nat) (rel : Timeline → Timeline → Prop) : Prop where
  tick : ∀ {line line'}, rel line line' → line'.now = line.now
  number : ∀ {line line'}, rel line line' → f line.timers = line'.timers
  record : ∀ {line line'} {α : Type} (x : Noted α), rel line line' →
    rel (Live.record x line).2 (Live.record x line').2
  setTimer : ∀ {line line'} (delay : Nat), rel line line' →
    rel (Live.setTimer delay line).2 (Live.setTimer delay line').2

theorem Timeline.parallel_shifts (f : Nat → Nat) : Timeline.Parallel f (Timeline.Shifts f) where
  tick lines := lines.tick
  number lines := lines.timers 0
  record x lines := lines.record x
  setTimer delay lines := lines.setTimer delay

namespace Task

mutual

/-- The task with other numbers for its timers. -/
def renumber (f : Nat → Nat) : Task → Task
  | asleep mode timer name outcome => asleep mode ⟨timer.due, f timer.number⟩ name outcome
  | convert kind inner => convert kind (renumber f inner)
  | group members ready => group (renumberEach f members) ready
  | t => t

/-- The tasks with other numbers for their timers. -/
def renumberEach (f : Nat → Nat) : List Task → List Task
  | [] => []
  | t :: rest => renumber f t :: renumberEach f rest

end

end Task

/-- The group with other numbers for its timers. -/
def Group.renumber (f : Nat → Nat) (g : Group) : Group := ⟨g.members.map (Task.renumber f), g.ready⟩

namespace Task

theorem renumberEach_eq_map (f : Nat → Nat) (members : List Task) :
    renumberEach f members = members.map (renumber f) := by
  induction members with
  | nil => rfl
  | cons t rest ih => simp only [renumberEach, List.map_cons, ih]

@[simp] theorem isSettled_renumber (f : Nat → Nat) (t : Task) :
    isSettled (renumber f t) = isSettled t := by cases t <;> simp [renumber, isSettled]

@[simp] theorem isFailed_renumber (f : Nat → Nat) (t : Task) :
    isFailed (renumber f t) = isFailed t := by cases t <;> simp [renumber, isFailed]

/-- A task that was on its way before any of the renumbered timers was set. -/
theorem Ready.renumber {line : Timeline} {t : Task} (h : Ready line t)
    (same : ∀ k < line.timers, f k = k) : renumber f t = t := by
  induction h with
  | asleep _ number => rw [Task.renumber, same _ number]
  | convert _ ih => rw [Task.renumber, ih]
  | together _ ih =>
    rw [Task.renumber, renumberEach_eq_map, List.map_congr_left ih, List.map_id']
  | inTurn _ _ _ ih =>
    rw [Task.renumber, renumberEach_eq_map, List.map_congr_left ih, List.map_id']
  | _ => rfl

theorem size_renumber (f : Nat → Nat) (t : Task) :
    size options (renumber f t) = size options t := by
  induction t using memberInduction with
  | asleep mode timer name outcome => cases outcome <;> rfl
  | convert kind inner ih => simp only [renumber, size, ih]
  | group members ready ih =>
    have total : totalSize options (renumberEach f members) = totalSize options members := by
      induction members with
      | nil => rfl
      | cons s rest ihRest =>
        simp only [renumberEach, totalSize, ih s List.mem_cons_self,
          ihRest fun t member => ih t (List.mem_cons_of_mem s member)]
    simp only [renumber, size, total]
  | _ => rfl

/-! ## Timers -/

theorem nextDue?_renumber (f : Nat → Nat) (t : Task) :
    nextDue? (renumber f t) = nextDue? t := by
  induction t using memberInduction with
  | convert kind inner ih => exact ih
  | group members ready ih =>
    simp only [renumber, nextDue?, renumberEach_eq_map, nextDueAmong?_eq, List.map_map]
    exact congrArg earliest (List.map_congr_left ih)
  | _ => rfl

theorem earliest_map (mono : Monotone f) (moments : List (Option Nat)) :
    earliest (moments.map (Option.map f)) = (earliest moments).map f := by
  induction moments with
  | nil => rfl
  | cons a rest ih =>
    rw [List.map_cons, earliest, ih, earliest]
    cases a <;> cases earliest rest <;> simp [earlier, mono.map_min]

theorem ringing?_renumber (mono : Monotone f) (tick : Nat) (t : Task) :
    ringing? tick (renumber f t) = (ringing? tick t).map f := by
  induction t using memberInduction with
  | asleep mode timer name outcome =>
    simp only [renumber, ringing?]
    split <;> rfl
  | convert kind inner ih => exact ih
  | group members ready ih =>
    simp only [renumber, ringing?, renumberEach_eq_map, ringingAmong?_eq, List.map_map]
    rw [← earliest_map mono, List.map_map]
    exact congrArg earliest (List.map_congr_left ih)
  | _ => rfl

theorem insertRinging_map (mono : StrictMono f) (entry : Nat × Nat)
    (entries : List (Nat × Nat)) :
    Group.insertRinging (entry.map f id) (entries.map (Prod.map f id)) =
      (Group.insertRinging entry entries).map (Prod.map f id) := by
  induction entries with
  | nil => rfl
  | cons other rest ih =>
    simp only [List.map_cons, Group.insertRinging, Prod.map_fst, mono.lt_iff_lt]
    split
    · rfl
    · rw [ih, List.map_cons]

theorem ringingFrom_renumber (mono : StrictMono f) (tick index : Nat) (members : List Task) :
    Group.ringingFrom tick index (members.map (renumber f)) =
      (Group.ringingFrom tick index members).map (Prod.map f id) := by
  induction members generalizing index with
  | nil => rfl
  | cons t rest ih =>
    simp only [List.map_cons, Group.ringingFrom, ringing?_renumber mono.monotone, ih]
    cases ringing? tick t with
    | none => rfl
    | some number => exact insertRinging_map mono (number, index) _

/-- The members are woken in the same order. -/
theorem wakeReady_renumber (mono : StrictMono f) (tick : Nat) (members : List Task)
    (ready : List Nat) :
    Group.wakeReady tick (members.map (renumber f)) ready =
      Group.wakeReady tick members ready := by
  have order : (Group.ringingFrom tick 0 (members.map (renumber f))).map Prod.snd =
      (Group.ringingFrom tick 0 members).map Prod.snd := by
    rw [ringingFrom_renumber mono, List.map_map]
    rfl
  rw [Group.wakeReady, Group.wakeReady, order]

theorem wake_renumber (mono : StrictMono f) (tick : Nat) (t : Task) :
    wake tick (renumber f t) = renumber f (wake tick t) := by
  induction t using memberInduction with
  | convert kind inner ih => simp only [renumber, wake, ih]
  | group members ready ih =>
    have woken : Group.wakeReady tick (members.map (renumber f)) =
        Group.wakeReady tick members := funext (wakeReady_renumber mono tick members)
    simp only [renumber, wake, renumberEach_eq_map, wakeEach_eq_map, woken, List.map_map]
    rw [List.map_congr_left (f := wake tick ∘ renumber f) (g := renumber f ∘ wake tick) ih]
  | _ => rfl

/-! ## Polls -/

section Polls

variable {rel : Timeline → Timeline → Prop} {poll : Task → Live (Polled Task)}

/-- Two computations give the same, up to the numbers of timers. -/
structure Alike (f : Nat → Nat) (rel : Timeline → Timeline → Prop)
    (out out' : Polled Task × Timeline) : Prop where
  same : out'.1 = out.1.map (renumber f)
  lines : rel out.2 out'.2

/-- Polls that are the same up to the numbers of timers. -/
abbrev Renumbers (f : Nat → Nat) (rel : Timeline → Timeline → Prop)
    (poll : Task → Live (Polled Task)) : Prop :=
  InStep (renumber f) (fun _ => True) rel poll poll

theorem Renumbers.alike (h : Renumbers f rel poll) (t : Task) {line line' : Timeline}
    (lines : rel line line') : Alike f rel (poll t line) (poll (renumber f t) line') :=
  ⟨h.same trivial lines, h.lines trivial lines⟩

theorem verdictTogether_renumber (f : Nat → Nat) (members : List Task) :
    Group.verdictTogether (members.map (renumber f)) = Group.verdictTogether members := by
  induction members with
  | nil => rfl
  | cons t rest ih =>
    cases t with
    | done result =>
      cases result with
      | ok v => simp only [List.map_cons, renumber, Group.verdictTogether, ih]
      | error reason => rfl
    | _ => simp only [List.map_cons, renumber, Group.verdictTogether, ih]

theorem verdictInTurn_renumber (f : Nat → Nat) (members : List Task) :
    Group.verdictInTurn (members.map (renumber f)) = Group.verdictInTurn members := by
  induction members with
  | nil => rfl
  | cons t rest ih =>
    cases t with
    | done result =>
      cases result with
      | ok v => simp only [List.map_cons, renumber, Group.verdictInTurn, ih]
      | error reason => rfl
    | _ => rfl

theorem task_renumber (f : Nat → Nat) (g : Group) :
    (g.renumber f).task = renumber f g.task := by
  have verdict : (g.renumber f).verdict = g.verdict := by
    unfold Group.verdict Group.renumber
    cases g.ready with
    | none => exact verdictTogether_renumber f _
    | some ready => exact verdictInTurn_renumber f _
  unfold Group.task
  rw [verdict]
  cases g.verdict with
  | waiting => simp only [renumber, renumberEach_eq_map, Group.renumber]
  | _ => rfl

theorem groupPoll_renumber (h : Renumbers f rel poll) (g : Group) {line line' : Timeline}
    (lines : rel line line') :
    ((g.renumber f).poll poll line').1 = (g.poll poll line).1.map (Group.renumber f) ∧
      rel (g.poll poll line).2 ((g.renumber f).poll poll line').2 := by
  obtain ⟨members, ready⟩ := g
  cases ready with
  | none =>
    obtain ⟨same, later, _⟩ := pollTogether_map h
      (fun t _ => isFailed_renumber f t) members line line' (fun _ _ => trivial) lines
    refine ⟨?_, later⟩
    simp only [Group.poll, Group.renumber, Live.bind_apply, Live.pure_apply, same, Polled.map]
  | some ready =>
    obtain ⟨same, later, _⟩ := Queue.pollInTurn_map
      (fun members => (Group.verdictInTurn members).isFailed)
      (fun members => (Group.verdictInTurn members).isFailed) h
      (fun t _ => isSettled_renumber f t)
      (fun members _ => congrArg Verdict.isFailed (verdictInTurn_renumber f members))
      ⟨members, ready⟩ line line' (fun _ _ => trivial) lines
    rw [Queue.map] at same later
    refine ⟨?_, later⟩
    simp only [Group.poll, Group.renumber, Live.bind_apply, Live.pure_apply, same, Polled.map,
      Queue.map]

theorem alike_stepGroup (h : Renumbers f rel poll) (g : Group) {line line' : Timeline}
    (lines : rel line line') :
    Alike f rel (stepGroup poll g line) (stepGroup poll (g.renumber f) line') := by
  obtain ⟨same, later⟩ := groupPoll_renumber h g lines
  refine ⟨?_, later⟩
  simp only [stepGroup, Live.bind_apply, Live.pure_apply, same, Polled.map, task_renumber]

theorem alike_stepConvert (parallel : Timeline.Parallel f rel) (h : Renumbers f rel poll)
    (kind : PlaceholderKind) (inner : Task) {line line' : Timeline} (lines : rel line line') :
    Alike f rel (stepConvert poll kind inner line)
      (stepConvert poll kind (renumber f inner) line') := by
  obtain ⟨same, later⟩ := h.alike inner lines
  have converts : ∀ (t : Task) {line line' : Timeline}, rel line line' →
      (converted kind (renumber f t) line').1 = renumber f (converted kind t line).1 ∧
        rel (converted kind t line).2 (converted kind (renumber f t) line').2 := by
    intro t line line' lines
    cases t with
    | done result =>
      cases result with
      | ok v => exact ⟨rfl, parallel.record _ lines⟩
      | error reason => exact ⟨rfl, lines⟩
    | _ => exact ⟨rfl, lines⟩
  obtain ⟨state, later⟩ := converts (poll inner line).1.state later
  have right : stepConvert poll kind (renumber f inner) line' =
      (⟨(converted kind (renumber f (poll inner line).1.state)
          (poll (renumber f inner) line').2).1, (poll inner line).1.again⟩,
        (converted kind (renumber f (poll inner line).1.state)
          (poll (renumber f inner) line').2).2) := by
    simp only [stepConvert, Live.bind_apply, Live.pure_apply, same, Polled.map]
  rw [right]
  exact ⟨by rw [state]; rfl, later⟩

theorem alike_quiet {line line' : Timeline} (lines : rel line line') (t : Task) :
    Alike f rel (.quiet t, line) (.quiet (renumber f t), line') := ⟨rfl, lines⟩

theorem alike_stepFuture (parallel : Timeline.Parallel f rel) (h : Renumbers f rel poll)
    (mode : Mode) (delay : Nat) (name : Option Text) (outcome : Except Text Value)
    {line line' : Timeline} (lines : rel line line') :
    Alike f rel (stepFuture poll mode delay name outcome line)
      (stepFuture poll mode delay name outcome line') := by
  unfold stepFuture
  split
  · cases outcome with
    | ok value => exact h.alike (fresh mode value) (parallel.record _ lines)
    | error reason => exact alike_quiet (parallel.record _ lines) (done (.error reason))
  · have timer : (Live.setTimer delay line').1 =
        ⟨(Live.setTimer delay line).1.due, f (Live.setTimer delay line).1.number⟩ := by
      have number : f line.timers = line'.timers := parallel.number lines
      simp only [Live.setTimer, parallel.tick lines, number]
    refine ⟨?_, parallel.setTimer delay lines⟩
    show Polled.quiet (asleep mode (Live.setTimer delay line').1 name outcome) = _
    rw [timer]
    rfl

theorem alike_stepFresh (parallel : Timeline.Parallel f rel) (h : Renumbers f rel poll)
    (mode : Mode) (value : Value) {line line' : Timeline} (lines : rel line line') :
    Alike f rel (stepFresh options poll mode value line)
      (stepFresh options poll mode value line') := by
  have settled : ∀ v : Value,
      Alike f rel (.quiet (done (.ok v)), line) (.quiet (done (.ok v)), line') :=
    fun v => alike_quiet lines (done (.ok v))
  cases value with
  | array items =>
    simp only [stepFresh]
    split
    · have both := alike_stepGroup h ⟨items.map (fresh mode), Group.readyAtFirst items.length⟩ lines
      rw [Group.renumber, List.map_map] at both
      exact both
    · exact settled _
  | object entries =>
    obtain ⟨content, expansions⟩ := mode
    cases content with
    | false => exact settled _
    | true =>
      cases expansions with
      | zero => exact settled _
      | succ expansions =>
        simp only [stepFresh, stepObject, if_true]
        cases options.transform? entries with
        | none => exact settled _
        | some transformed =>
          exact h.alike (fresh _ transformed.result) (parallel.record transformed lines)
  | component name body =>
    simp only [stepFresh]
    split
    · exact h.alike (fresh mode body) (parallel.record _ lines)
    · exact settled _
  | resolves delay name value => exact alike_stepFuture parallel h _ _ _ _ lines
  | rejects delay name reason => exact alike_stepFuture parallel h _ _ _ _ lines
  | never => exact alike_quiet lines forever
  | placeholder kind value => exact alike_stepConvert parallel h kind (fresh mode value) lines
  | deferred kind name future =>
    exact alike_stepConvert parallel h kind (fresh mode future)
      (parallel.record (.note (.called name)) lines)
  | _ => exact settled _

theorem alike_step (parallel : Timeline.Parallel f rel) (h : Renumbers f rel poll) (t : Task)
    {line line' : Timeline} (lines : rel line line') :
    Alike f rel (step options poll t line) (step options poll (renumber f t) line') := by
  cases t with
  | fresh mode value => exact alike_stepFresh parallel h mode value lines
  | asleep mode timer name outcome =>
    rw [renumber, step_asleep, step_asleep, parallel.tick lines]
    split
    · exact alike_quiet lines (asleep mode timer name outcome)
    · exact alike_stepFuture parallel h mode 0 name outcome lines
  | forever => exact alike_quiet lines forever
  | convert kind inner => exact alike_stepConvert parallel h kind inner lines
  | group members ready =>
    rw [renumber, renumberEach_eq_map]
    exact alike_stepGroup h ⟨members, ready⟩ lines
  | done result => exact alike_quiet lines (done result)

theorem renumbers_pollWithin (parallel : Timeline.Parallel f rel) (depth : Nat) :
    Renumbers f rel (pollWithin options depth) := by
  induction depth with
  | zero => exact ⟨fun _ _ => rfl, fun _ lines => lines, fun _ _ => trivial⟩
  | succ depth ih =>
    exact ⟨fun _ lines => (alike_step parallel ih _ lines).same,
      fun _ lines => (alike_step parallel ih _ lines).lines, fun _ _ => trivial⟩

end Polls

/-- A poll does the same whatever the numbers of the timers. -/
theorem poll_renumber {rel : Timeline → Timeline → Prop} (parallel : Timeline.Parallel f rel)
    (options : Options) (t : Task) {line line' : Timeline} (lines : rel line line') :
    Alike f rel (poll options t line) (poll options (renumber f t) line') := by
  rw [poll, poll, size_renumber]
  exact (renumbers_pollWithin parallel _).alike t lines

/-! ## The same numbers -/

theorem renumber_id (t : Task) : renumber id t = t := by
  induction t using memberInduction with
  | convert kind inner ih => rw [renumber, ih]
  | group members ready ih =>
    rw [renumber, renumberEach_eq_map, List.map_congr_left ih, List.map_id']
  | _ => rfl

theorem map_renumber_id (members : List Task) : members.map (renumber id) = members := by
  rw [List.map_congr_left fun t _ => renumber_id t, List.map_id']

section Same

variable {rel : Timeline → Timeline → Prop} {line line' : Timeline}

/-- A poll does the same on timelines that have the same tick and set the same timers. -/
theorem poll_same (parallel : Timeline.Parallel id rel) (options : Options) (t : Task)
    (lines : rel line line') :
    (poll options t line').1 = (poll options t line).1 ∧
      rel (poll options t line).2 (poll options t line').2 := by
  obtain ⟨same, lines⟩ := poll_renumber parallel options t lines
  rw [renumber_id] at same lines
  refine ⟨same.trans ?_, lines⟩
  rw [Polled.map, renumber_id]

/-- So does a poll of a group. -/
theorem groupPoll_same (parallel : Timeline.Parallel id rel) (options : Options) (g : Group)
    (lines : rel line line') :
    (g.poll (poll options) line').1 = (g.poll (poll options) line).1 ∧
      rel (g.poll (poll options) line).2 (g.poll (poll options) line').2 := by
  have renumbers : Renumbers id rel (poll options) :=
    ⟨fun _ lines => (poll_renumber parallel options _ lines).same,
      fun _ lines => (poll_renumber parallel options _ lines).lines, fun _ _ => trivial⟩
  have same : ∀ g : Group, g.renumber id = g := fun g => by rw [Group.renumber, map_renumber_id]
  obtain ⟨state, lines⟩ := groupPoll_renumber renumbers g lines
  rw [same] at state lines
  refine ⟨state.trans ?_, lines⟩
  rw [Polled.map, same]

end Same

end Task

end HtmlTemplate

import HtmlTemplate.Proofs.Polling
import HtmlTemplate.Task.Resolve
import Mathlib.Algebra.GroupWithZero.Nat

/-!
# Polls and the size of a task

A poll never leaves more to resolve than there was, and less when it asks to be polled again
(`polls_lessens`). So a poll to the depth of a task's size reaches everything in it: a deeper one
does the same (`pollWithin_congr`), and `Task.poll` is one step whose parts are polled in full
(`poll_eq_step`). From there on nothing needs to speak of depths.
-/

namespace HtmlTemplate

variable {options : Options}

/-- What there is to resolve in a group. -/
def Group.size (options : Options) (g : Group) : Nat :=
  (g.ready.getD []).length + Task.totalSize options g.members

namespace Task

theorem size_group (members : List Task) (ready : Option (List Nat)) :
    size options (group members ready) = Group.size options ⟨members, ready⟩ + 1 := rfl

theorem totalSize_map_fresh (mode : Mode) (items : List Value) :
    totalSize options (items.map (fresh mode)) =
      Value.totalSizeWith (Value.sizeObject options mode.expansions) mode.content items := by
  induction items with
  | nil => rfl
  | cons v rest ih => simp only [List.map_cons, totalSize, Value.totalSizeWith, ih, size]

theorem size_le_totalSize {t : Task} {members : List Task} (h : t ∈ members) :
    size options t ≤ totalSize options members := by
  induction members with
  | nil => cases h
  | cons s rest ih =>
    rw [totalSize]
    rcases List.mem_cons.mp h with rfl | h
    · omega
    · have := ih h
      omega

theorem totalSize_eq_sum (members : List Task) :
    totalSize options members = (members.map (size options)).sum := by
  induction members with
  | nil => rfl
  | cons t rest ih => simp only [totalSize, List.map_cons, List.sum_cons, ih]

/-- A group is no larger as a task, and settled it has no size. -/
theorem size_task_le (options : Options) (g : Group) :
    size options g.task ≤ Group.size options g + 1 := by
  unfold Group.task
  split
  · exact Nat.le_of_eq (size_group _ _)
  · exact Nat.zero_le _
  · exact Nat.zero_le _

/-! ## A poll lessens -/

/-- A poll leaves no more to resolve, and less when it asks for another poll. -/
def Lessens (options : Options) (t : Task) (p : Polled Task) : Prop :=
  size options p.state ≤ size options t ∧
    (p.again = true → size options p.state < size options t)

theorem Lessens.quiet {t t' : Task} (h : size options t' ≤ size options t) :
    Lessens options t (.quiet t') := ⟨h, fun again => by cases again⟩

/-- What lessens a part that is no larger lessens the whole. -/
theorem Lessens.of_le {t part : Task} {p : Polled Task} (h : Lessens options part p)
    (le : size options part ≤ size options t) : Lessens options t p :=
  ⟨Nat.le_trans h.1 le, fun again => Nat.lt_of_lt_of_le (h.2 again) le⟩

theorem totalSize_together {isFailed : Task → Bool} {members : List Task}
    {p : Polled (List Task)} (h : Together (Lessens options) isFailed members p) :
    totalSize options p.state ≤ totalSize options members ∧
      (p.again = true → totalSize options p.state < totalSize options members) := by
  induction h with
  | nil => exact ⟨Nat.le_refl _, fun again => by cases again⟩
  | failed effect _ =>
    simp only [totalSize]
    refine ⟨by have := effect.1; omega, fun again => ?_⟩
    have := effect.2 again
    omega
  | cons effect _ _ ih =>
    obtain ⟨le, lt⟩ := effect
    obtain ⟨le', lt'⟩ := ih
    simp only [totalSize]
    refine ⟨by omega, fun again => ?_⟩
    rcases (Bool.or_eq_true _ _).mp again with again | again
    · have := lt again
      omega
    · have := lt' again
      omega

theorem totalSize_visits {isSettled : Task → Bool} {n : Nat} {q q' : Queue Task}
    (h : Queue.Visits (Lessens options) isSettled n q q') :
    q'.ready.length + totalSize options q'.members + n ≤
      q.ready.length + totalSize options q.members := by
  rw [totalSize_eq_sum, totalSize_eq_sum]
  exact h.weight (size options) fun effect => effect

/-- Everything is ready to be polled, as far as its size goes. -/
abbrev Sized (options : Options) (poll : Task → Live (Polled Task)) : Prop :=
  Polls poll (fun _ _ => True) (Lessens options)

/-- The poll of a group leaves no more to resolve, and less when it asks for another one. -/
theorem size_groupPoll {poll : Task → Live (Polled Task)} (h : Sized options poll) (g : Group)
    (line : Timeline) :
    line.Later (g.poll poll line).2 ∧
      Group.size options (g.poll poll line).1.state ≤ Group.size options g ∧
      ((g.poll poll line).1.again = true →
        Group.size options (g.poll poll line).1.state < Group.size options g) := by
  obtain ⟨members, ready⟩ := g
  cases ready with
  | none =>
    obtain ⟨round, later, _⟩ := together_pollTogether h isFailed members line (by simp)
    obtain ⟨le, lt⟩ := totalSize_together round
    exact ⟨later, Nat.add_le_add_left le 0, fun again => Nat.add_lt_add_left (lt again) 0⟩
  | some ready =>
    obtain ⟨n, turned, asks⟩ := Queue.turned_pollInTurn isSettled
      (fun members => (Group.verdictInTurn members).isFailed) h ⟨members, ready⟩ line
      (fun _ _ => trivial)
    have bound := totalSize_visits turned.visits
    refine ⟨turned.later, Nat.le_of_add_right_le bound, fun again => ?_⟩
    have := asks again
    exact Nat.lt_of_lt_of_le (Nat.lt_add_of_pos_right this) bound

theorem lessens_stepGroup {poll : Task → Live (Polled Task)} (h : Sized options poll) (g : Group)
    (line : Timeline) {t : Task} (le : Group.size options g + 1 ≤ size options t) :
    line.Later (stepGroup poll g line).2 ∧ Lessens options t (stepGroup poll g line).1 := by
  obtain ⟨later, bound, strict⟩ := size_groupPoll h g line
  have whole := size_task_le options (g.poll poll line).1.state
  refine ⟨later, ?_, fun again => ?_⟩
  · show size options (g.poll poll line).1.state.task ≤ _
    omega
  · have := strict again
    show size options (g.poll poll line).1.state.task < _
    omega

theorem later_converted (kind : PlaceholderKind) (t : Task) (line : Timeline) :
    line.Later (converted kind t line).2 := by
  cases t with
  | done result => cases result <;> exact .refl line
  | _ => exact .refl line

theorem size_converted_le (options : Options) (kind : PlaceholderKind) (t : Task)
    (line : Timeline) :
    size options (converted kind t line).1 ≤ size options t + 1 := by
  cases t with
  | done result => cases result <;> exact Nat.zero_le _
  | _ => exact Nat.le_refl _

theorem lessens_stepConvert {poll : Task → Live (Polled Task)} (h : Sized options poll)
    (kind : PlaceholderKind) (inner : Task) (line : Timeline) {t : Task}
    (le : size options inner + 1 ≤ size options t) :
    line.Later (stepConvert poll kind inner line).2 ∧
      Lessens options t (stepConvert poll kind inner line).1 := by
  have later : line.Later (poll inner line).2 := h.later trivial
  obtain ⟨bound, strict⟩ : Lessens options inner (poll inner line).1 := h.effect trivial
  have kept := size_converted_le options kind (poll inner line).1.state
    (poll inner line).2
  refine ⟨later.trans (later_converted _ _ _), ?_, fun again => ?_⟩
  · show size options (converted kind (poll inner line).1.state (poll inner line).2).1 ≤ _
    omega
  · have := strict again
    show size options (converted kind (poll inner line).1.state (poll inner line).2).1 < _
    omega

theorem lessens_stepFuture {poll : Task → Live (Polled Task)} (h : Sized options poll) (mode : Mode)
    (delay : Nat) (name : Option Text) (outcome : Except Text Value) (line : Timeline) {t : Task}
    (le : size options (asleep mode ⟨0, 0⟩ name outcome) ≤ size options t) :
    line.Later (stepFuture poll mode delay name outcome line).2 ∧
      Lessens options t (stepFuture poll mode delay name outcome line).1 := by
  unfold stepFuture
  split
  · cases outcome with
    | ok value =>
      have le : size options (fresh mode value) ≤ size options t := Nat.le_of_succ_le le
      exact ⟨(Live.later_note _ line).trans (h.later trivial), (h.effect trivial).of_le le⟩
    | error reason => exact ⟨Live.later_note _ line, .quiet (Nat.zero_le _)⟩
  · refine ⟨Live.later_setTimer delay line, .quiet ?_⟩
    cases outcome with
    | ok value => exact le
    | error reason => exact le

theorem lessens_stepObject {poll : Task → Live (Polled Task)} (h : Sized options poll) (mode : Mode)
    (entries : List (Text × Value)) (line : Timeline) :
    line.Later (stepObject options poll mode entries line).2 ∧
      Lessens options (fresh mode (.object entries))
        (stepObject options poll mode entries line).1 := by
  obtain ⟨content, expansions⟩ := mode
  have settled : ∀ v : Value, line.Later line ∧
      Lessens options (fresh ⟨content, expansions⟩ (.object entries)) (.quiet (done (.ok v))) :=
    fun v => ⟨.refl line, .quiet (Nat.zero_le _)⟩
  cases content with
  | false => exact settled _
  | true =>
    cases expansions with
    | zero => exact settled _
    | succ expansions =>
      simp only [stepObject, if_true]
      cases found : options.transform? entries with
      | none => exact settled _
      | some transformed =>
        have le : size options (fresh ⟨true, expansions⟩ transformed.result) ≤
            size options (fresh ⟨true, expansions + 1⟩ (.object entries)) := by
          simp [size, Value.sizeWith, Value.sizeObject, found]
        exact ⟨(Live.later_record transformed line).trans (h.later trivial),
          (h.effect trivial).of_le le⟩

theorem lessens_stepFresh {poll : Task → Live (Polled Task)} (h : Sized options poll) (mode : Mode)
    (value : Value) (line : Timeline) :
    line.Later (stepFresh options poll mode value line).2 ∧
      Lessens options (fresh mode value) (stepFresh options poll mode value line).1 := by
  have settled : ∀ v : Value, line.Later line ∧
      Lessens options (fresh mode value) (.quiet (done (.ok v))) :=
    fun v => ⟨.refl line, .quiet (Nat.zero_le _)⟩
  cases value with
  | array items =>
    simp only [stepFresh]
    split
    · rename_i waits
      refine lessens_stepGroup h _ line ?_
      have queue : ((Group.readyAtFirst items.length).getD []).length ≤ items.length := by
        unfold Group.readyAtFirst
        split <;> simp
      simp only [Group.size, totalSize_map_fresh, size, Value.sizeWith, if_pos waits]
      omega
    · exact settled _
  | object entries => exact lessens_stepObject h mode entries line
  | component name body =>
    simp only [stepFresh]
    split
    · rename_i content
      have le : size options (fresh mode body) ≤
          size options (fresh mode (.component name body)) := by
        simp [size, Value.sizeWith, content]
      exact ⟨(Live.later_note _ line).trans (h.later trivial), (h.effect trivial).of_le le⟩
    · exact settled _
  | resolves delay name value => exact lessens_stepFuture h _ _ _ _ line (Nat.le_refl _)
  | rejects delay name reason => exact lessens_stepFuture h _ _ _ _ line (Nat.le_refl _)
  | never => exact ⟨.refl line, .quiet (Nat.zero_le _)⟩
  | placeholder kind value => exact lessens_stepConvert h _ _ line (Nat.le_refl _)
  | deferred kind name future =>
    obtain ⟨later, lessens⟩ := lessens_stepConvert h kind (fresh mode future)
      (Live.note (.called name) line).2 (t := fresh mode (.deferred kind name future))
      (Nat.le_refl _)
    exact ⟨(Live.later_note _ line).trans later, lessens⟩
  | _ => exact settled _

/-- A task that waits for a timer goes on, once it has rung, as if there were no delay. -/
theorem step_asleep (poll : Task → Live (Polled Task)) (mode : Mode) (timer : Timer)
    (name : Option Text) (outcome : Except Text Value) (line : Timeline) :
    step options poll (asleep mode timer name outcome) line =
      if line.now < timer.due then (.quiet (asleep mode timer name outcome), line)
      else stepFuture poll mode 0 name outcome line := by
  have unfolded : step options poll (asleep mode timer name outcome) line =
      (if line.now < timer.due then pure (.quiet (asleep mode timer name outcome))
        else stepFuture poll mode 0 name outcome : Live (Polled Task)) line := rfl
  rw [unfolded]
  split <;> rfl

theorem lessens_step {poll : Task → Live (Polled Task)} (h : Sized options poll) (t : Task)
    (line : Timeline) :
    line.Later (step options poll t line).2 ∧ Lessens options t (step options poll t line).1 := by
  cases t with
  | fresh mode value => exact lessens_stepFresh h mode value line
  | asleep mode timer name outcome =>
    rw [step_asleep]
    split
    · exact ⟨.refl line, .quiet (Nat.le_refl _)⟩
    · refine lessens_stepFuture h _ _ _ _ line ?_
      cases outcome <;> exact Nat.le_refl _
  | forever => exact ⟨.refl line, .quiet (Nat.le_refl _)⟩
  | convert kind inner => exact lessens_stepConvert h kind inner line (Nat.le_refl _)
  | group members ready => exact lessens_stepGroup h ⟨members, ready⟩ line (Nat.le_refl _)
  | done result => exact ⟨.refl line, .quiet (Nat.le_refl _)⟩

/-- A poll to any depth leaves no more to resolve, and less when it asks for another poll. -/
theorem sized_pollWithin (depth : Nat) : Sized options (pollWithin options depth) := by
  induction depth with
  | zero =>
    exact ⟨fun _ _ => trivial, fun _ => .refl _, fun _ => trivial, fun _ => .quiet (Nat.le_refl _)⟩
  | succ depth ih =>
    exact ⟨fun _ _ => trivial, fun _ => (lessens_step ih _ _).1, fun _ => trivial,
      fun _ => (lessens_step ih _ _).2⟩

/-- A poll leaves no more to resolve, and less when it asks for another one. -/
theorem polls_lessens : Sized options (poll options) :=
  ⟨fun _ _ => trivial, fun _ => (sized_pollWithin _).later trivial, fun _ => trivial,
    fun _ => (sized_pollWithin _).effect trivial⟩

/-! ## Depths do not matter -/

/-- Two polls do the same with whatever is no larger than a bound. -/
def SameUpTo (options : Options) (bound : Nat) (poll poll' : Task → Live (Polled Task)) : Prop :=
  ∀ t line, size options t ≤ bound → poll' t line = poll t line

section Congr

variable {bound : Nat} {poll poll' : Task → Live (Polled Task)}

theorem SameUpTo.inStep (same : SameUpTo options bound poll poll') (h : Sized options poll) :
    InStep id (fun t => size options t ≤ bound) Eq poll poll' where
  same le lines := by rw [← lines]; exact congrArg Prod.fst (same _ _ le)
  lines le lines := by rw [← lines]; exact (congrArg Prod.snd (same _ _ le)).symm
  keeps le _ := Nat.le_trans (h.effect trivial).1 le

theorem groupPoll_congr (same : SameUpTo options bound poll poll') (h : Sized options poll)
    (g : Group) (line : Timeline) (le : totalSize options g.members ≤ bound) :
    g.poll poll' line = g.poll poll line := by
  obtain ⟨members, ready⟩ := g
  have small : ∀ t ∈ members, size options t ≤ bound := fun t member =>
    Nat.le_trans (size_le_totalSize member) le
  cases ready with
  | none =>
    obtain ⟨state, lines, _⟩ := pollTogether_map (same.inStep h)
      (fun t _ => (rfl : isFailed t = isFailed t)) members line line small rfl
    rw [List.map_id] at state lines
    have whole : pollTogether poll' isFailed members line =
        pollTogether poll isFailed members line :=
      Prod.ext (state.trans (by simp [Polled.map])) lines.symm
    simp only [Group.poll, Live.bind_apply, whole]
  | some ready =>
    obtain ⟨state, lines, _⟩ := Queue.pollInTurn_map
      (fun members => (Group.verdictInTurn members).isFailed)
      (fun members => (Group.verdictInTurn members).isFailed) (same.inStep h)
      (fun t _ => (rfl : isSettled t = isSettled t)) (fun members _ => by rw [List.map_id])
      ⟨members, ready⟩ line line small rfl
    have whole : Queue.pollInTurn poll' isSettled
        (fun members => (Group.verdictInTurn members).isFailed) ⟨members, ready⟩ line =
        Queue.pollInTurn poll isSettled
          (fun members => (Group.verdictInTurn members).isFailed) ⟨members, ready⟩ line := by
      refine Prod.ext ?_ ?_
      · simpa [Queue.map, Polled.map] using state
      · simpa [Queue.map] using lines.symm
    simp only [Group.poll, Live.bind_apply, whole]

theorem stepGroup_congr (same : SameUpTo options bound poll poll') (h : Sized options poll)
    (g : Group) (line : Timeline) (le : totalSize options g.members ≤ bound) :
    stepGroup poll' g line = stepGroup poll g line := by
  simp only [stepGroup, Live.bind_apply, groupPoll_congr same h g line le]

theorem stepConvert_congr (same : SameUpTo options bound poll poll') (kind : PlaceholderKind)
    (inner : Task) (line : Timeline) (le : size options inner ≤ bound) :
    stepConvert poll' kind inner line = stepConvert poll kind inner line := by
  simp only [stepConvert, Live.bind_apply, same inner line le]

theorem stepFuture_congr (same : SameUpTo options bound poll poll') (mode : Mode) (delay : Nat)
    (name : Option Text) (outcome : Except Text Value) (line : Timeline)
    (le : size options (asleep mode ⟨0, 0⟩ name outcome) ≤ bound + 1) :
    stepFuture poll' mode delay name outcome line =
      stepFuture poll mode delay name outcome line := by
  cases outcome with
  | ok value =>
    have le : size options (fresh mode value) ≤ bound := Nat.le_of_succ_le_succ le
    simp only [stepFuture]
    split
    · exact same _ _ le
    · rfl
  | error reason => rfl

theorem stepFresh_congr (same : SameUpTo options bound poll poll') (h : Sized options poll)
    (mode : Mode) (value : Value) (line : Timeline)
    (le : size options (fresh mode value) ≤ bound + 1) :
    stepFresh options poll' mode value line = stepFresh options poll mode value line := by
  cases value with
  | array items =>
    simp only [stepFresh]
    split
    · rename_i waits
      refine stepGroup_congr same h _ line ?_
      simp only [size, Value.sizeWith, if_pos waits] at le
      rw [totalSize_map_fresh]
      omega
    · rfl
  | object entries =>
    obtain ⟨content, expansions⟩ := mode
    cases content with
    | false => rfl
    | true =>
      cases expansions with
      | zero => rfl
      | succ expansions =>
        simp only [stepFresh, stepObject, if_true]
        cases found : options.transform? entries with
        | none => rfl
        | some transformed =>
          refine same _ _ ?_
          simpa [size, Value.sizeWith, Value.sizeObject, found] using le
  | component name body =>
    simp only [stepFresh]
    split
    · rename_i content
      refine same _ _ ?_
      simpa [size, Value.sizeWith, content] using le
    · rfl
  | resolves delay name value => exact stepFuture_congr same _ _ _ _ line le
  | rejects delay name reason => exact stepFuture_congr same _ _ _ _ line le
  | placeholder kind value =>
    exact stepConvert_congr same _ _ line (Nat.le_of_succ_le_succ le)
  | deferred kind name future =>
    exact stepConvert_congr same _ _ _ (Nat.le_of_succ_le_succ le)
  | _ => rfl

/-- A step does the same with polls that do the same with its parts. -/
theorem step_congr (same : SameUpTo options bound poll poll') (h : Sized options poll) (t : Task)
    (line : Timeline) (le : size options t ≤ bound + 1) :
    step options poll' t line = step options poll t line := by
  cases t with
  | fresh mode value => exact stepFresh_congr same h mode value line le
  | asleep mode timer name outcome =>
    rw [step_asleep, step_asleep]
    split
    · rfl
    · refine stepFuture_congr same _ _ _ _ line ?_
      cases outcome <;> exact le
  | forever => rfl
  | convert kind inner => exact stepConvert_congr same kind inner line (Nat.le_of_succ_le_succ le)
  | group members ready =>
    refine stepGroup_congr same h ⟨members, ready⟩ line ?_
    simp only [size] at le
    show totalSize options members ≤ bound
    omega
  | done result => rfl

end Congr

/-- Only what waits for nothing has no size. -/
theorem eq_of_size_eq_zero {t : Task} (h : size options t = 0) :
    t = forever ∨ ∃ result, t = done result := by
  cases t with
  | fresh mode value =>
    have : 0 < value.sizeWith (Value.sizeObject options mode.expansions) mode.content := by
      unfold Value.sizeWith
      split <;> (try split) <;> omega
    simp only [size] at h
    omega
  | asleep mode timer name outcome => cases outcome <;> simp [size] at h
  | forever => exact .inl rfl
  | convert kind inner => simp [size] at h
  | group members ready => simp [size] at h
  | done result => exact .inr ⟨result, rfl⟩

/-- Depths that reach everything in a task do not matter. -/
theorem pollWithin_congr {bound depth depth' : Nat} (le : bound ≤ depth) (le' : bound ≤ depth') :
    SameUpTo options bound (pollWithin options depth) (pollWithin options depth') := by
  induction bound generalizing depth depth' with
  | zero =>
    intro t line small
    have idle : ∀ depth, pollWithin options depth t line = (.quiet t, line) := by
      intro depth
      cases depth with
      | zero => rfl
      | succ depth =>
        rcases eq_of_size_eq_zero (Nat.le_zero.mp small) with rfl | ⟨result, rfl⟩ <;> rfl
    rw [idle, idle]
  | succ bound ih =>
    intro t line small
    obtain ⟨depth, rfl⟩ : ∃ d, depth = d + 1 := ⟨depth - 1, by omega⟩
    obtain ⟨depth', rfl⟩ : ∃ d, depth' = d + 1 := ⟨depth' - 1, by omega⟩
    exact step_congr (ih (Nat.le_of_succ_le_succ le) (Nat.le_of_succ_le_succ le'))
      (sized_pollWithin depth) t line small

/-- A poll is a step whose parts are polled in full. -/
theorem poll_eq_step (t : Task) (line : Timeline) :
    poll options t line = step options (poll options) t line := by
  have deeper : poll options t line = pollWithin options (size options t + 1) t line :=
    (pollWithin_congr (Nat.le_refl _) (Nat.le_succ _) t line (Nat.le_refl _)).symm
  rw [deeper]
  have same : SameUpTo options (size options t) (pollWithin options (size options t))
      (poll options) := fun s line small =>
    pollWithin_congr small (Nat.le_refl _) s line (Nat.le_refl _)
  exact (step_congr same (sized_pollWithin _) t line (Nat.le_succ _)).symm

end Task

end HtmlTemplate

import HtmlTemplate.Proofs.Render.Counted
import HtmlTemplate.Proofs.Task.Wake

/-!
# When the values of a page begin to resolve

Nothing of a stream happens before somebody polls it, and a poll goes no further than it has to: the
steps are polled in order until the next fragment is there. So the first poll gives out the first
chunk and leaves all values as they are. The steps that have begun are always the first ones
(`BegunUpTo`), and all of them have begun as soon as a poll has to wait
(`Template.fragments_begun`).
-/

namespace HtmlTemplate

variable {options : Options}

/-! ## Tasks that were polled -/

namespace Task

/-- Whether nobody has asked for the value yet. -/
def isFresh : Task → Bool
  | fresh .. => true
  | _ => false

@[simp] theorem isFresh_task (g : Group) : g.task.isFresh = false := by
  unfold Group.task
  split <;> rfl

@[simp] theorem isFresh_wake (tick : Nat) (t : Task) : (wake tick t).isFresh = t.isFresh := by
  cases t <;> simp [wake, isFresh]

theorem isFresh_converted (kind : PlaceholderKind) {t : Task} (polled : t.isFresh = false)
    (line : Timeline) : (converted kind t line).1.isFresh = false := by
  cases t with
  | fresh => cases polled
  | done result => cases result <;> rfl
  | _ => rfl

theorem isFresh_of_ringing {tick : Nat} {t : Task} (rings : ringing? tick t ≠ none) :
    t.isFresh = false := by
  cases t with
  | fresh => exact absurd rfl rings
  | _ => rfl

section Within

variable {depth : Nat}

/-- Polls to a depth leave nobody fresh who is small enough. -/
def Freshens (options : Options) (depth : Nat) : Prop :=
  ∀ t line, size options t ≤ depth → (pollWithin options depth t line).1.state.isFresh = false

theorem isFresh_stepConvert (h : Freshens options depth) (kind : PlaceholderKind) {inner : Task}
    (small : size options inner ≤ depth) (line : Timeline) :
    (stepConvert (pollWithin options depth) kind inner line).1.state.isFresh = false :=
  isFresh_converted kind (h inner line small) _

theorem isFresh_stepFuture (h : Freshens options depth) (mode : Mode) (delay : Nat)
    (name : Option Text) (outcome : Except Text Value)
    (small : size options (asleep mode ⟨0, 0⟩ name outcome) ≤ depth + 1) (line : Timeline) :
    (stepFuture (pollWithin options depth) mode delay name outcome line).1.state.isFresh =
      false := by
  unfold stepFuture
  split
  · cases outcome with
    | ok value => exact h (fresh mode value) _ (Nat.le_of_succ_le_succ small)
    | error reason => rfl
  · rfl

theorem isFresh_stepFresh (h : Freshens options depth) (mode : Mode) (value : Value)
    (small : size options (fresh mode value) ≤ depth + 1) (line : Timeline) :
    (stepFresh options (pollWithin options depth) mode value line).1.state.isFresh = false := by
  cases value with
  | array items =>
    simp only [stepFresh]
    split
    · exact isFresh_task _
    · rfl
  | object entries =>
    obtain ⟨content, expansions⟩ := mode
    cases content with
    | false => rfl
    | true =>
      cases expansions with
      | zero => rfl
      | succ expansions =>
        simp only [stepFresh, stepObject, if_true]
        cases found : options.transform? entries with
        | none => rfl
        | some transformed =>
          refine h (fresh ⟨true, expansions⟩ transformed.result) _ ?_
          simpa [size, Value.sizeWith, Value.sizeObject, found] using small
  | component name body =>
    simp only [stepFresh]
    split
    · rename_i content
      refine h (fresh mode body) _ ?_
      simpa [size, Value.sizeWith, content] using small
    · rfl
  | resolves delay name value => exact isFresh_stepFuture h mode delay name (.ok value) small line
  | rejects delay name reason =>
    exact isFresh_stepFuture h mode delay name (.error reason) small line
  | placeholder kind value =>
    have small : size options (fresh mode value) ≤ depth := Nat.le_of_succ_le_succ small
    exact isFresh_stepConvert h kind small line
  | deferred kind name future =>
    have small : size options (fresh mode future) ≤ depth := Nat.le_of_succ_le_succ small
    exact isFresh_stepConvert h kind small _
  | _ => rfl

theorem freshens (options : Options) (depth : Nat) : Freshens options depth := by
  induction depth with
  | zero =>
    intro t line small
    rcases eq_of_size_eq_zero (Nat.le_zero.mp small) with rfl | ⟨result, rfl⟩ <;> rfl
  | succ depth ih =>
    intro t line small
    show (step options (pollWithin options depth) t line).1.state.isFresh = false
    cases t with
    | fresh mode value => exact isFresh_stepFresh ih mode value small line
    | asleep mode timer name outcome =>
      rw [step_asleep]
      split
      · rfl
      · refine isFresh_stepFuture ih mode 0 name outcome ?_ line
        cases outcome <;> exact small
    | convert kind inner => exact isFresh_stepConvert ih kind (Nat.le_of_succ_le_succ small) line
    | group members ready => exact isFresh_task _
    | _ => rfl

end Within

/-- Whoever was polled is not fresh any more. -/
theorem isFresh_poll (options : Options) (t : Task) (line : Timeline) :
    (poll options t line).1.state.isFresh = false :=
  freshens options _ t line (Nat.le_refl _)

end Task

/-! ## Steps that have begun -/

namespace Step

/-- Whether somebody has polled the step. -/
def isBegun : Step → Bool
  | literal _ => false
  | resolving _ _ task => !task.isFresh
  | finished _ => true

@[simp] theorem isBegun_wake (tick : Nat) (s : Step) : (s.wake tick).isBegun = s.isBegun := by
  cases s <;> simp [wake, isBegun]

theorem isBegun_of_result {s : Step} (settled : s.result?.isSome = true) : s.isBegun = true := by
  cases s with
  | finished result => rfl
  | _ => cases settled

/-- A timer rings only for steps that have begun. -/
theorem begun_of_ringing {tick : Nat} {s : Step} (rings : s.task.ringing? tick ≠ none) :
    s.isBegun = true := by
  cases s with
  | resolving slot writing task =>
    have polled : task.isFresh = false := Task.isFresh_of_ringing rings
    rw [isBegun, polled]
    rfl
  | _ => exact absurd rfl rings

/-- Whatever was polled has begun. -/
theorem polls_begun (options : Options) :
    Polls (poll options) (fun _ _ => True) (fun _ p => p.state.isBegun = true) := by
  refine ⟨fun _ _ => trivial, fun _ => (lessens_poll options _ _).later, fun _ => trivial,
    fun {line s} _ => ?_⟩
  cases s with
  | literal text => rfl
  | finished result => rfl
  | resolving slot writing task =>
    have begun := Task.isFresh_poll options task line
    rcases polled : task.poll options line with ⟨⟨t, again⟩, line'⟩
    rw [polled] at begun
    cases t with
    | done result =>
      cases result with
      | ok value =>
        rw [poll_of_value polled]
        rfl
      | error reason =>
        rw [poll_of_error polled]
        rfl
    | fresh => cases begun
    | _ =>
      rw [poll_of_unsettled polled rfl]
      rfl

end Step

namespace Fragments

/-! ## The first steps have begun -/

/-- The first `k` steps have begun, and no other one. -/
structure BegunUpTo (k : Nat) (steps : List Step) : Prop where
  bound : k ≤ steps.length
  begun : ∀ i s, steps[i]? = some s → (s.isBegun = true ↔ i < k)

/-- The steps that have not begun are the next ones in the queue, in order. -/
structure Lined (k : Nat) (q : Queue Step) : Prop where
  steps : BegunUpTo k q.members
  queue : ∃ others, q.ready = List.range' k (q.members.length - k) ++ others ∧ ∀ i ∈ others, i < k

variable {f g : Fragments} {k : Nat}

/-- All steps have begun exactly when there are no others. -/
theorem BegunUpTo.all {steps : List Step} (h : BegunUpTo k steps) :
    (∀ s ∈ steps, s.isBegun = true) ↔ k = steps.length := by
  constructor
  · intro each
    by_contra other
    have inside : k < steps.length := Nat.lt_of_le_of_ne h.bound other
    have begun := each _ (List.getElem_mem inside)
    exact Nat.lt_irrefl k ((h.begun k _ (List.getElem?_eq_getElem inside)).mp begun)
  · intro whole s member
    obtain ⟨i, found⟩ := List.mem_iff_getElem?.mp member
    obtain ⟨inside, _⟩ := List.getElem?_eq_some_iff.mp found
    exact (h.begun i s found).mpr (whole ▸ inside)

/-- A step that has begun, in the place of one that may have, or of the next one. -/
theorem BegunUpTo.set {steps : List Step} {i k' : Nat} {s : Step} (h : BegunUpTo k steps)
    (begun : s.isBegun = true) (next : k' = k ∧ i < k ∨ k' = k + 1 ∧ i = k ∧ k < steps.length) :
    BegunUpTo k' (steps.set i s) := by
  refine ⟨?_, fun j t found => ?_⟩
  · have bound := h.bound
    rw [List.length_set]
    omega
  · by_cases same : i = j
    · subst same
      obtain ⟨inside, _⟩ := List.getElem?_eq_some_iff.mp found
      rw [List.length_set] at inside
      rw [List.getElem?_set_self inside] at found
      obtain rfl : s = t := Option.some.inj found
      exact iff_of_true begun (by omega)
    · rw [List.getElem?_set_ne same] at found
      rw [h.begun j t found]
      omega

/-- A turn of the queue, where the step whose turn it was joins the end of the queue or not. -/
theorem Lined.turn {members : List Step} {i : Nat} {rest last : List Nat} {t : Step}
    (h : Lined k ⟨members, i :: rest⟩) (begun : t.isBegun = true)
    (joins : ∀ j ∈ last, j = i) : ∃ k' ≥ k, Lined k' ⟨members.set i t, rest ++ last⟩ := by
  obtain ⟨others, queue, small⟩ := h.queue
  have bound : k ≤ members.length := h.steps.bound
  replace queue : i :: rest = List.range' k (members.length - k) ++ others := queue
  rcases Nat.lt_or_eq_of_le bound with more | whole
  · obtain ⟨n, left⟩ : ∃ n, members.length - k = n + 1 := ⟨members.length - k - 1, by omega⟩
    rw [left, List.range'_succ, List.cons_append] at queue
    obtain ⟨rfl, rfl⟩ := List.cons_eq_cons.mp queue
    refine ⟨i + 1, Nat.le_succ i, h.steps.set begun (.inr ⟨rfl, rfl, more⟩), others ++ last, ?_, ?_⟩
    · have left' : members.length - (i + 1) = n := by omega
      show _ = List.range' (i + 1) ((members.set i t).length - (i + 1)) ++ _
      rw [List.length_set, left', List.append_assoc]
    · intro j member
      rcases List.mem_append.mp member with member | member
      · exact Nat.lt_succ_of_lt (small j member)
      · exact Nat.lt_succ_of_le (Nat.le_of_eq (joins j member))
  · rw [whole, Nat.sub_self, List.range'_zero, List.nil_append] at queue
    have inside : i < k := small i (queue ▸ List.mem_cons_self)
    refine ⟨k, Nat.le_refl k, h.steps.set begun (.inl ⟨rfl, inside⟩), rest ++ last, ?_, ?_⟩
    · show _ = List.range' k ((members.set i t).length - k) ++ _
      rw [List.length_set, whole, Nat.sub_self, List.range'_zero, List.nil_append]
    · intro j member
      rcases List.mem_append.mp member with member | member
      · exact small j (queue ▸ List.mem_cons_of_mem i member)
      · exact joins j member ▸ inside

/-- Turns begin the steps in order. -/
theorem Lined.visits {n : Nat} {q q' : Queue Step} {isSettled : Step → Bool}
    (h : Lined k q)
    (visits : Queue.Visits (fun _ p => p.state.isBegun = true) isSettled n q q') :
    ∃ k' ≥ k, Lined k' q' := by
  induction visits generalizing k with
  | refl => exact ⟨k, Nat.le_refl k, h⟩
  | @absent n members i rest q missing _ ih =>
    exfalso
    obtain ⟨others, queue, small⟩ := h.queue
    have bound : k ≤ members.length := h.steps.bound
    have outside : members.length ≤ i := List.getElem?_eq_none_iff.mp missing
    have member : i ∈ List.range' k (members.length - k) ++ others :=
      queue ▸ (List.mem_cons_self : i ∈ i :: rest)
    rcases List.mem_append.mp member with member | member
    · have := (List.mem_range'_1.mp member).2
      omega
    · have := small i member
      omega
  | leaves _ effect _ _ ih =>
    obtain ⟨k₁, le, lined⟩ := h.turn effect fun j (member : j ∈ []) => by cases member
    rw [List.append_nil] at lined
    obtain ⟨k₂, le', lined⟩ := ih lined
    exact ⟨k₂, Nat.le_trans le le', lined⟩
  | asks _ effect _ _ _ ih =>
    obtain ⟨k₁, le, lined⟩ := h.turn effect fun j member => List.mem_singleton.mp member
    obtain ⟨k₂, le', lined⟩ := ih lined
    exact ⟨k₂, Nat.le_trans le le', lined⟩

/-- A stream on which nothing has failed: the steps begin in order, and what was given out has
begun. -/
structure Beginning (k : Nat) (f : Fragments) : Prop where
  going : f.failed = false
  given : f.given ≤ k
  lined : Lined k ⟨f.steps, f.ready⟩
  fit : Queue.Fit (fun s : Step => s.result?.isSome) ⟨f.steps, f.ready⟩

theorem Beginning.ofSteps {steps : List Step} (fresh : ∀ s ∈ steps, s.isBegun = false) :
    Beginning 0 (ofSteps steps) := by
  refine ⟨rfl, Nat.le_refl 0, ⟨⟨Nat.zero_le _, fun i s found => ?_⟩, [], ?_, ?_⟩,
    fit_ofSteps fun s member => ?_⟩
  · rw [fresh s (List.mem_of_getElem? found)]
    simp
  · rw [Nat.sub_zero, List.append_nil]
    exact List.range_eq_range'
  · intro i member
    cases member
  · have new := fresh s member
    cases result : s.result? with
    | none => rfl
    | some item =>
      rw [Step.isBegun_of_result (by simp [result])] at new
      cases new

theorem Beginning.give (h : Beginning k f) {text : Text}
    (front : front? f.given f.steps = some (.ok text)) :
    Beginning k { f with given := f.given + 1 } := by
  obtain ⟨s, found, result⟩ := Option.bind_eq_some_iff.mp front
  have begun : s.isBegun = true := Step.isBegun_of_result (by simp [result])
  exact ⟨h.going, (h.lined.steps.begun f.given s found).mp begun, h.lined, h.fit⟩

theorem Beginning.wake (h : Beginning k f) (tick : Nat) :
    Beginning k ((waiting options).wake tick f) := by
  refine ⟨h.going, h.given, ⟨⟨?_, fun i s found => ?_⟩, ?_⟩, fit_wake options h.fit tick⟩
  · show k ≤ (f.steps.map (Step.wake tick)).length
    rw [List.length_map]
    exact h.lined.steps.bound
  · replace found : (f.steps.map (Step.wake tick))[i]? = some s := found
    rw [List.getElem?_map] at found
    obtain ⟨t, place, rfl⟩ := Option.map_eq_some_iff.mp found
    rw [Step.isBegun_wake]
    exact h.lined.steps.begun i t place
  · obtain ⟨others, queue, small⟩ := h.lined.queue
    replace queue : f.ready = List.range' k (f.steps.length - k) ++ others := queue
    obtain ⟨woken, joined⟩ : ∃ woken, ((waiting options).wake tick f).ready = f.ready ++ woken :=
      ⟨_, rfl⟩
    refine ⟨others ++ woken, ?_, ?_⟩
    · show ((waiting options).wake tick f).ready =
        List.range' k ((f.steps.map (Step.wake tick)).length - k) ++ (others ++ woken)
      rw [List.length_map, ← List.append_assoc, ← queue, joined]
    · intro i member
      rcases List.mem_append.mp member with member | member
      · exact small i member
      · have nodup : ((waiting options).wake tick f).ready.Nodup :=
          (fit_wake options h.fit tick).nodup
        rw [joined] at nodup
        have outside : i ∉ f.ready := fun inside =>
          (List.nodup_append.mp nodup).2.2 i inside i member rfl
        have inside : i ∈ ((waiting options).wake tick f).ready :=
          joined ▸ List.mem_append_right f.ready member
        obtain ⟨s, found, rings⟩ := ((mem_ready_wake options).mp inside).resolve_left outside
        exact (h.lined.steps.begun i s found).mp (Step.begun_of_ringing rings)

/-! ## Polls -/

/-- What a poll makes of a stream whose steps begin in order: they still do, and all of them have
begun when it has to wait; or it has failed. -/
def Begins (k : Nat) (out : Fragments × Reply (Option Item)) : Prop :=
  out.1.failed = true ∧ out.2 ≠ .waiting ∨
    ∃ k' ≥ k, Beginning k' out.1 ∧ (out.2 = .waiting → k' = out.1.steps.length)

theorem begins_give {k' : Nat} (le : k ≤ k') (h : Beginning k' g) {item : Item}
    (front : front? g.given g.steps = some item) (line : Timeline) :
    Begins k (g.give item line).1 := by
  cases item with
  | ok text => exact .inr ⟨k', le, h.give front, fun same => by cases same⟩
  | error error => exact .inl ⟨rfl, fun same => by cases same⟩

theorem begins_poll (options : Options) (h : Beginning k f) (line : Timeline) :
    Begins k (poll options f line).1 := by
  by_cases ended : f.failed = true ∨ f.steps.length ≤ f.given
  · rw [poll_of_ended ended]
    exact .inr ⟨k, Nat.le_refl k, h, fun same => by cases same⟩
  · have inside : f.given < f.steps.length := Nat.lt_of_not_le fun le => ended (.inr le)
    cases front : front? f.given f.steps with
    | some item =>
      rw [poll_of_front h.going inside front]
      exact begins_give (Nat.le_refl k) h front line
    | none =>
      obtain ⟨n, turned, _⟩ := Queue.turned_pollInTurn (fun s : Step => s.result?.isSome)
        (fun steps => (front? f.given steps).isSome) (Step.polls_begun options)
        ⟨f.steps, f.ready⟩ line fun _ _ => trivial
      have idle := Queue.idle_pollInTurn (Step.poll options)
        (fun steps => (front? f.given steps).isSome) ⟨f.steps, f.ready⟩ line h.fit
      rcases polled : Queue.pollInTurn (Step.poll options) (fun s => s.result?.isSome)
        (fun steps => (front? f.given steps).isSome) ⟨f.steps, f.ready⟩ line with ⟨p, line'⟩
      rw [polled] at turned idle
      obtain ⟨k', le, lined⟩ := h.lined.visits turned.visits
      have beginning : Beginning k' ⟨p.state.members, f.given, p.state.ready, f.failed⟩ :=
        ⟨h.going, Nat.le_trans h.given le, lined, turned.visits.fit h.fit⟩
      rw [poll_of_turns h.going inside front polled]
      cases front' : front? f.given p.state.members with
      | some item =>
        exact begins_give (g := ⟨p.state.members, f.given, p.state.ready, f.failed⟩) le beginning
          front' line'
      | none =>
        refine .inr ⟨k', le, beginning, fun waits => ?_⟩
        cases again : p.again with
        | true =>
          rw [again] at waits
          cases waits
        | false =>
          -- nobody is left in the queue, where everybody stands who has not begun
          have empty : p.state.ready = [] :=
            (idle again).resolve_right fun ended => by simp [front'] at ended
          obtain ⟨others, queue, _⟩ := lined.queue
          rw [empty] at queue
          obtain ⟨none, _⟩ := List.append_eq_nil_iff.mp queue.symm
          have left : p.state.members.length - k' = 0 := List.range'_eq_nil_iff.mp none
          have bound : k' ≤ p.state.members.length := lined.steps.bound
          exact Nat.le_antisymm bound (Nat.le_of_sub_eq_zero left)

theorem front?_set_of_result {steps : List Step} {i : Nat} {s : Step} (inside : i < steps.length)
    {item : Item} (result : s.result? = some item) : front? i (steps.set i s) = some item := by
  rw [front?, List.getElem?_set_self inside]
  exact result

/-- When the next step has not begun and settles as soon as it is polled, its result is given out,
and nothing else happens. -/
theorem poll_of_next (going : f.failed = false) {s : Step} {rest : List Nat}
    (found : f.steps[f.given]? = some s) (unsettled : s.result? = none)
    (next : f.ready = f.given :: rest) {p : Polled Step} {line line' : Timeline}
    (polled : Step.poll options s line = (p, line')) {item : Item}
    (result : p.state.result? = some item) :
    poll options f line =
      ({ f with steps := f.steps.set f.given p.state, ready := rest }).give item line' := by
  obtain ⟨inside, _⟩ := List.getElem?_eq_some_iff.mp found
  have front : front? f.given f.steps = none := by
    rw [front?, found]
    exact unsettled
  have front' := front?_set_of_result inside result
  have someone : 0 < f.steps.countP fun s => !s.result?.isSome :=
    List.countP_pos_iff.mpr ⟨s, List.mem_of_getElem? found, by simp [unsettled]⟩
  obtain ⟨n, count⟩ := Nat.exists_eq_succ_of_ne_zero (Nat.ne_of_gt someone)
  have turns : Queue.pollInTurn (Step.poll options) (fun s => s.result?.isSome)
      (fun steps => (front? f.given steps).isSome) ⟨f.steps, f.ready⟩ line =
      (⟨⟨f.steps.set f.given p.state, rest⟩, p.again⟩, line') := by
    unfold Queue.pollInTurn
    rw [count, next, Queue.rounds, Polled.quiet, Queue.round_cons found, polled]
    simp only [result, Option.isSome_some, if_true, front', Bool.false_or]
    rfl
  rw [poll_of_turns going inside front turns, front']

/-- When the steps that have begun are those that were given out, and the next one settles as soon
as it is polled, it is the only one that begins. -/
theorem begun_of_next (h : Beginning f.given f) {s : Step} (found : f.steps[f.given]? = some s)
    (line : Timeline) {text : Text}
    (result : (Step.poll options s line).1.state.result? = some (.ok text)) :
    ∃ g, poll options f line = ((g, .said (some (.ok text))), (Step.poll options s line).2) ∧
      g.given = f.given + 1 ∧ Beginning g.given g ∧
      g.steps = f.steps.set f.given (.finished (.ok text)) := by
  obtain ⟨inside, _⟩ := List.getElem?_eq_some_iff.mp found
  have waits : s.isBegun = false := by
    simpa using fun begun => Nat.lt_irrefl _ ((h.lined.steps.begun f.given s found).mp begun)
  have unsettled : s.result? = none := by
    cases early : s.result? with
    | none => rfl
    | some item =>
      rw [Step.isBegun_of_result (by simp [early])] at waits
      cases waits
  obtain ⟨others, queue, small⟩ := h.lined.queue
  obtain ⟨n, left⟩ : ∃ n, f.steps.length - f.given = n + 1 :=
    ⟨f.steps.length - f.given - 1, by omega⟩
  replace queue : f.ready = List.range' f.given (f.steps.length - f.given) ++ others := queue
  rw [left, List.range'_succ, List.cons_append] at queue
  rcases polled : Step.poll options s line with ⟨p, line'⟩
  rw [polled] at result
  have gives := poll_of_next h.going found unsettled queue polled result
  rw [Step.eq_finished result] at gives
  have begins := begins_poll options h line
  rw [gives] at begins ⊢
  refine ⟨_, rfl, rfl, ⟨h.going, Nat.le_refl _, ⟨?_, others, ?_, ?_⟩, ?_⟩, rfl⟩
  · exact h.lined.steps.set rfl (.inr ⟨rfl, rfl, inside⟩)
  · show _ = List.range' (f.given + 1) ((f.steps.set f.given _).length - (f.given + 1)) ++ others
    have left' : f.steps.length - (f.given + 1) = n := by omega
    rw [List.length_set, left']
  · exact fun i member => Nat.lt_succ_of_lt (small i member)
  · rcases begins with ⟨failed, _⟩ | ⟨_, _, beginning, _⟩
    · exact absurd (failed.symm.trans h.going) nofun
    · exact beginning.fit

/-- At every moment of a stream the first steps have begun and no other ones, unless it has
failed. -/
theorem Run.beginning {replies : List (Reply (Option Item))} {line last : Timeline}
    (run : Run options f line replies g last) (start : Beginning k f) :
    g.failed = true ∨ ∃ k' ≥ k, Beginning k' g := by
  induction run with
  | start => exact .inr ⟨k, Nat.le_refl k, start⟩
  | @polled replies g last _ ih =>
    rcases ih with failed | ⟨k₁, le, beginning⟩
    · rw [poll_of_ended (.inl failed)]
      exact .inl failed
    · rcases begins_poll options beginning last with
        ⟨failed, _⟩ | ⟨k₂, le', beginning, _⟩
      · exact .inl failed
      · exact .inr ⟨k₂, Nat.le_trans le le', beginning⟩
  | rings tick _ ih =>
    rcases ih with failed | ⟨k₁, le, beginning⟩
    · exact .inl failed
    · exact .inr ⟨k₁, le, beginning.wake tick⟩
  | meanwhile _ _ ih => exact ih

/-- How far a stream has come with beginning its steps: the first ones have begun, those among them
that were given out. All have begun when a poll has to wait. When none has begun besides those that
were given out, and the next one settles as soon as it is polled, it is the only one that begins. -/
structure InOrder (options : Options) (g : Fragments) : Prop where
  first : ∃ k ≥ g.given, BegunUpTo k g.steps
  waiting : ∀ now, (poll options g now).1.2 = .waiting →
    ∀ s ∈ (poll options g now).1.1.steps, s.isBegun = true
  next : BegunUpTo g.given g.steps → ∀ s text now, g.steps[g.given]? = some s →
    (Step.poll options s now).1.state.result? = some (.ok text) →
      ∃ h, poll options g now = ((h, .said (some (.ok text))), (Step.poll options s now).2) ∧
        BegunUpTo (g.given + 1) h.steps ∧ h.steps = g.steps.set g.given (.finished (.ok text))

theorem BegunUpTo.unique {steps : List Step} {k' : Nat} (h : BegunUpTo k steps)
    (h' : BegunUpTo k' steps) : k = k' := by
  have le : ∀ {a b : Nat}, BegunUpTo a steps → BegunUpTo b steps → a ≤ b := by
    intro a b ha hb
    by_contra more
    have inside : b < steps.length := Nat.lt_of_lt_of_le (Nat.lt_of_not_le more) ha.bound
    have found := List.getElem?_eq_getElem inside
    have begun := (ha.begun b _ found).mpr (Nat.lt_of_not_le more)
    exact Nat.lt_irrefl b ((hb.begun b _ found).mp begun)
  exact Nat.le_antisymm (le h h') (le h' h)

theorem Beginning.inOrder (h : Beginning k g) : InOrder options g where
  first := ⟨k, h.given, h.lined.steps⟩
  waiting now waits := by
    rcases begins_poll options h now with ⟨_, never⟩ | ⟨k', _, beginning, whole⟩
    · exact absurd waits never
    · exact beginning.lined.steps.all.mpr (whole waits)
  next begun s text now found result := by
    obtain rfl := h.lined.steps.unique begun
    obtain ⟨h, polled, given, beginning, steps⟩ := begun_of_next h found now result
    exact ⟨h, polled, given ▸ beginning.lined.steps, steps⟩

/-! ## The steps of a page -/

theorem not_begun_slotSteps (slot : Nat) (kind : SlotKind) (value : Value) (line : Timeline) :
    ∀ s ∈ (slotSteps options slot kind value line).1, s.isBegun = false := by
  intro s member
  unfold slotSteps at member
  split at member
  · simp only [arraySteps, Live.bind_apply, Live.pure_apply, List.cons_append, List.mem_cons,
      List.mem_append, List.mem_map, List.not_mem_nil, or_false] at member
    rcases member with rfl | ⟨leaf, _, rfl⟩ | rfl <;> rfl
  · rw [List.mem_singleton.mp member]
    rfl

theorem not_begun_stepsFrom (slot : Nat) (slots : List (SlotKind × Value × Text))
    (line : Timeline) :
    ∀ s ∈ (stepsFrom options slot slots line).1, s.isBegun = false := by
  induction slots generalizing slot line with
  | nil => simp [stepsFrom, Live.pure_apply]
  | cons first rest ih =>
    obtain ⟨kind, value, chunk⟩ := first
    intro s member
    rcases List.mem_append.mp member with member | member
    · exact not_begun_slotSteps slot kind value line s member
    · rcases List.mem_cons.mp member with rfl | member
      · rfl
      · exact ih (slot + 1) _ s member

end Fragments

namespace Template

/-- The first poll of a stream gives out the first chunk; nobody has asked for any value then, and
all steps have begun only if there is no slot. From there on the steps begin in order: no more of
them than it takes to give out the next fragment, and all of them as soon as a poll has to wait. -/
theorem fragments_begun (options : Options) (template : Template) {values : List Value}
    (count : values.length = template.slotCount) (line : Timeline) :
    ∃ f line', template.fragments options values line = (.ok f, line') ∧
      (∃ g, f.poll options line' = ((g, .said (some (.ok (template.chunks.headD [])))), line') ∧
        Fragments.BegunUpTo 1 g.steps ∧
        g.steps = f.steps.set 0 (.finished (.ok (template.chunks.headD []))) ∧
        ((∀ s ∈ g.steps, s.isBegun = true) ↔ template.slotCount = 0)) ∧
      ∀ {replies g last}, Fragments.Run options f line' replies g last →
        g.failed = true ∨ Fragments.InOrder options g := by
  obtain ⟨f, line', started, start⟩ : ∃ f line',
      template.fragments options values line = (.ok f, line') ∧ Fragments.Beginning 0 f ∧
        f.given = 0 ∧ f.steps[0]? = some (.literal (template.chunks.headD [])) := by
    refine ⟨_, _, fragments_apply options count line, ?_⟩
    refine ⟨.ofSteps fun s member => ?_, rfl, rfl⟩
    rcases List.mem_cons.mp member with rfl | member
    · rfl
    · exact Fragments.not_begun_stepsFrom 0 _ line s member
  obtain ⟨beginning, none, first⟩ := start
  refine ⟨f, line', started, ?_, fun run => ?_⟩
  · rw [← none] at beginning first
    have settles : (Step.poll options (.literal (template.chunks.headD [])) line').1.state.result? =
        some (.ok (template.chunks.headD [])) := rfl
    obtain ⟨g, polled, given, begun, steps⟩ :=
      Fragments.begun_of_next beginning first line' settles
    rw [none] at given steps
    rw [given] at begun
    refine ⟨g, polled, begun.lined.steps, steps, ?_⟩
    have length : f.steps.length = template.fragmentCount values := by
      rw [← remaining_fragments count started, Fragments.remaining_of_going beginning.going, none]
      rfl
    rw [begun.lined.steps.all, steps, List.length_set, length, eq_comm]
    exact fragmentCount_eq_one
  · rcases run.beginning beginning with failed | ⟨k, _, beginning⟩
    · exact .inl failed
    · exact .inr beginning.inOrder

/-- A value that is rejected in front of a deferred one: only the first of five steps begins at
first, so the producer is not called before the rejection ends the stream. -/
theorem fragments_begun_twoSlots :
    let values :=
      [Value.rejects 0 none ['n', 'o'], .deferred .text none (.resolves 5 none (.str ['y']))]
    values.length = twoSlots.slotCount ∧ ∃ f line',
      twoSlots.fragments {} values Timeline.start = (.ok f, line') ∧
      (∃ g, f.poll {} line' = ((g, .said (some (.ok ['a']))), line') ∧
        Fragments.BegunUpTo 1 g.steps ∧ ¬ ∀ s ∈ g.steps, s.isBegun = true) := by
  refine ⟨rfl, ?_⟩
  obtain ⟨f, line', started, ⟨g, polled, begun, _, all⟩, _⟩ :=
    @fragments_begun {} twoSlots [.rejects 0 none ['n', 'o'],
      .deferred .text none (.resolves 5 none (.str ['y']))] rfl Timeline.start
  exact ⟨f, line', started, g, polled, begun, fun whole => by cases all.mp whole⟩

end Template

end HtmlTemplate

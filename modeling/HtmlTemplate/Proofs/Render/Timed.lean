import HtmlTemplate.Proofs.Render.Agreement
import Mathlib.Data.List.Fold
import Mathlib.Data.List.Forall2
import Mathlib.Order.Lattice

/-!
# When pages come

All values of a page are asked for at once, so that their waits overlap: nothing is first asked for
after something else has settled, however many values there are and however deep they lie. A page
that waits is there when the slowest of its values is, and a fragment when the slowest of the steps
up to its own is (`Template.waits_overlap`).

That the steps of a stream keep to given ticks is a course of theirs (`Course.timed`). A step that
has its result has reached its tick, and one that has not waits for a timer that rings by then, so
that the clock does not pass the tick before the result is given out.
-/

namespace HtmlTemplate

variable {options : Options}

/-! ## When a step has its result -/

theorem Slot.error_of_write {kind : SlotKind} {value : Value} {line : Timeline}
    {error : RenderError} (written : (Slot.write options kind value line).1 = .error error) :
    ∃ name reason, error = .intent name reason := by
  cases kind with
  | intent name =>
    replace written : (Slot.intent options name value).result = .error error := written
    unfold Slot.intent at written
    split at written
    · cases written
    · rename_i transform _
      simp only [Noted.bind_result] at written
      split at written
      · cases written
        exact ⟨_, _, rfl⟩
      · cases written
      · cases written
  | _ => cases written

namespace Step

theorem error_of_write {writing : Writing} {value : Value} {line : Timeline} {error : RenderError}
    (written : (write options writing value line).1 = .error error) :
    ∃ name reason, error = .intent name reason := by
  cases writing with
  | slot kind => exact Slot.error_of_write written
  | element => cases written

/-- The step settles at a tick, or at once when that is past. -/
structure Due (options : Options) (now tick : Nat) (s : Step) : Prop where
  current : s.task.Current
  settles : ∃ v, s.task.fate options = .settles v
  tick : s.task.settledBy options now = max now tick

/-- A step that has nothing to wait for any more is due. -/
theorem Due.of_done {now tick : Nat} {s : Step} {v : Value} (done : s.task = .done (.ok v))
    (past : tick ≤ now) : Due options now tick s := by
  refine ⟨done ▸ .done, ⟨v, by rw [done]; rfl⟩, ?_⟩
  rw [done]
  exact (Nat.max_eq_left past).symm

/-- What a poll makes of a step that is due: it stays so, has no result only while it has to wait,
and does not fail but in a transformation. -/
structure Advances (options : Options) (now tick : Nat) (s : Step) : Prop where
  due : Due options now tick s
  unsettled : s.result? = none → s.task.isSettled = false
  fails : ∀ error, s.result? = some (.error error) → ∃ name reason, error = .intent name reason

theorem Due.poll {s : Step} {line : Timeline} {tick : Nat} (due : Due options line.now tick s)
    (ready : s.Ready line) (unfinished : s.result? = none) :
    Advances options line.now tick (Step.poll options s line).1.state := by
  cases s with
  | literal text =>
    exact ⟨⟨due.current, due.settles, due.tick⟩, fun none => (by cases none),
      fun error result => (by cases result)⟩
  | finished result => cases unfinished
  | resolving slot writing task =>
    have fated := (Task.polls_fate options line.now).effect (s := task) ⟨rfl, ready, due.current⟩
    rcases polled : task.poll options line with ⟨⟨t, again⟩, line'⟩
    rw [polled] at fated
    obtain ⟨current, fate, arrival⟩ := fated
    obtain ⟨v, settles⟩ := due.settles
    replace fate : t.fate options = .settles v := fate.trans settles
    have tick : t.settledBy options line.now = max line.now tick := by
      replace settles : task.fate options = .settles v := settles
      rw [Task.arrival, Task.arrival, fate, settles] at arrival
      exact (Fate.settles.inj arrival).trans due.tick
    rcases Task.settled_cases t with ⟨u, rfl⟩ | ⟨reason, rfl⟩ | unsettled
    · rw [poll_of_value polled]
      refine ⟨.of_done rfl (Nat.le_trans (Nat.le_max_right _ _) (Nat.le_of_eq tick.symm)),
        fun none => (by cases none),
        fun error result => error_of_write (Option.some.inj result)⟩
    · cases fate
    · rw [poll_of_unsettled polled unsettled]
      exact ⟨⟨current, ⟨v, fate⟩, tick⟩, fun _ => unsettled,
        fun error result => (by cases result)⟩

/-- A timer that rings changes nothing about when a step is due. -/
theorem Due.wake {now due tick : Nat} {s : Step} (h : Due options now tick s) (quiet : s.Quiet now)
    (next : s.task.nextDue? = some due) (after : now < due) :
    Due options due tick (s.wake due) := by
  obtain ⟨v, settles⟩ := h.settles
  refine ⟨?_, ⟨v, ?_⟩, ?_⟩
  · rw [task_wake]
    exact h.current.wake due
  · rw [task_wake, Task.fate_wake, settles]
  · have later : s.task.settledBy options due = max due (s.task.settledBy options now) :=
      Task.Quiet.settledBy_eq quiet (Nat.le_of_lt after) fun other found =>
        Nat.le_of_eq (Option.some.inj (next.symm.trans found))
    rw [task_wake, Task.settledBy_wake, later, h.tick]
    omega

/-- Nor does the clock before the next timer rings. -/
theorem Due.stays {now now' tick : Nat} {s : Step} (h : Due options now tick s)
    (quiet : s.Quiet now) (silent : s.task.ringing? now' = none) (le : now ≤ now') :
    Due options now' tick s := by
  refine ⟨h.current, h.settles, ?_⟩
  have later : s.task.settledBy options now' = max now' (s.task.settledBy options now) :=
    Task.Quiet.settledBy_eq quiet le fun due found =>
      Nat.le_of_lt (Task.ringing?_eq_none.mp silent due found)
  rw [later, h.tick]
  omega

/-- A step that is due and has to wait has a timer that rings by then. -/
theorem Due.exists_nextDue? {now tick : Nat} {s : Step} (h : Due options now tick s)
    (quiet : s.Quiet now) (unsettled : s.task.isSettled = false) :
    ∃ due, s.task.nextDue? = some due ∧ due ≤ max now tick := by
  obtain ⟨v, settles⟩ := h.settles
  cases next : s.task.nextDue? with
  | none =>
    rw [Task.fate_of_stuck options quiet h.current next unsettled] at settles
    cases settles
  | some due => exact ⟨due, rfl, h.tick ▸ (Task.Quiet.nextDue? quiet options next).2⟩

end Step

/-! ## The course of ticks -/

/-- Each step has its result at its tick, and not before. -/
def Course.timed (options : Options) (ticks : List Nat) : Course options where
  turn now i s := s.result? = none ∧ ∀ tick, ticks[i]? = some tick → s.Due options now tick
  rest now i s := s.Quiet now ∧ ∀ tick, ticks[i]? = some tick → s.Advances options now tick
  asks {line s i} ready turn none _ :=
    ⟨none, fun tick found => ((turn.2 tick found).poll ready turn.1).due⟩
  leaves {line s i} ready turn leaves := by
    have quiet := ((Step.polls_calm options line.now).effect (s := s) ⟨rfl, ready⟩).quiet
    refine ⟨?_, fun tick found => (turn.2 tick found).poll ready turn.1⟩
    cases settled : (Step.poll options s line).1.state with
    | literal => exact .done
    | finished => exact .done
    | resolving =>
      rw [← settled]
      exact quiet (leaves.resolve_left (by rw [settled]; exact Bool.false_ne_true))
  quiet rest _ := rest.1
  rings {now i s due} rest none next after :=
    ⟨(by cases s <;> first | rfl | cases none),
      fun tick found => (rest.2 tick found).due.wake rest.1 next after⟩
  stays {now i s tick} rest silent le :=
    ⟨Task.Quiet.of_silent rest.1 silent, fun tick found =>
      have advances := rest.2 tick found
      ⟨advances.due.stays rest.1 silent le, advances.unsettled, advances.fails⟩⟩

namespace Fragments

variable {ticks : List Nat} {line line' : Timeline} {f f' : Fragments}

/-- The next timer of a stream rings by the tick of the step that is waited for. -/
theorem nextDue?_le {g : Fragments}
    (waits : Waits (Course.timed options ticks) ticks.length line f g line')
    {due tick : Nat} (next : (waiting options).nextDue? g = some due)
    (found : ticks[f.given]? = some tick) : due ≤ max line.now tick := by
  obtain ⟨goes, left, front, nobody⟩ := waits
  have inside := List.getElem?_eq_getElem left
  have rest := (goes.onTheWay.holds g.given _ inside).2 (by simp [nobody])
  have advances := rest.2 tick (goes.given.symm ▸ found)
  have none : g.steps[g.given].result? = none := by
    rw [front?, inside] at front
    exact front
  obtain ⟨first, ringing, early⟩ := advances.due.exists_nextDue? rest.1 (advances.unsettled none)
  have least : due ≤ first := (Task.nextDueAmong?_eq_some next).2 _
    (List.mem_map.mpr ⟨_, List.getElem_mem left, rfl⟩) first ringing
  rw [goes.later.1] at early
  exact Nat.le_trans least early

/-- While a step is waited for, the clock does not go back, and not past the tick of the step. -/
theorem now_of_runs {o : Option (Option Item)}
    (h : OnTheWay (Course.timed options ticks) ticks.length line f)
    (run : (waiting options).Runs f line f' o line') :
    line.now ≤ line'.now ∧ ∀ tick, ticks[f.given]? = some tick → line'.now ≤ max line.now tick := by
  have still : ∀ {line line' : Timeline} {given : Nat}, line'.now = line.now →
      line.now ≤ line'.now ∧
      ∀ tick, ticks[given]? = some tick → line'.now ≤ max line.now tick := fun same =>
    ⟨Nat.le_of_eq same.symm, fun _ _ => same ▸ Nat.le_max_left _ _⟩
  induction run with
  | @said f line f' item line' polled =>
    have later := (outcome_poll (.inr h)).later
    replace polled : poll options f line = ((f', .said item), line') := polled
    rw [polled] at later
    exact still later.1
  | again polled _ ih =>
    obtain ⟨goes, _, _⟩ := goes_of_again (.inr h) polled
    have rest := ih goes.onTheWay
    rwa [goes.later.1, goes.given] at rest
  | stalled polled _ => exact still (waits_of_waiting (.inr h) polled).goes.later.1
  | @woken f line f' line' due f'' o line'' polled next _ ih =>
    have waits := waits_of_waiting (.inr h) polled
    have goes := waits.goes
    have quiet := goes.onTheWay.quiet waits.nobody
    have after : line'.now < due := (Task.Quiet.nextDue? quiet options next).1
    obtain ⟨le, bound⟩ := ih (goes.onTheWay.wake quiet next)
    replace le : due ≤ line''.now := le
    refine ⟨by rw [← goes.later.1]; omega, fun tick found => ?_⟩
    replace bound : line''.now ≤ max due tick := bound tick (goes.given.symm ▸ found)
    have early := nextDue?_le waits next found
    omega

/-- The fragments of a stream whose steps keep to their ticks come at the latest tick so far, and
all come unless a transformation fails. -/
theorem drainWithin_timed (count : Nat)
    (h : OnTheWay (Course.timed options ticks) ticks.length line f)
    (enough : ticks.length < count + f.given) :
    ∃ fragments ending, (drainWithin options count f line).1 = (fragments, ending) ∧
      (∀ i tick text, fragments[i]? = some (tick, text) →
        tick = ((ticks.drop f.given).take (i + 1)).foldl max line.now) ∧
      (ending = .complete ∧ fragments.length = (ticks.drop f.given).length ∨
        ∃ name reason, ending = .failed (.intent name reason)) := by
  have nothing : ∀ {P : Nat → Nat → Text → Prop} (i tick : Nat) (text : Text),
      ([] : List (Nat × Text))[i]? = some (tick, text) → P i tick text :=
    fun i tick text found => (by cases found)
  induction count generalizing f line with
  | zero =>
    rw [List.drop_eq_nil_of_le (by omega)]
    exact ⟨[], .complete, rfl, nothing, .inl ⟨rfl, rfl⟩⟩
  | succ count ih =>
    obtain ⟨f', o, line', run, answered, result⟩ := next_of_onTheWay h
    obtain ⟨le, bound⟩ := now_of_runs h run
    simp only [drainWithin, Live.bind_apply, result]
    cases answered with
    | ended passed =>
      rw [List.drop_eq_nil_of_le (h.length ▸ passed)]
      exact ⟨[], .complete, rfl, nothing, .inl ⟨rfl, rfl⟩⟩
    | gives inside rest onTheWay next =>
      have found := List.getElem?_eq_getElem inside
      have reached : line'.now = max line'.now ticks[f.given] := (rest.2 _ found).due.tick
      have early := bound _ found
      have now : line'.now = max line.now ticks[f.given] := by omega
      obtain ⟨others, ending, sent, times, ends⟩ := ih onTheWay (by omega)
      refine ⟨(line'.now, _) :: others, ending,
        congrArg (Prod.map ((line'.now, _) :: ·) id) sent, ?_, ?_⟩
      all_goals rw [drop_of_getElem? found, ← next]
      · intro i tick text found
        cases i with
        | zero =>
          cases found
          exact now
        | succ i =>
          rw [List.take_succ_cons, List.foldl_cons, ← now]
          exact times i tick text found
      · exact ends.imp_left (And.imp_right (congrArg (· + 1)))
    | fails inside rest =>
      obtain ⟨name, reason, rfl⟩ := (rest.2 _ (List.getElem?_eq_getElem inside)).fails _ rfl
      exact ⟨[], _, rfl, nothing, .inr ⟨name, reason, rfl⟩⟩
    | stalls inside rest waits never =>
      have advances := rest.2 _ (List.getElem?_eq_getElem inside)
      obtain ⟨due, next, _⟩ := advances.due.exists_nextDue? rest.1 (advances.unsettled waits)
      rw [never] at next
      cases next

/-! ## What the steps of a page wait for -/

/-- The ticks that the steps of a slot take, each asked for at once. An array in content has a step
for each of its leaves, between those of its markers. -/
def slotWaits (options : Options) (kind : SlotKind) (value : Value) : List Nat :=
  match kind, value with
  | .content, .array items => 0 :: (Value.leaves items).map (Value.wait options true) ++ [0]
  | kind, value => [value.wait options kind.isContent]

end Fragments

/-- A step that takes so many ticks and that nobody has polled. -/
inductive Step.Takes (options : Options) : Nat → Step → Prop
  | literal {text} : Takes options 0 (.literal text)
  | resolving {slot writing mode value} : value.Arrives options mode →
      Takes options (Task.waitFor options mode value) (.resolving slot writing (.fresh mode value))

theorem Step.Takes.unasked {wait : Nat} {s : Step} (h : s.Takes options wait) :
    s.Unasked := by
  cases h with
  | literal => exact .literal
  | resolving => exact .resolving

theorem Step.Takes.due {wait : Nat} {s : Step} (h : s.Takes options wait) (now : Nat) :
    s.Due options now (now + wait) := by
  cases h with
  | literal => exact .of_done rfl (Nat.le_refl _)
  | resolving arrives =>
    exact ⟨.fresh, ⟨_, arrives.fate_eq⟩, (Nat.max_eq_right (Nat.le_add_right _ _)).symm⟩

namespace Fragments

theorem takes_slotSteps (slot : Nat) {kind : SlotKind} {value : Value}
    (arrives : value.Arrives options (Template.slotMode options kind)) (line : Timeline) :
    ∃ steps line', slotSteps options slot kind value line = (steps, line') ∧ line.Later line' ∧
      List.Forall₂ (Step.Takes options) (slotWaits options kind value) steps := by
  have alone : ∀ {kind : SlotKind} {value : Value},
      value.Arrives options (Template.slotMode options kind) →
      ∃ steps line', (pure [Step.resolving slot (.slot kind)
          (.fresh (Template.slotMode options kind) value)] : Live (List Step)) line =
            (steps, line') ∧ line.Later line' ∧
        List.Forall₂ (Step.Takes options) [value.wait options kind.isContent] steps :=
    fun arrives => ⟨_, line, rfl, .refl line, .cons (Step.Takes.resolving arrives) .nil⟩
  cases kind with
  | content =>
    cases value with
    | array items =>
      refine ⟨_, _, rfl, (Slot.later_marker options line).trans (Live.later_note _ _), ?_⟩
      refine List.rel_append (.cons .literal ?_) (.cons .literal .nil)
      rw [List.forall₂_map_left_iff, List.forall₂_map_right_iff, List.forall₂_same]
      exact fun leaf member => Step.Takes.resolving
        (Value.leaf_of_elements Value.Arrives.elements arrives leaf member)
    | _ => exact alone arrives
  | _ => exact alone arrives

theorem takes_stepsFrom (slot : Nat) {slots : List (SlotKind × Value × Text)}
    (arrives : ∀ p ∈ slots, p.2.1.Arrives options (Template.slotMode options p.1))
    (line : Timeline) :
    ∃ steps line', stepsFrom options slot slots line = (steps, line') ∧ line.Later line' ∧
      List.Forall₂ (Step.Takes options)
        (slots.flatMap fun p => slotWaits options p.1 p.2.1 ++ [0]) steps := by
  induction slots generalizing slot line with
  | nil => exact ⟨[], line, rfl, .refl line, .nil⟩
  | cons first rest ih =>
    obtain ⟨kind, value, chunk⟩ := first
    obtain ⟨steps, line₁, made, later, takes⟩ :=
      takes_slotSteps slot (arrives _ List.mem_cons_self) line
    obtain ⟨others, line₂, made', later', takes'⟩ :=
      ih (slot + 1) (fun p member => arrives p (List.mem_cons_of_mem _ member)) line₁
    refine ⟨steps ++ .literal chunk :: others, line₂, ?_, later.trans later', ?_⟩
    · simp only [stepsFrom, Live.bind_apply, made, made']
      rfl
    · rw [List.flatMap_cons, List.append_assoc]
      exact List.rel_append takes (.cons .literal takes')

/-- Steps that nobody has polled keep to the ticks that they take. -/
theorem onTheWay_of_takes {waits : List Nat} {steps : List Step}
    (takes : List.Forall₂ (Step.Takes options) waits steps) (line : Timeline) :
    OnTheWay (Course.timed options (waits.map (line.now + ·)))
      (waits.map (line.now + ·)).length line (ofSteps steps) := by
  have each : ∀ {i : Nat} {s : Step}, steps[i]? = some s →
      ∃ wait, waits[i]? = some wait ∧ s.Takes options wait := by
    intro i s found
    obtain ⟨bound, rfl⟩ := List.getElem?_eq_some_iff.mp found
    have bound' : i < waits.length := takes.length_eq.symm ▸ bound
    exact ⟨_, List.getElem?_eq_getElem bound', takes.get bound' bound⟩
  have unasked : ∀ s ∈ steps, s.Unasked := by
    intro s member
    obtain ⟨i, found⟩ := List.mem_iff_getElem?.mp member
    obtain ⟨_, _, takes⟩ := each found
    exact takes.unasked
  refine ⟨rfl, by rw [List.length_map, takes.length_eq]; rfl,
    fun s member => (unasked s member).ready line,
    fit_ofSteps fun s member => (unasked s member).result?,
    fun i s found => ⟨fun _ => ?_, fun outside => absurd (mem_ready_ofSteps found) outside⟩⟩
  obtain ⟨wait, found', takes⟩ := each found
  refine ⟨takes.unasked.result?, fun tick ticks => ?_⟩
  rw [List.getElem?_map, found'] at ticks
  cases ticks
  exact takes.due line.now

end Fragments

namespace Template

variable {template : Template} {values : List Value}

/-- The ticks that the values of the slots take. -/
def slotWaits (options : Options) (template : Template) (values : List Value) : List Nat :=
  (template.slots.zip values).map fun p => p.2.wait options p.1.isContent

/-- The ticks that the steps of a page take: its first chunk, and for each slot what stands there
and the next chunk. -/
def fragmentWaits (options : Options) (template : Template) (values : List Value) : List Nat :=
  0 :: (template.slots.zip values).flatMap fun p => Fragments.slotWaits options p.1 p.2 ++ [0]

/-- The slots with their values, without the chunks after them. -/
theorem zip_values (count : values.length = template.slotCount) :
    (template.slots.zip (values.zip (template.chunks.drop 1))).map (fun p => (p.1, p.2.1)) =
      template.slots.zip values := by
  have chunks : (values.zip (template.chunks.drop 1)).map Prod.fst = values := by
    refine List.map_fst_zip ?_
    rw [List.length_drop, template.parity, count]
    exact Nat.le_refl _
  conv_rhs => rw [← chunks, List.zip_map_right]
  rfl

/-- The steps of a page take what its values do. -/
theorem takes_fragments (count : values.length = template.slotCount)
    (arrives : ∀ p ∈ template.slots.zip values, p.2.Arrives options (slotMode options p.1))
    (line : Timeline) :
    ∃ steps line', template.fragments options values line = (.ok (.ofSteps steps), line') ∧
      line.Later line' ∧
      List.Forall₂ (Step.Takes options) (template.fragmentWaits options values) steps := by
  have inside : ∀ p ∈ template.slots.zip (values.zip (template.chunks.drop 1)),
      p.2.1.Arrives options (slotMode options p.1) := fun p member =>
    arrives (p.1, p.2.1) (zip_values count ▸ List.mem_map.mpr ⟨p, member, rfl⟩)
  obtain ⟨steps, line', made, later, takes⟩ := Fragments.takes_stepsFrom 0 inside line
  refine ⟨.literal (template.chunks.headD []) :: steps, line', ?_, later, .cons .literal ?_⟩
  · rw [fragments_apply options count, made]
  · rw [← zip_values count, List.flatMap_map]
    exact takes

/-- All slots have settled when the slowest has. -/
theorem allSettledBy_freshSlots (options : Options) (template : Template) (values : List Value)
    (now : Nat) :
    Task.allSettledBy options now (template.freshSlots options values).members =
      now + (template.slotWaits options values).foldr max 0 := by
  rw [freshSlots, slotWaits]
  generalize template.slots.zip values = slots
  induction slots with
  | nil => rfl
  | cons first rest ih =>
    simp only [List.map_cons, Task.allSettledBy, ih, Task.settledBy, List.foldr_cons]
    exact Nat.add_max_add_left _ _ _

/-- The latest of some ticks, counted from a moment on. -/
theorem foldl_max_map_add (now : Nat) (waits : List Nat) :
    (waits.map (now + ·)).foldl max now = now + waits.foldr max 0 := by
  rw [← List.foldl_eq_foldr, List.foldl_map]
  show waits.foldl (fun latest wait => max latest (now + wait)) (now + 0) = now + waits.foldl max 0
  exact List.foldl_hom (now + ·) fun longest wait => Nat.add_max_add_left now longest wait

/-- A text that comes after three ticks, and a list of one that comes after two and one after
five. -/
def slow : List Value :=
  [.resolves 3 none (.str ['x']),
    .array [.resolves 2 none (.str ['y']), .resolves 5 none (.str ['z'])]]

example :
    (twoSlots.stream {} slow Timeline.start).1.toOption.map (fun sent => sent.1.map Prod.fst) =
      some [0, 3, 3, 3, 3, 5, 5, 5] := by decide +kernel

end Template

end HtmlTemplate

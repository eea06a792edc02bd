import HtmlTemplate.Proofs.Render.Order
import HtmlTemplate.Proofs.Render.Yields

/-!
# Streams at any moment

A `Run` is anything that may happen to a stream: it is polled at any time, and timers ring in any
order. What is given out then are the items of the steps in their order, up to the first error, and
after that nothing happens any more (`Run.answers`). A poll without an item asks for another one
only finitely often, and without a timer it waits only for a step that never settles.
-/

namespace HtmlTemplate

variable {options : Options}

namespace Fragments

variable {f g : Fragments} {steps : List Step} {given : List Item}

/-! ## Runs -/

/-- What may happen to a stream, with the replies of its polls so far: somebody polls it, the timers
ring that are due by some tick, or other things happen on the timeline meanwhile. -/
inductive Run (options : Options) (f : Fragments) (line : Timeline) :
    List (Reply (Option Item)) → Fragments → Timeline → Prop
  | start : Run options f line [] f line
  | polled {replies g last} : Run options f line replies g last →
      Run options f line (replies ++ [(poll options g last).1.2]) (poll options g last).1.1
        (poll options g last).2
  | rings {replies g last} (tick : Nat) : Run options f line replies g last →
      Run options f line replies ((waiting options).wake tick g) last
  | meanwhile {replies g last} (other : Timeline) : Run options f line replies g last →
      Run options f line replies g other

/-- The item that a reply brings. -/
def item? : Reply (Option Item) → Option Item
  | .said item => item
  | _ => none

/-- The items that some replies bring. -/
def items (replies : List (Reply (Option Item))) : List Item := replies.filterMap item?

theorem item?_nothing (again : Bool) : item? (.nothing again) = none := by
  cases again <;> rfl

theorem items_append_none {reply : Reply (Option Item)} (none : item? reply = none)
    (replies : List (Reply (Option Item))) : items (replies ++ [reply]) = items replies := by
  rw [items, List.filterMap_append, List.filterMap_cons_none none]
  exact List.append_nil _

theorem items_append_some {reply : Reply (Option Item)} {item : Item}
    (some : item? reply = some item) (replies : List (Reply (Option Item))) :
    items (replies ++ [reply]) = items replies ++ [item] := by
  rw [items, List.filterMap_append, List.filterMap_cons_some some]
  rfl

/-! ## What is given out -/

/-- Each item is one of the step in its place. -/
def InPlace (options : Options) (steps : List Step) (given : List Item) : Prop :=
  ∀ (i : Nat) (item : Item), given[i]? = some item →
    ∃ s : Step, steps[i]? = some s ∧ s.Yields options item

/-- Nothing comes after an error. -/
def ErrorLast (given : List Item) : Prop :=
  ∀ (i : Nat) (error : RenderError), given[i]? = some (.error error) → given.length = i + 1

/-- All steps have given out their items, or one has failed. -/
def Over (steps : List Step) (given : List Item) : Prop :=
  steps.length ≤ given.length ∨ ∃ error, .error error ∈ given

/-- What a poll does while there is more to come. It gives out an item; or the next step has no
result yet, and another poll has less to do; or nobody is left to poll, and without a timer nothing
ever comes of the next step. -/
def Proceeds (options : Options) (next : Option Step) (f : Fragments) :
    Fragments × Reply (Option Item) → Prop
  | (_, .said item) => item.isSome = true
  | (g, .again) => front? g.given g.steps = none ∧
      (waiting options).turns g < (waiting options).turns f
  | (g, .waiting) => front? g.given g.steps = none ∧ g.ready = [] ∧
      ((waiting options).nextDue? g = none → ∃ s, next = some s ∧ s.Comes options none)

/-- A stream of some steps after some replies: the items are those of the steps in order, up to the
first error. When it is over, nothing is polled, noted or given out any more, and before that no
poll says that it is. -/
structure Answers (options : Options) (steps : List Step) (replies : List (Reply (Option Item)))
    (f : Fragments) : Prop where
  inPlace : InPlace options steps (items replies)
  errorLast : ErrorLast (items replies)
  quiet : Over steps (items replies) → ∀ now, poll options f now = ((f, .said none), now)
  proceeds : ¬ Over steps (items replies) → ∀ now,
    Proceeds options steps[(items replies).length]? f (poll options f now).1

theorem InPlace.append (h : InPlace options steps given) {item : Item} {s : Step}
    (found : steps[given.length]? = some s) (yields : s.Yields options item) :
    InPlace options steps (given ++ [item]) := by
  intro i other place
  rcases Nat.lt_trichotomy i given.length with before | rfl | after
  · rw [List.getElem?_append_left before] at place
    exact h i other place
  · rw [List.getElem?_concat_length] at place
    cases place
    exact ⟨s, found, yields⟩
  · rw [List.getElem?_eq_none (by simp; omega)] at place
    cases place

/-- Where each step gives out one item only, the items are the first of these. -/
theorem InPlace.isPrefix {expected : List Item} (h : InPlace options steps given)
    (only : ∀ (i : Nat) (s : Step) (item : Item), steps[i]? = some s → s.Yields options item →
      expected[i]? = some item) : given <+: expected := by
  rw [List.prefix_iff_getElem?]
  intro i inside
  obtain ⟨s, found, yields⟩ := h i _ (List.getElem?_eq_getElem inside)
  exact only i s _ found yields

/-! ## What polls and timers keep -/

/-- What has become of a step, among the others. -/
def StemsFrom (options : Options) (steps : List Step) (i : Nat) (s : Step) : Prop :=
  ∃ t : Step, steps[i]? = some t ∧ t.Narrows options s

/-- A stream of some steps that has given out some items, none of them an error. -/
structure Going (options : Options) (steps : List Step) (given : List Item)
    (f : Fragments) : Prop where
  going : f.failed = false
  place : f.given = given.length
  length : f.steps.length = steps.length
  inPlace : InPlace options steps given
  fine : ∀ error, .error error ∉ given
  kept : ∀ s ∈ f.steps, s.task.Kept
  fit : Queue.Fit (fun s : Step => s.result?.isSome) ⟨f.steps, f.ready⟩
  holds : Queue.Holds (StemsFrom options steps) (fun i s => StemsFrom options steps i s ∧ s.Rests)
    ⟨f.steps, f.ready⟩

/-- A stream of some steps that has given out some items and an error. -/
structure Failed (options : Options) (steps : List Step) (given : List Item)
    (f : Fragments) : Prop where
  failed : f.failed = true
  inPlace : InPlace options steps given
  last : ∃ before error, given = before ++ [.error error] ∧ ∀ error, .error error ∉ before

theorem Going.stemsFrom (h : Going options steps given f) {i : Nat} {s : Step}
    (found : f.steps[i]? = some s) : StemsFrom options steps i s := by
  by_cases member : i ∈ f.ready
  · exact (h.holds i s found).1 member
  · exact ((h.holds i s found).2 member).1

/-- Polling the steps in turn keeps a stream going. -/
theorem Going.turns (plain : options.adoptable = false) (h : Going options steps given f)
    {ends : List Step → Bool} {line line' : Timeline} {p : Polled (Queue Step)}
    (polled : Queue.pollInTurn (Step.poll options) (fun s => s.result?.isSome) ends
      ⟨f.steps, f.ready⟩ line = (p, line')) :
    Going options steps given { f with steps := p.state.members, ready := p.state.ready } := by
  obtain ⟨_, turned, _⟩ := Queue.turned_pollInTurn (fun s : Step => s.result?.isSome) ends
    (Step.polls_tend plain) ⟨f.steps, f.ready⟩ line h.kept
  have length : (Queue.pollInTurn (Step.poll options) (fun s => s.result?.isSome) ends
      ⟨f.steps, f.ready⟩ line).1.state.members.length = f.steps.length :=
    Queue.length_pollInTurn _ _
  rw [polled] at turned length
  refine ⟨h.going, h.place, length.trans h.length, h.inPlace, h.fine, turned.kept,
    turned.visits.fit h.fit, turned.visits.holds ?_ ?_ h.fit h.holds⟩
  · rintro i s p ⟨t, found, narrows⟩ tends leaves
    refine ⟨⟨t, found, narrows.trans tends.narrows⟩, ?_⟩
    rcases leaves with settled | silent
    · exact fun none => by simp [none] at settled
    · exact tends.leaves.rests silent
  · rintro i s p ⟨t, found, narrows⟩ tends _ _
    exact ⟨t, found, narrows.trans tends.narrows⟩

/-- Timers that ring keep a stream going. -/
theorem Going.wake (h : Going options steps given f) (tick : Nat) :
    Going options steps given ((waiting options).wake tick f) := by
  refine ⟨h.going, h.place, (List.length_map _).trans h.length, h.inPlace, h.fine,
    fun s member => ?_, fit_wake options h.fit tick, fun i s woken => ?_⟩
  · obtain ⟨t, inside, rfl⟩ := List.mem_map.mp member
    exact Step.kept_wake (h.kept t inside) tick
  · obtain ⟨t, found, rfl⟩ : ∃ t, f.steps[i]? = some t ∧ t.wake tick = s := by
      simpa [waiting] using woken
    obtain ⟨origin, place, narrows⟩ := h.stemsFrom found
    have stems : StemsFrom options steps i (t.wake tick) :=
      ⟨origin, place, narrows.trans (t.narrows_wake tick)⟩
    refine ⟨fun _ => stems, fun outside => ⟨stems, ?_⟩⟩
    obtain ⟨absent, silent⟩ := stays_of_not_ready options found outside
    rw [Step.wake_of_silent silent]
    exact ((h.holds i t found).2 absent).2

/-- What a poll does to a stream of some steps. -/
inductive Reacts (options : Options) (steps : List Step) (given : List Item) (f : Fragments) :
    Fragments × Reply (Option Item) → Prop
  | gives {g text} : Going options steps (given ++ [.ok text]) g →
      Reacts options steps given f (g, .said (some (.ok text)))
  | fails {g error} : Failed options steps (given ++ [.error error]) g →
      Reacts options steps given f (g, .said (some (.error error)))
  | nothing {g again} : Going options steps given g → front? g.given g.steps = none →
      (again = true → (waiting options).turns g < (waiting options).turns f) →
      (again = false → g.ready = []) → Reacts options steps given f (g, .nothing again)

theorem Going.give (h : Going options steps given g) {item : Item}
    (front : front? g.given g.steps = some item) (line : Timeline) :
    Reacts options steps given f (g.give item line).1 := by
  obtain ⟨s, found, result⟩ := Option.bind_eq_some_iff.mp front
  obtain ⟨t, place, narrows⟩ := h.stemsFrom found
  obtain rfl := Step.eq_finished result
  rw [h.place] at place
  have inPlace := h.inPlace.append place (narrows (some item) .finished)
  cases item with
  | ok text =>
    refine .gives ⟨h.going, ?_, h.length, inPlace, fun error member => ?_, h.kept, h.fit, h.holds⟩
    · rw [List.length_append, ← h.place]
      rfl
    · rcases List.mem_append.mp member with member | last
      · exact h.fine error member
      · cases List.mem_singleton.mp last
  | error error => exact .fails ⟨rfl, inPlace, given, error, rfl, h.fine⟩

theorem Going.reacts (plain : options.adoptable = false) (h : Going options steps given f)
    (left : given.length < steps.length) (line : Timeline) :
    Reacts options steps given f (poll options f line).1 := by
  have inside : f.given < f.steps.length := by rwa [h.place, h.length]
  cases front : front? f.given f.steps with
  | some item =>
    rw [poll_of_front h.going inside front]
    exact h.give front line
  | none =>
    rcases polled : Queue.pollInTurn (Step.poll options) (fun step => step.result?.isSome)
      (fun steps => (front? f.given steps).isSome) ⟨f.steps, f.ready⟩ line with ⟨p, line'⟩
    have turned := h.turns plain polled
    have idle := Queue.idle_pollInTurn (Step.poll options)
      (fun steps => (front? f.given steps).isSome) ⟨f.steps, f.ready⟩ line h.fit
    rw [polled] at idle
    rw [poll_of_turns h.going inside front polled]
    cases front' : front? f.given p.state.members with
    | some item => exact turned.give front' line'
    | none =>
      refine .nothing turned front' (lowers_pollInTurn options _ _ line polled) fun silent => ?_
      refine (idle silent).resolve_right fun ended => ?_
      replace ended : (front? f.given p.state.members).isSome = true := ended
      rw [front'] at ended
      cases ended

/-- Without a timer, a stream waits only for a step that never settles. -/
theorem Going.never (h : Going options steps given f) (left : given.length < steps.length)
    (front : front? f.given f.steps = none) (nobody : f.ready = [])
    (none : (waiting options).nextDue? f = none) :
    ∃ s, steps[given.length]? = some s ∧ s.Comes options .none := by
  have inside : f.given < f.steps.length := by rwa [h.place, h.length]
  obtain ⟨s, found, waits, never⟩ := exists_waiting inside front none
  obtain ⟨t, place, narrows⟩ := h.stemsFrom found
  have rests : s.Rests := ((h.holds f.given s found).2 (by simp [nobody])).2
  rw [h.place] at place
  exact ⟨t, place, narrows _ (rests.never (h.kept s (List.mem_of_getElem? found)) waits never)⟩

/-! ## From the first poll on -/

theorem Going.ofSteps (unasked : ∀ s ∈ steps, s.Unasked) :
    Going options steps [] (ofSteps steps) where
  going := rfl
  place := rfl
  length := rfl
  inPlace _ _ found := by cases found
  fine _ member := by cases member
  kept s member := (unasked s member).kept
  fit := fit_ofSteps fun s member => (unasked s member).result?
  holds _ s found :=
    ⟨fun _ => ⟨s, found, .refl s⟩, fun outside => absurd (mem_ready_ofSteps found) outside⟩

/-- A stream of some steps that has given out some items is still going, or has failed. -/
def Reached (options : Options) (steps : List Step) (given : List Item) (f : Fragments) : Prop :=
  Going options steps given f ∨ Failed options steps given f

variable {replies : List (Reply (Option Item))}

/-- A poll adds the item of its reply. -/
theorem Reached.poll (plain : options.adoptable = false)
    (h : Reached options steps (items replies) f) (line : Timeline) :
    Reached options steps (items (replies ++ [(poll options f line).1.2]))
      (poll options f line).1.1 := by
  by_cases ended : f.failed = true ∨ f.steps.length ≤ f.given
  · rw [poll_of_ended ended, items_append_none rfl]
    exact h
  obtain ⟨fine, inside⟩ := not_or.mp ended
  rcases h with going | failed
  · have left : (items replies).length < steps.length := by
      rwa [going.place, going.length, Nat.not_le] at inside
    have reacts := going.reacts plain left line
    generalize (Fragments.poll options f line).1 = out at reacts
    cases reacts with
    | gives going =>
      rw [items_append_some rfl]
      exact .inl going
    | fails failed =>
      rw [items_append_some rfl]
      exact .inr failed
    | nothing going =>
      rw [items_append_none (item?_nothing _)]
      exact .inl going
  · exact absurd failed.failed fine

theorem Reached.wake (h : Reached options steps given f) (tick : Nat) :
    Reached options steps given ((waiting options).wake tick f) :=
  h.imp (Going.wake · tick) fun failed => ⟨failed.failed, failed.inPlace, failed.last⟩

/-- Whatever happens to a stream, it goes on from where it was. -/
theorem Run.reached (plain : options.adoptable = false) (unasked : ∀ s ∈ steps, s.Unasked)
    {line last : Timeline} (run : Run options (ofSteps steps) line replies g last) :
    Reached options steps (items replies) g := by
  induction run with
  | start => exact .inl (.ofSteps unasked)
  | polled _ ih => exact ih.poll plain _
  | rings tick _ ih => exact ih.wake tick
  | meanwhile _ _ ih => exact ih

theorem Going.answers (plain : options.adoptable = false)
    (h : Going options steps (items replies) f) :
    Answers options steps replies f where
  inPlace := h.inPlace
  errorLast _ error found := absurd (List.mem_of_getElem? found) (h.fine error)
  quiet ended now := by
    rcases ended with passed | ⟨error, member⟩
    · refine poll_of_ended (.inr ?_) now
      rwa [h.place, h.length]
    · exact absurd member (h.fine error)
  proceeds more now := by
    have left : (items replies).length < steps.length := Nat.lt_of_not_le fun le => more (.inl le)
    have reacts := h.reacts plain left now
    generalize (poll options f now).1 = out at reacts
    cases reacts with
    | gives => rfl
    | fails => rfl
    | @nothing g again going front lowers silent =>
      cases again with
      | true => exact ⟨front, lowers rfl⟩
      | false => exact ⟨front, silent rfl, going.never left front (silent rfl)⟩

theorem Failed.answers (h : Failed options steps (items replies) f) :
    Answers options steps replies f where
  inPlace := h.inPlace
  errorLast i error found := by
    obtain ⟨before, other, whole, fine⟩ := h.last
    rw [whole] at found ⊢
    rcases Nat.lt_or_ge i before.length with inside | after
    · rw [List.getElem?_append_left inside] at found
      exact absurd (List.mem_of_getElem? found) (fine error)
    · obtain ⟨bound, _⟩ := List.getElem?_eq_some_iff.mp found
      rw [List.length_append, List.length_singleton] at bound ⊢
      omega
  quiet _ := poll_of_ended (.inl h.failed)
  proceeds more := by
    obtain ⟨before, error, whole, _⟩ := h.last
    refine absurd (.inr ⟨error, ?_⟩) more
    rw [whole]
    exact List.mem_append_right _ List.mem_cons_self

/-- Whatever happens to a stream whose steps nobody has polled, it gives out their items in
order. -/
theorem Run.answers (plain : options.adoptable = false) (unasked : ∀ s ∈ steps, s.Unasked)
    {line last : Timeline} (run : Run options (ofSteps steps) line replies f last) :
    Answers options steps replies f := by
  rcases run.reached plain unasked with going | failed
  · exact going.answers plain
  · exact failed.answers

end Fragments

end HtmlTemplate

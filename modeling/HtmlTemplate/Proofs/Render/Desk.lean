import HtmlTemplate.Proofs.Render.Job
import Mathlib.Data.List.Nodup

/-!
# Many jobs at one desk

A host keeps one serializer, and copies of it that share its markers, for all that it writes. A
`Desk` is the host's timeline and the jobs that were begun on it; they are polled and woken in any
order, and the clock moves in between.

Run with markers and without, the same moves leave the same jobs, up to markers. Each marker is
drawn for one content slot of one job, each such slot has one marker on both sides of it, and
nothing else has any (`Desk.markers_apart`).
-/

namespace HtmlTemplate

/-- A host's timeline, and the jobs in the order in which they were begun. -/
structure Desk where
  line : Timeline
  jobs : List Job

namespace Desk

/-- Something that happens at a desk. -/
inductive Move where
  | take (order : Order)
  | poll (job : Nat)
  | wake (job tick : Nat)
  | clock (tick : Nat)

/-- The order that is taken, if any. -/
def Move.order? : Move → Option Order
  | .take order => some order
  | _ => none

/-- Nothing has happened yet. -/
def start : Desk := ⟨Timeline.start, []⟩

/-- A move; nothing happens to a job that does not exist. -/
def move (options : Options) (desk : Desk) : Move → Desk
  | .take order =>
    let (job, line) := order.start options desk.line
    ⟨line, desk.jobs ++ [job]⟩
  | .poll i =>
    match desk.jobs[i]? with
    | none => desk
    | some job =>
      let (job, line) := job.poll options desk.line
      ⟨line, desk.jobs.set i job⟩
  | .wake i tick => { desk with jobs := desk.jobs.modify i (Job.wake options tick) }
  | .clock tick => { desk with line := (Live.setClock tick desk.line).2 }

/-- All moves, one after the other. -/
def run (options : Options) (moves : List Move) : Desk := moves.foldl (move options) start

/-- The orders that were taken. -/
def orders (moves : List Move) : List Order := moves.filterMap Move.order?

variable {options : Options} {owners : List Owner} {placed : List Order} {desk desk' : Desk}

/-- A desk with markers, and one without after the same moves. -/
structure Beside (options : Options) (owners : List Owner) (placed : List Order)
    (desk desk' : Desk) : Prop where
  drawn : Timeline.Drawn owners desk.line desk'.line
  /-- Markers were drawn for content slots of the orders. -/
  owned : ∀ owner ∈ owners, ∃ order, placed[owner.1]? = some order ∧ Spot.Has order.spots owner.2
  count : desk.jobs.length = placed.length
  count' : desk'.jobs.length = placed.length
  each : ∀ {i order j j'}, placed[i]? = some order → desk.jobs[i]? = some j →
    desk'.jobs[i]? = some j' → Job.Beside options owners i order j j'

/-- A job that was polled, with the markers that it drew, stands beside its like, and all others
still do. -/
theorem Beside.polled (h : Beside options owners placed desk desk') {i : Nat} {order : Order}
    (ordered : placed[i]? = some order) {out out' : Job × Timeline}
    (draws : Draws i (Spot.Has order.spots) owners
      (fun owners' => Job.Beside options owners' i order) out out') :
    ∃ owners', Beside options owners' placed ⟨out.2, desk.jobs.set i out.1⟩
      ⟨out'.2, desk'.jobs.set i out'.1⟩ := by
  obtain ⟨owners', grows, drawn, beside⟩ := draws
  refine ⟨owners', drawn, fun owner member => ?_, ?_, ?_, ?_⟩
  · rcases grows.new member with old | ⟨rfl, own⟩
    · exact h.owned owner old
    · exact ⟨order, ordered, own⟩
  · rw [List.length_set, h.count]
  · rw [List.length_set, h.count']
  · intro k order' j j' ordered' found found'
    by_cases same : i = k
    · subst same
      have bound := (List.getElem?_eq_some_iff.mp ordered).1
      rw [List.getElem?_set_self (h.count ▸ bound)] at found
      rw [List.getElem?_set_self (h.count' ▸ bound)] at found'
      cases ordered.symm.trans ordered'
      cases found
      cases found'
      exact beside
    · rw [List.getElem?_set_ne same] at found found'
      exact (h.each ordered' found found').grow grows fun eq => same eq.symm

/-- So does a job that is begun. -/
theorem Beside.taken (h : Beside options owners placed desk desk') (order : Order)
    {out out' : Job × Timeline} (draws : Draws placed.length (Spot.Has order.spots) owners
      (fun owners' => Job.Beside options owners' placed.length order) out out') :
    ∃ owners', Beside options owners' (placed ++ [order]) ⟨out.2, desk.jobs ++ [out.1]⟩
      ⟨out'.2, desk'.jobs ++ [out'.1]⟩ := by
  obtain ⟨owners', grows, drawn, beside⟩ := draws
  refine ⟨owners', drawn, fun owner member => ?_, ?_, ?_, ?_⟩
  · rcases grows.new member with old | ⟨same, own⟩
    · obtain ⟨order', ordered, own⟩ := h.owned owner old
      have bound := (List.getElem?_eq_some_iff.mp ordered).1
      exact ⟨order', (List.getElem?_append_left bound).trans ordered, own⟩
    · exact ⟨order, by rw [same, List.getElem?_concat_length], own⟩
  · rw [List.length_append, List.length_append, h.count]
    rfl
  · rw [List.length_append, List.length_append, h.count']
    rfl
  · intro k order' j j' ordered found found'
    have bound := (List.getElem?_eq_some_iff.mp ordered).1
    rw [List.length_append, List.length_singleton] at bound
    rcases Nat.lt_or_eq_of_le (Nat.le_of_lt_succ bound) with below | rfl
    · rw [List.getElem?_append_left below] at ordered
      rw [List.getElem?_append_left (h.count ▸ below)] at found
      rw [List.getElem?_append_left (h.count' ▸ below)] at found'
      exact (h.each ordered found found').grow grows (Nat.ne_of_lt below)
    · rw [List.getElem?_concat_length] at ordered
      rw [← h.count, List.getElem?_concat_length] at found
      rw [← h.count', List.getElem?_concat_length] at found'
      cases ordered
      cases found
      cases found'
      exact beside

/-- What a move is with markers, it is without. -/
theorem Beside.move (h : Beside options owners placed desk desk') (m : Move) :
    ∃ owners', Beside options owners' (placed ++ m.order?.toList)
      (desk.move (options.marking true) m)
      (desk'.move (options.marking false) m) := by
  cases m with
  | take order =>
    -- nobody has drawn a marker for a job that was not begun
    refine h.taken order (order.start_drawn h.drawn fun slot member => ?_)
    obtain ⟨_, ordered, _⟩ := h.owned _ member
    exact Nat.lt_irrefl _ (List.getElem?_eq_some_iff.mp ordered).1
  | poll i =>
    rw [show placed ++ (Move.poll i).order?.toList = placed from List.append_nil placed]
    cases ordered : placed[i]? with
    | none =>
      have none₁ : desk.jobs[i]? = none := by
        rw [List.getElem?_eq_none_iff, h.count]
        exact List.getElem?_eq_none_iff.mp ordered
      have none₂ : desk'.jobs[i]? = none := by
        rw [List.getElem?_eq_none_iff, h.count']
        exact List.getElem?_eq_none_iff.mp ordered
      simp only [Desk.move, none₁, none₂]
      exact ⟨owners, h⟩
    | some order =>
      have bound := (List.getElem?_eq_some_iff.mp ordered).1
      have found₁ := List.getElem?_eq_getElem (h.count ▸ bound)
      have found₂ := List.getElem?_eq_getElem (h.count' ▸ bound)
      simp only [Desk.move, found₁, found₂]
      exact h.polled ordered (Job.poll_drawn h.drawn (h.each ordered found₁ found₂))
  | wake i tick =>
    rw [show placed ++ (Move.wake i tick).order?.toList = placed from List.append_nil placed]
    refine ⟨owners, h.drawn, h.owned, ?_, ?_, ?_⟩
    · exact (List.length_modify ..).trans h.count
    · exact (List.length_modify ..).trans h.count'
    · intro k order j j' ordered found found'
      simp only [Desk.move, List.getElem?_modify] at found found'
      obtain ⟨before, found₁, rfl⟩ := Option.map_eq_some_iff.mp found
      obtain ⟨before', found₂, rfl⟩ := Option.map_eq_some_iff.mp found'
      have beside := h.each ordered found₁ found₂
      split
      · exact beside.wake tick
      · exact beside
  | clock tick =>
    rw [show placed ++ (Move.clock tick).order?.toList = placed from List.append_nil placed]
    exact ⟨owners, ⟨rfl, h.drawn.timers, h.drawn.count, h.drawn.nodup⟩, h.owned, h.count, h.count',
      h.each⟩

/-- So are all moves, one after the other. -/
theorem Beside.foldl (h : Beside options owners placed desk desk') (moves : List Move) :
    ∃ owners', Beside options owners' (placed ++ Desk.orders moves)
      (moves.foldl (Desk.move (options.marking true)) desk)
      (moves.foldl (Desk.move (options.marking false)) desk') := by
  induction moves generalizing owners placed desk desk' with
  | nil =>
    exact ⟨owners, by rwa [show placed ++ Desk.orders [] = placed from List.append_nil placed]⟩
  | cons m rest ih =>
    obtain ⟨owners₁, moved⟩ := h.move m
    obtain ⟨owners₂, run⟩ := ih moved
    have split : Desk.orders (m :: rest) = m.order?.toList ++ Desk.orders rest := by
      rw [Desk.orders, List.filterMap_cons]
      cases m.order? <;> rfl
    rw [split, ← List.append_assoc]
    exact ⟨owners₂, run⟩

theorem beside_run (options : Options) (moves : List Move) :
    ∃ owners, Beside options owners (orders moves) (run (options.marking true) moves)
      (run (options.marking false) moves) := by
  have begun : Beside options [] [] start start :=
    ⟨⟨rfl, rfl, rfl, .nil⟩, fun _ member => (by cases member), rfl, rfl,
      fun ordered => by cases ordered⟩
  exact begun.foldl moves

/-- Markers come in pairs and are used for nothing else. Whatever is begun at a desk and in whatever
order it goes on, each marker was drawn for one content slot of one job, and two markers are the
same text exactly if they were drawn for the same slot. Each job shows what it shows after the same
moves without markers, but for the markers of its content slots, which stand on both sides of
them. -/
theorem markers_apart (options : Options) (moves : List Move) :
    ∃ owners : List Owner,
      owners.Nodup ∧ owners.length = (run (options.marking true) moves).line.markers ∧
      (∀ owner ∈ owners, ∃ order, (orders moves)[owner.1]? = some order ∧
        order.kinds[owner.2]? = some .content) ∧
      (∀ n m owner other, owners[n]? = some owner → owners[m]? = some other →
        (Slot.markerText (n + 1) = Slot.markerText (m + 1) ↔ owner = other)) ∧
      ∀ i order, (orders moves)[i]? = some order → ∃ j j',
        (run (options.marking true) moves).jobs[i]? = some j ∧
          (run (options.marking false) moves).jobs[i]? = some j' ∧
          Job.Shows options owners i order j j' := by
  obtain ⟨owners, beside⟩ := beside_run options moves
  refine ⟨owners, beside.drawn.nodup, beside.drawn.count.symm, ?_, ?_, ?_⟩
  · intro owner member
    obtain ⟨order, ordered, own⟩ := beside.owned owner member
    exact ⟨order, ordered, Order.content_of_has own⟩
  · intro n m owner other found found'
    obtain ⟨bound, rfl⟩ := List.getElem?_eq_some_iff.mp found
    obtain ⟨bound', rfl⟩ := List.getElem?_eq_some_iff.mp found'
    rw [beside.drawn.nodup.getElem_inj_iff, Slot.markerText_injective.eq_iff]
    exact Nat.add_right_cancel_iff
  · intro i order ordered
    have bound := (List.getElem?_eq_some_iff.mp ordered).1
    have found := List.getElem?_eq_getElem (beside.count ▸ bound)
    have found' := List.getElem?_eq_getElem (beside.count' ▸ bound)
    exact ⟨_, _, found, found', (beside.each ordered found found').shows⟩

end Desk

end HtmlTemplate

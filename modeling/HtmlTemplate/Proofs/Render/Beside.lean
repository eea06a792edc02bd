import HtmlTemplate.Proofs.Render.Order
import HtmlTemplate.Proofs.Render.Owners

/-!
# Steps with and without markers

An array whose elements are sent one by one draws its marker when the page is planned
(`Fragments.stepsFrom_drawn`), any other content slot when its value has settled
(`Step.poll_drawn`). Beside the steps that draw markers stand those that draw none
(`Fragments.Beside`). Polled in turn, they settle and ask in the same places, and a marker that one
step draws is none of another step's (`Fragments.pollInTurn_drawn`).
-/

namespace HtmlTemplate

variable {options : Options} {owners : List Owner} {line line' : Timeline} {job slot : Nat}

/-! ## Planning -/

/-- What a step is with markers, and without. -/
inductive Step.Beside (owners : List Owner) (job : Nat) : Spot → Step → Step → Prop
  | literal {spot text text'} : Marked owners job spot text text' →
      Beside owners job spot (.literal text) (.literal text')
  | resolving {slot writing task} : Fresh owners job (.ofWriting slot writing) →
      Beside owners job (.ofWriting slot writing) (.resolving slot writing task)
        (.resolving slot writing task)
  | finished {spot result result'} : MarkedResult owners job spot result result' →
      Beside owners job spot (.finished result) (.finished result')

theorem Step.Beside.grow {owners' : List Owner} {spot : Spot} {s s' : Step}
    (h : Step.Beside owners job spot s s') (kept : owners <+: owners')
    (fresh : Fresh owners job spot → Fresh owners' job spot) :
    Step.Beside owners' job spot s s' := by
  cases h with
  | literal marked => exact .literal (marked.grow kept)
  | resolving free => exact .resolving (fresh free)
  | finished result => exact .finished (result.grow kept)

namespace Fragments

/-- A spot, with the step for it with markers and the one without. -/
abbrev Cell := Spot × Step × Step

/-- The steps of a page with markers, and those without. -/
def Beside (owners : List Owner) (job : Nat) (spots : List Spot)
    (steps steps' : List Step) : Prop :=
  ∃ cells : List Cell, cells.map (·.1) = spots ∧ cells.map (·.2.1) = steps ∧
    cells.map (·.2.2) = steps' ∧ ∀ cell ∈ cells, Step.Beside owners job cell.1 cell.2.1 cell.2.2

theorem Beside.append {spots others : List Spot} {steps steps' more more' : List Step}
    (h : Beside owners job spots steps steps') (h' : Beside owners job others more more') :
    Beside owners job (spots ++ others) (steps ++ more) (steps' ++ more') := by
  obtain ⟨cells, rfl, rfl, rfl, each⟩ := h
  obtain ⟨cells', rfl, rfl, rfl, each'⟩ := h'
  exact ⟨cells ++ cells', List.map_append, List.map_append, List.map_append, fun cell member =>
    (List.mem_append.mp member).elim (each cell) (each' cell)⟩

theorem Beside.one {spot : Spot} {s s' : Step} (h : Step.Beside owners job spot s s') :
    Beside owners job [spot] [s] [s'] :=
  ⟨[(spot, s, s')], rfl, rfl, rfl, fun _ member => List.mem_singleton.mp member ▸ h⟩

theorem Beside.grow {owners' : List Owner} {spots : List Spot} {steps steps' : List Step}
    (h : Beside owners job spots steps steps') (kept : owners <+: owners')
    (fresh : ∀ spot ∈ spots, Fresh owners job spot → Fresh owners' job spot) :
    Beside owners' job spots steps steps' := by
  obtain ⟨cells, rfl, rfl, rfl, each⟩ := h
  exact ⟨cells, rfl, rfl, rfl, fun cell member =>
    (each cell member).grow kept (fresh cell.1 (List.mem_map.mpr ⟨cell, member, rfl⟩))⟩

/-- Elements of an array stand between its markers, and draw none. -/
theorem beside_leaves (owners : List Owner) (job slot : Nat) (mode : Mode) (leaves : List Value) :
    Beside owners job (leaves.map fun _ => .plain)
      (leaves.map fun leaf => .resolving slot .element (.fresh mode leaf))
      (leaves.map fun leaf => .resolving slot .element (.fresh mode leaf)) := by
  refine ⟨leaves.map fun leaf => (.plain, .resolving slot .element (.fresh mode leaf),
    .resolving slot .element (.fresh mode leaf)), ?_, ?_, ?_, fun cell member => ?_⟩
  · rw [List.map_map]
    rfl
  · rw [List.map_map]
    rfl
  · rw [List.map_map]
    rfl
  · obtain ⟨leaf, _, rfl⟩ := List.mem_map.mp member
    have free : Fresh owners job (.ofWriting slot .element) := fun k same => (by cases same)
    exact Step.Beside.resolving free

/-- An array in content draws its marker when it is planned. -/
theorem arraySteps_drawn (options : Options) (drawn : Timeline.Drawn owners line line')
    (new : (job, slot) ∉ owners) (items : List Value) :
    Draws job (Spot.Has (Spot.sent slot .content (.array items))) owners
      (fun owners' => Beside owners' job (Spot.sent slot .content (.array items)))
      (arraySteps (options.marking true) slot items line)
      (arraySteps (options.marking false) slot items line') := by
  obtain ⟨marked, unmarked, drawn'⟩ := Slot.marker_drawn options drawn new
  have number : (owners ++ [(job, slot)])[owners.length]? = some (job, slot) := by simp
  have edge : Step.Beside (owners ++ [(job, slot)]) job (.edge slot)
      (.literal (Slot.markerText (owners.length + 1))) (.literal []) := .literal (.edge number)
  have own : Spot.Has (Spot.sent slot .content (.array items)) slot :=
    ⟨_, List.mem_cons_self, .inr rfl⟩
  simp only [arraySteps, Live.bind_apply, Live.pure_apply, marked, unmarked]
  refine ⟨owners ++ [(job, slot)], .one owners own, (Timeline.parallel_drawn _).record _ drawn', ?_⟩
  exact ((Beside.one edge).append (beside_leaves _ job slot _ _)).append (.one edge)

/-- Any other slot draws none yet. -/
theorem slotSteps_drawn (options : Options) (drawn : Timeline.Drawn owners line line')
    (new : (job, slot) ∉ owners) (kind : SlotKind) (value : Value) :
    Draws job (Spot.Has (Spot.sent slot kind value)) owners
      (fun owners' => Beside owners' job (Spot.sent slot kind value))
      (slotSteps (options.marking true) slot kind value line)
      (slotSteps (options.marking false) slot kind value line') := by
  have free : ∀ kind, Fresh owners job (.ofWriting slot (.slot kind)) := by
    intro kind k same
    obtain ⟨rfl, _⟩ := Spot.eq_of_ofKind_eq (.inl same)
    exact new
  have alone : ∀ kind, Draws job (Spot.Has [Spot.ofKind slot kind]) owners
      (fun owners' => Beside owners' job [Spot.ofKind slot kind])
      ([Step.resolving slot (.slot kind) (.fresh (Template.slotMode options kind) value)], line)
      ([Step.resolving slot (.slot kind) (.fresh (Template.slotMode options kind) value)], line') :=
    fun kind => .nothing drawn (.one (Step.Beside.resolving (free kind)))
  cases kind with
  | content =>
    cases value with
    | array items => exact arraySteps_drawn options drawn new items
    | _ => exact alone .content
  | _ => exact alone _

/-- The slots of a page are planned one after the other. -/
theorem stepsFrom_drawn (options : Options) (drawn : Timeline.Drawn owners line line')
    (slots : List (SlotKind × Value × Text)) (fresh : ∀ k, slot ≤ k → (job, k) ∉ owners) :
    Draws job (Spot.Has (Spot.stream slot (slots.map fun p => (p.1, p.2.1)))) owners
      (fun owners' => Beside owners' job (Spot.stream slot (slots.map fun p => (p.1, p.2.1))))
      (stepsFrom (options.marking true) slot slots line)
      (stepsFrom (options.marking false) slot slots line') := by
  induction slots generalizing slot owners line line' with
  | nil => exact .nothing drawn ⟨[], rfl, rfl, rfl, fun cell member => by cases member⟩
  | cons first rest ih =>
    obtain ⟨kind, value, chunk⟩ := first
    obtain ⟨owners₁, grows, drawn₁, steps⟩ :=
      slotSteps_drawn options drawn (fresh slot (Nat.le_refl slot)) kind value
    obtain ⟨owners₂, grows', drawn₂, others⟩ := ih drawn₁ fun k below =>
      grows.not_mem (fresh k (Nat.le_of_succ_le below)) fun own => by
        rw [(Spot.eq_of_has_sent own).1] at below
        exact Nat.lt_irrefl _ below
    have here : ∀ k, Spot.Has (Spot.sent slot kind value) k →
        Spot.Has (Spot.stream slot (((kind, value, chunk) :: rest).map fun p => (p.1, p.2.1))) k :=
      fun k own => Spot.has_append.mpr (.inl own)
    have later : ∀ k, Spot.Has (Spot.stream (slot + 1) (rest.map fun p => (p.1, p.2.1))) k →
        Spot.Has (Spot.stream slot (((kind, value, chunk) :: rest).map fun p => (p.1, p.2.1))) k :=
      fun k own => Spot.has_append.mpr (.inr (Spot.has_plain_cons.mpr own))
    have still : ∀ spot ∈ Spot.sent slot kind value,
        Fresh owners₁ job spot → Fresh owners₂ job spot := by
      rintro spot member free k rfl
      have same := (Spot.eq_of_has_sent ⟨_, member, .inl rfl⟩).1
      exact grows'.not_mem (free k rfl) fun own => by
        have below := Spot.le_of_has_stream own
        omega
    simp only [stepsFrom, Live.bind_apply, Live.pure_apply]
    exact ⟨owners₂, (grows.mono here).trans (grows'.mono later), drawn₂,
      (steps.grow grows'.kept still).append ((Beside.one (.literal .plain)).append others)⟩

end Fragments

/-! ## Polls of steps -/

namespace Step

variable {spot : Spot} {s s' : Step}

theorem Beside.isSome_result? (h : Step.Beside owners job spot s s') :
    s'.result?.isSome = s.result?.isSome := by
  cases h <;> rfl

theorem Beside.task_eq (h : Step.Beside owners job spot s s') : s'.task = s.task := by
  cases h <;> rfl

theorem Beside.wake (h : Step.Beside owners job spot s s') (tick : Nat) :
    Step.Beside owners job spot (s.wake tick) (s'.wake tick) := by
  cases h with
  | literal marked => exact .literal marked
  | resolving free => exact .resolving free
  | finished result => exact .finished result

theorem write_drawn (options : Options) (drawn : Timeline.Drawn owners line line')
    (writing : Writing) (free : Fresh owners job (.ofWriting slot writing)) (value : Value) :
    Draws job (fun k => Spot.ofWriting slot writing = .content k) owners
      (fun owners' => MarkedResult owners' job (.ofWriting slot writing))
      (write (options.marking true) writing value line)
      (write (options.marking false) writing value line') := by
  cases writing with
  | slot kind =>
    refine (Slot.write_drawn options drawn kind free value).mono fun k own => ?_
    obtain ⟨rfl, rfl⟩ := Spot.eq_of_ofKind_eq own
    rfl
  | element =>
    simp only [write, Content.write_marking]
    exact .nothing ((Timeline.parallel_drawn owners).record _ drawn) (.plain _)

/-- Polls of the same step do the same, until its value is written. -/
theorem poll_drawn (options : Options) (drawn : Timeline.Drawn owners line line')
    (h : Step.Beside owners job spot s s') :
    Draws job (fun k => spot = .content k) owners
      (fun owners' p p' => p'.again = p.again ∧ Step.Beside owners' job spot p.state p'.state)
      (poll (options.marking true) s line) (poll (options.marking false) s' line') := by
  cases h with
  | literal marked => exact .nothing drawn ⟨rfl, .finished (.ok marked)⟩
  | finished result => exact .nothing drawn ⟨rfl, .finished result⟩
  | @resolving slot writing task free =>
    obtain ⟨same, drawn'⟩ := Task.poll_same (Timeline.parallel_drawn owners) options task drawn
    rcases polled : task.poll options line with ⟨⟨t, again⟩, line₁⟩
    rcases polled' : task.poll options line' with ⟨p, line₁'⟩
    rw [polled, polled'] at same drawn'
    cases same
    rw [← Task.poll_marking true] at polled
    rw [← Task.poll_marking false] at polled'
    rcases Task.settled_cases t with ⟨value, rfl⟩ | ⟨reason, rfl⟩ | unsettled
    · rw [poll_of_value polled, poll_of_value polled']
      obtain ⟨owners', grows, drawn'', result⟩ := write_drawn options drawn' writing free value
      exact ⟨owners', grows, drawn'', rfl, .finished result⟩
    · rw [poll_of_error polled, poll_of_error polled']
      exact .nothing drawn' ⟨rfl, .finished (.error _)⟩
    · rw [poll_of_unsettled polled unsettled, poll_of_unsettled polled' unsettled]
      exact .nothing drawn' ⟨rfl, .resolving free⟩

end Step

namespace Fragments

variable {spots : List Spot} {steps steps' : List Step}

theorem Beside.length_eq (h : Beside owners job spots steps steps') :
    steps.length = spots.length ∧ steps'.length = spots.length := by
  obtain ⟨cells, rfl, rfl, rfl, _⟩ := h
  simp

theorem Beside.map_result? (h : Beside owners job spots steps steps') :
    steps'.map (fun s => s.result?.isSome) = steps.map fun s => s.result?.isSome := by
  obtain ⟨cells, rfl, rfl, rfl, each⟩ := h
  rw [List.map_map, List.map_map]
  exact List.map_congr_left fun cell member => (each cell member).isSome_result?

theorem Beside.map_task (h : Beside owners job spots steps steps') :
    steps'.map Step.task = steps.map Step.task := by
  obtain ⟨cells, rfl, rfl, rfl, each⟩ := h
  rw [List.map_map, List.map_map]
  exact List.map_congr_left fun cell member => (each cell member).task_eq

theorem Beside.wake (h : Beside owners job spots steps steps') (tick : Nat) :
    Beside owners job spots (steps.map (Step.wake tick)) (steps'.map (Step.wake tick)) := by
  obtain ⟨cells, rfl, rfl, rfl, each⟩ := h
  refine ⟨cells.map fun cell => (cell.1, cell.2.1.wake tick, cell.2.2.wake tick), ?_, ?_, ?_, ?_⟩
  · rw [List.map_map]
    rfl
  · rw [List.map_map, List.map_map]
    rfl
  · rw [List.map_map, List.map_map]
    rfl
  · intro woken member
    obtain ⟨cell, inside, rfl⟩ := List.mem_map.mp member
    exact (each cell inside).wake tick

/-- What the next item is with markers, it is without. -/
theorem Beside.front? (h : Beside owners job spots steps steps') (given : Nat) :
    (front? given steps = none ∧ front? given steps' = none) ∨
      ∃ spot item item', spots[given]? = some spot ∧ front? given steps = some item ∧
        front? given steps' = some item' ∧ MarkedResult owners job spot item item' := by
  obtain ⟨cells, rfl, rfl, rfl, each⟩ := h
  simp only [Fragments.front?, List.getElem?_map]
  cases found : cells[given]? with
  | none => exact .inl ⟨rfl, rfl⟩
  | some cell =>
    obtain ⟨spot, s, s'⟩ := cell
    have beside : Step.Beside owners job spot s s' := each _ (List.mem_of_getElem? found)
    cases beside with
    | literal _ => exact .inl ⟨rfl, rfl⟩
    | resolving _ => exact .inl ⟨rfl, rfl⟩
    | finished result => exact .inr ⟨_, _, _, rfl, rfl, rfl, result⟩

/-- A step that is replaced, perhaps by one that has drawn a marker, stands beside its like, and the
others still do. -/
theorem Beside.set (h : Beside owners job spots steps steps') (distinct : Spot.Distinct spots)
    {i : Nat} {s s' : Step} (found : steps[i]? = some s) (found' : steps'[i]? = some s') :
    ∃ spot ∈ spots, Step.Beside owners job spot s s' ∧
      ∀ {owners' t t'}, Grows job (fun k => spot = .content k) owners owners' →
        Step.Beside owners' job spot t t' →
        Beside owners' job spots (steps.set i t) (steps'.set i t') := by
  obtain ⟨cells, rfl, rfl, rfl, each⟩ := h
  rw [List.getElem?_map] at found found'
  obtain ⟨⟨spot, _, _⟩, inside, rfl⟩ := Option.map_eq_some_iff.mp found
  rw [inside] at found'
  cases found'
  have place : (cells.map (·.1))[i]? = some spot := by rw [List.getElem?_map, inside]; rfl
  refine ⟨spot, List.mem_of_getElem? place, each _ (List.mem_of_getElem? inside), ?_⟩
  intro owners' t t' grows beside
  refine ⟨cells.set i (spot, t, t'), ?_, List.map_set, List.map_set, fun cell changed => ?_⟩
  · obtain ⟨bound, same⟩ := List.getElem?_eq_some_iff.mp place
    rw [List.map_set, ← same, List.set_getElem_self]
  · obtain ⟨j, found⟩ := List.mem_iff_getElem?.mp changed
    by_cases same : i = j
    · obtain ⟨bound, _⟩ := List.getElem?_eq_some_iff.mp inside
      rw [← same, List.getElem?_set_self bound] at found
      cases found
      exact beside
    · -- a marker that the replaced step has drawn is not one of another content slot
      rw [List.getElem?_set_ne same] at found
      have other : (cells.map (·.1))[j]? = some cell.1 := by rw [List.getElem?_map, found]; rfl
      refine (each cell (List.mem_of_getElem? found)).grow grows.kept fun free k own => ?_
      refine grows.not_mem (free k own) fun own' => same ?_
      exact distinct.eq_of_content (own' ▸ place) (own ▸ other)

/-- Polls of the steps in turn do the same. -/
theorem pollInTurn_drawn (options : Options) (distinct : Spot.Distinct spots) (given : Nat)
    (drawn : Timeline.Drawn owners line line') (h : Beside owners job spots steps steps')
    (ready : List Nat) :
    Draws job (Spot.Has spots) owners
      (fun owners' p p' => Beside owners' job spots p.state.members p'.state.members ∧
        p'.state.ready = p.state.ready ∧ p'.again = p.again)
      (Queue.pollInTurn (Step.poll (options.marking true)) (fun s => s.result?.isSome)
        (fun steps => (Fragments.front? given steps).isSome) ⟨steps, ready⟩ line)
      (Queue.pollInTurn (Step.poll (options.marking false)) (fun s => s.result?.isSome)
        (fun steps => (Fragments.front? given steps).isSome) ⟨steps', ready⟩ line') := by
  have lockstep :
      Queue.Lockstep (Step.poll (options.marking true)) (Step.poll (options.marking false))
      (fun s => s.result?.isSome) (fun s => s.result?.isSome)
      (fun steps => (Fragments.front? given steps).isSome)
      (fun steps => (Fragments.front? given steps).isSome)
      fun steps line steps' line' => Draws job (Spot.Has spots) owners
        (fun owners' => Beside owners' job spots) (steps, line) (steps', line') := by
    refine ⟨?_, ?_, ?_⟩
    · rintro steps line steps' line' ⟨_, _, _, beside⟩
      exact Beside.map_result? beside
    · rintro steps line steps' line' ⟨_, _, _, beside⟩
      rcases Beside.front? beside given with ⟨none, none'⟩ | ⟨_, _, _, _, some, some', _⟩
      · rw [none, none']
      · rw [some, some']
        rfl
    · rintro steps line steps' line' i s s' ⟨owners₁, grows, drawn₁, beside⟩ found found'
      obtain ⟨spot, member, step, set⟩ := Beside.set beside distinct found found'
      obtain ⟨owners₂, grows', drawn₂, again, step'⟩ := Step.poll_drawn options drawn₁ step
      refine ⟨again, owners₂, grows.trans (grows'.mono fun k own => ?_), drawn₂, set grows' step'⟩
      exact ⟨spot, member, .inl own⟩
  obtain ⟨⟨owners', grows, drawn', beside⟩, same, again⟩ :=
    lockstep.pollInTurn (.nothing drawn h) ready
  exact ⟨owners', grows, drawn', beside, same, again⟩

end Fragments

end HtmlTemplate

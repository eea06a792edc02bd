import HtmlTemplate.Proofs.Cache.Basic
import HtmlTemplate.Proofs.Cache.Flight
import HtmlTemplate.Proofs.Skeleton

/-!
# A shared cache compiles each skeleton once

However the steps of calls, purges and the changes of handles follow one another, the calls for each
skeleton are a single flight. The invariant is `SharedCache.Coherent`. What carries it is that a
call holds its skeleton, so that the entry it works with stays the one in the map under the number
of its skeleton (`Knows`); only the entry of a skeleton that nobody can ask for any more is ever
lost.
-/

namespace HtmlTemplate

namespace SharedCache

variable {log : List Turn} {c : SharedCache} {n id place : Nat} {call : Call} {phase : Phase}
  {cell : Cell}

/-- The handles that somebody has, the calls among them. -/
def held (c : SharedCache) : List Skeleton := c.handles ++ c.calls.filterMap Call.handle?

/-- The entry of a skeleton in the map is at this place and has this cell. -/
def Keeps (c : SharedCache) (id place : Nat) (cell : Cell) : Prop :=
  (id, place) ∈ c.map ∧ c.entries[place]? = some ⟨id, cell⟩

/-- Nobody can ask for the skeleton any more. -/
def Lost (c : SharedCache) (id : Nat) : Prop :=
  id < c.skeletons.next ∧ id ∉ c.held.map Skeleton.id

/-- What a call can rely on. -/
def Knows (log : List Turn) (c : SharedCache) (n : Nat) (call : Call) : Prop :=
  match call.phase with
  | .search | .enter => True
  | .read place | .fill place => ∃ cell, c.Keeps call.skeleton.id place cell
  | .compile place serial => c.Keeps call.skeleton.id place (.busy n serial)
  | .leave (.ok stored) => ∃ place, c.Keeps call.skeleton.id place (.full stored)
  | .leave (.error error) => ⟨call.skeleton.id, n, .ends (.error error)⟩ ∈ log
  | .done result => ⟨call.skeleton.id, n, .returns result⟩ ∈ log

/-- What holds while calls go on. -/
structure Coherent (log : List Turn) (c : SharedCache) : Prop where
  tracks : c.skeletons.Tracks c.held
  keys : (c.map.map Prod.fst).Nodup
  places : ∀ id place, (id, place) ∈ c.map →
    id < c.skeletons.next ∧ ∃ cell, c.entries[place]? = some ⟨id, cell⟩
  knows : ∀ n call, c.calls[n]? = some call → c.Knows log n call
  /-- The turns of a skeleton fill the cell of its entry, unless nobody can ask for it any more. -/
  flights : ∀ id, ∃ cell, Flight (turnsOf id log) cell ∧
    ((∃ place, c.Keeps id place cell) ∨
      id ∉ c.map.map Prod.fst ∧ (cell = .empty ∨ c.Lost id))
  busy : ∀ id place n serial, c.Keeps id place (.busy n serial) →
    ∃ call, c.calls[n]? = some call ∧ call.skeleton.id = id ∧ call.phase = .compile place serial
  honest : ∀ id n result, ⟨id, n, .ends result⟩ ∈ log → ∃ call, c.calls[n]? = some call ∧
    call.skeleton.id = id ∧
      result.map StoredTemplate.template = (call.compile call.skeleton).result
  returned : ∀ id n result, ⟨id, n, .returns result⟩ ∈ log →
    ∃ call, c.calls[n]? = some call ∧ call.skeleton.id = id ∧ call.phase = .done result
  serials : log.filterMap Turn.serial? = List.range' 1 c.compiles

/-- An entry belongs to one number. -/
theorem Keeps.inj {id' : Nat} {cell' : Cell} (keeps : c.Keeps id place cell)
    (keeps' : c.Keeps id' place cell') : id = id' ∧ cell = cell' := by
  have same := keeps.2.symm.trans keeps'.2
  cases same
  exact ⟨rfl, rfl⟩

/-- A number has one entry in the map. -/
theorem Coherent.keeps_inj (h : Coherent log c) {place' : Nat} {cell' : Cell}
    (keeps : c.Keeps id place cell) (keeps' : c.Keeps id place' cell') :
    place = place' ∧ cell = cell' := by
  have pair : (id, place) = (id, place') :=
    List.inj_on_of_nodup_map h.keys keeps.1 keeps'.1 rfl
  cases pair
  exact ⟨rfl, (keeps.inj keeps').2⟩

/-- The turns of a skeleton fill the cell of its entry. -/
theorem Coherent.flight (h : Coherent log c) (keeps : c.Keeps id place cell) :
    Flight (turnsOf id log) cell := by
  obtain ⟨cell', flight, ⟨place', keeps'⟩ | ⟨absent, _⟩⟩ := h.flights id
  · rw [(h.keeps_inj keeps keeps').2]
    exact flight
  · exact absurd (List.mem_map_of_mem (f := Prod.fst) keeps.1) absent

/-- A call that is not done has its skeleton. -/
theorem mem_held (asked : c.calls[n]? = some call) (flies : call.phase.inFlight = true) :
    call.skeleton ∈ c.held :=
  List.mem_append_right _
    (List.mem_filterMap.mpr ⟨call, List.mem_of_getElem? asked, if_pos flies⟩)

/-- What is looked up is in the map. -/
theorem Coherent.lookup (h : Coherent log c) (found : c.map.lookup id = some place) :
    ∃ cell, c.Keeps id place cell := by
  have member : (id, place) ∈ c.map := by
    obtain ⟨before, after, whole, _⟩ := List.lookup_eq_some_iff.mp found
    rw [whole]
    exact List.mem_append_right _ List.mem_cons_self
  obtain ⟨_, cell, entry⟩ := h.places id place member
  exact ⟨cell, member, entry⟩

/-! ## Handles, purges and new calls -/

/-- What a call relies on stays as long as nobody touches its entry. -/
theorem Knows.mono {log' : List Turn} {c' : SharedCache} (h : c.Knows log n call)
    (turns : log ⊆ log')
    (cells : call.phase.inFlight = true → ∀ place cell, c.Keeps call.skeleton.id place cell →
      ∃ cell', c'.Keeps call.skeleton.id place cell' ∧
        ((∃ serial, cell = .busy n serial) ∨ (∃ stored, cell = .full stored) → cell' = cell)) :
    c'.Knows log' n call := by
  unfold Knows at h ⊢
  unfold Phase.inFlight at cells
  cases phase : call.phase with
  | search => trivial
  | enter => trivial
  | read place =>
    rw [phase] at h cells
    obtain ⟨cell, keeps⟩ := h
    obtain ⟨cell', keeps', _⟩ := cells rfl place cell keeps
    exact ⟨cell', keeps'⟩
  | fill place =>
    rw [phase] at h cells
    obtain ⟨cell, keeps⟩ := h
    obtain ⟨cell', keeps', _⟩ := cells rfl place cell keeps
    exact ⟨cell', keeps'⟩
  | compile place serial =>
    rw [phase] at h cells
    obtain ⟨cell', keeps', same⟩ := cells rfl place _ h
    rw [same (Or.inl ⟨serial, rfl⟩)] at keeps'
    exact keeps'
  | leave result =>
    rw [phase] at h cells
    cases result with
    | error error => exact turns h
    | ok stored =>
      obtain ⟨place, keeps⟩ := h
      obtain ⟨cell', keeps', same⟩ := cells rfl place _ keeps
      rw [same (Or.inr ⟨stored, rfl⟩)] at keeps'
      exact ⟨place, keeps'⟩
  | done result =>
    rw [phase] at h
    exact turns h

/-- What happens to handles outside the calls. -/
theorem Coherent.handles (h : Coherent log c) {skeletons : Skeletons} {handles : List Skeleton}
    (tracks : skeletons.Tracks (handles ++ c.calls.filterMap Call.handle?))
    (next : c.skeletons.next ≤ skeletons.next)
    (gone : ∀ skeleton ∈ handles, skeleton ∈ c.held ∨ c.skeletons.next ≤ skeleton.id) :
    Coherent log { c with skeletons := skeletons, handles := handles } where
  tracks := tracks
  keys := h.keys
  places id place member := by
    obtain ⟨given, entry⟩ := h.places id place member
    exact ⟨Nat.lt_of_lt_of_le given next, entry⟩
  knows := h.knows
  flights id := by
    obtain ⟨cell, flight, place | ⟨absent, rest⟩⟩ := h.flights id
    · exact ⟨cell, flight, Or.inl place⟩
    · refine ⟨cell, flight, Or.inr ⟨absent, rest.imp_right ?_⟩⟩
      rintro ⟨given, unheld⟩
      refine ⟨Nat.lt_of_lt_of_le given next, fun member => ?_⟩
      obtain ⟨skeleton, inside, rfl⟩ := List.mem_map.mp member
      rcases List.mem_append.mp inside with outside | flying
      · rcases gone skeleton outside with old | new
        · exact unheld (List.mem_map_of_mem old)
        · exact absurd given (Nat.not_lt.mpr new)
      · exact unheld (List.mem_map_of_mem (List.mem_append_right _ flying))
  busy := h.busy
  honest := h.honest
  returned := h.returned
  serials := h.serials

/-- Somebody begins to ask, with a handle of theirs. -/
theorem Coherent.ask (h : Coherent log c) {handle : Nat} {skeleton : Skeleton}
    (found : c.handles[handle]? = some skeleton) (compile : Cache.Compile) :
    Coherent log { c with
      calls := c.calls ++ [⟨skeleton, compile, .search⟩]
      handles := c.handles.eraseIdx handle } := by
  have old : ∀ {n : Nat} {call : Call}, c.calls[n]? = some call →
      (c.calls ++ [(⟨skeleton, compile, .search⟩ : Call)])[n]? = some call := by
    intro n call asked
    rw [List.getElem?_append_left (List.getElem?_eq_some_iff.mp asked).1]
    exact asked
  have same : c.held.Perm (c.handles.eraseIdx handle ++
      (c.calls ++ [(⟨skeleton, compile, .search⟩ : Call)]).filterMap Call.handle?) := by
    obtain ⟨bound, here⟩ := List.getElem?_eq_some_iff.mp found
    have apart : c.handles.Perm (skeleton :: c.handles.eraseIdx handle) :=
      here ▸ (List.getElem_cons_eraseIdx_perm bound).symm
    have new : (c.calls ++ [(⟨skeleton, compile, .search⟩ : Call)]).filterMap Call.handle? =
        c.calls.filterMap Call.handle? ++ [skeleton] := List.filterMap_append
    rw [new, ← List.append_assoc]
    exact (apart.append_right _).trans (List.perm_append_singleton _ _).symm
  refine ⟨h.tracks.perm same, h.keys, h.places, fun n call asked => ?_, fun id => ?_,
    fun id place n serial keeps => ?_, fun id n result member => ?_, fun id n result member => ?_,
    h.serials⟩
  · by_cases earlier : n < c.calls.length
    · rw [List.getElem?_append_left earlier] at asked
      exact h.knows n call asked
    · rw [List.getElem?_append_right (Nat.not_lt.mp earlier)] at asked
      have last := List.mem_singleton.mp (List.mem_of_getElem? asked)
      rw [last]
      trivial
  · obtain ⟨cell, flight, place⟩ := h.flights id
    refine ⟨cell, flight, place.imp_right (And.imp_right (Or.imp_right (And.imp_right ?_)))⟩
    exact fun unheld member => unheld ((same.map _).mem_iff.mpr member)
  · obtain ⟨call, asked, fits⟩ := h.busy id place n serial keeps
    exact ⟨call, old asked, fits⟩
  · obtain ⟨call, asked, fits⟩ := h.honest id n result member
    exact ⟨call, old asked, fits⟩
  · obtain ⟨call, asked, fits⟩ := h.returned id n result member
    exact ⟨call, old asked, fits⟩

/-- A purge leaves what belongs to skeletons that live. -/
theorem Coherent.map_purge (h : Coherent log c) :
    c.purge.map = c.map.filter fun pair => c.skeletons.isAlive pair.1 := by
  refine List.filter_congr fun pair member => ?_
  obtain ⟨_, cell, entry⟩ := h.places pair.1 pair.2 member
  show (c.entries[pair.2]?.any fun entry => c.skeletons.isAlive entry.id) = _
  rw [entry]
  rfl

theorem Coherent.keeps_purge (h : Coherent log c) :
    c.purge.Keeps id place cell ↔ c.Keeps id place cell ∧ c.skeletons.isAlive id = true := by
  unfold Keeps
  rw [h.map_purge, List.mem_filter, and_right_comm]
  rfl

/-- A purge takes only what nobody can ask for any more. -/
theorem Coherent.purge (h : Coherent log c) : Coherent log c.purge where
  tracks := h.tracks
  keys := by
    rw [h.map_purge]
    exact h.keys.sublist (List.filter_sublist.map _)
  places id place member := h.places id place (List.mem_of_mem_filter member)
  knows n call asked := by
    refine (h.knows n call asked).mono (List.Subset.refl log) fun flies place cell keeps => ?_
    have alive : c.skeletons.isAlive call.skeleton.id = true :=
      h.tracks.isAlive_iff.mpr (List.mem_map_of_mem (mem_held asked flies))
    exact ⟨cell, h.keeps_purge.mpr ⟨keeps, alive⟩, fun _ => rfl⟩
  flights id := by
    obtain ⟨cell, flight, ⟨place, keeps⟩ | ⟨absent, rest⟩⟩ := h.flights id
    · by_cases alive : c.skeletons.isAlive id = true
      · exact ⟨cell, flight, Or.inl ⟨place, h.keeps_purge.mpr ⟨keeps, alive⟩⟩⟩
      · refine ⟨cell, flight, Or.inr ⟨fun member => ?_, Or.inr ⟨(h.places id place keeps.1).1, ?_⟩⟩⟩
        · rw [h.map_purge] at member
          obtain ⟨pair, inside, rfl⟩ := List.mem_map.mp member
          exact alive (List.mem_filter.mp inside).2
        · exact fun held => alive (h.tracks.isAlive_iff.mpr held)
    · refine ⟨cell, flight, Or.inr ⟨fun member => absent ?_, rest⟩⟩
      rw [h.map_purge] at member
      exact (List.filter_sublist.map _).subset member
  busy id place n serial keeps := h.busy id place n serial (h.keeps_purge.mp keeps).1
  honest := h.honest
  returned := h.returned
  serials := h.serials

/-! ## The steps of a call -/

/-- One place of a list changes. -/
theorem exists_set {α : Type} {xs : List α} {n : Nat} {x : α} (found : xs[n]? = some x) (y : α) :
    ∃ before after, xs = before ++ x :: after ∧ xs.set n y = before ++ y :: after := by
  obtain ⟨bound, rfl⟩ := List.getElem?_eq_some_iff.mp found
  refine ⟨xs.take n, xs.drop (n + 1), ?_, List.set_eq_take_append_cons_drop.trans (if_pos bound)⟩
  rw [List.getElem_cons_drop, List.take_append_drop]

/-- The calls after one of them went on. -/
theorem calls_goTo (asked : c.calls[n]? = some call) (phase : Phase) (m : Nat) :
    (c.goTo n call phase).calls[m]? =
      if m = n then some { call with phase := phase } else c.calls[m]? := by
  show (c.calls.set n _)[m]? = _
  split
  · rename_i same
    rw [same, List.getElem?_set_self (List.getElem?_eq_some_iff.mp asked).1]
  · rename_i apart
    exact List.getElem?_set_ne (Ne.symm apart)

/-- The call itself goes on, and the others stay as they are. -/
theorem eq_or_of_calls_goTo (asked : c.calls[n]? = some call) {m : Nat} {other : Call}
    (found : (c.goTo n call phase).calls[m]? = some other) :
    m = n ∧ other = { call with phase := phase } ∨ m ≠ n ∧ c.calls[m]? = some other := by
  rw [calls_goTo asked] at found
  split at found
  · rename_i same
    cases found
    exact Or.inl ⟨same, rfl⟩
  · rename_i apart
    exact Or.inr ⟨apart, found⟩

/-- A call keeps its skeleton and its function. -/
theorem exists_calls_goTo (asked : c.calls[n]? = some call) (phase : Phase) {m : Nat} {other : Call}
    (found : c.calls[m]? = some other) : ∃ later, (c.goTo n call phase).calls[m]? = some later ∧
      later.skeleton = other.skeleton ∧ later.compile = other.compile ∧
        (m ≠ n → later.phase = other.phase) := by
  rw [calls_goTo asked]
  split
  · rename_i same
    cases found.symm.trans (same ▸ asked)
    exact ⟨_, rfl, rfl, rfl, fun apart => absurd same apart⟩
  · exact ⟨other, found, rfl, rfl, fun _ => rfl⟩

/-- A call that goes on keeps its handle. -/
theorem held_goTo (asked : c.calls[n]? = some call) (flies : call.phase.inFlight = true)
    (flies' : phase.inFlight = true) : (c.goTo n call phase).held = c.held := by
  obtain ⟨before, after, whole, changed⟩ := exists_set asked { call with phase := phase }
  have same : Call.handle? { call with phase := phase } = call.handle? :=
    (if_pos flies').trans (if_pos flies).symm
  unfold held goTo
  rw [changed, whole, List.filterMap_append, List.filterMap_append, List.filterMap_cons,
    List.filterMap_cons, same]

/-- A call that returns gives its handle back. -/
theorem held_leave (asked : c.calls[n]? = some call) (flies : call.phase.inFlight = true)
    (result : Except CompileError StoredTemplate) :
    c.held.Perm (c.leave n call result).2.held := by
  obtain ⟨before, after, whole, changed⟩ := exists_set asked { call with phase := .done result }
  unfold held SharedCache.leave goTo
  simp only
  rw [changed, whole, List.filterMap_append, List.filterMap_append,
    List.filterMap_cons_some (show call.handle? = some call.skeleton from if_pos flies),
    List.filterMap_cons_none
      (show Call.handle? { call with phase := .done result } = none from rfl),
    List.cons_append, ← List.append_assoc, ← List.append_assoc]
  exact List.perm_middle

/-- A step that nobody else can see. -/
theorem Coherent.goTo (h : Coherent log c) (asked : c.calls[n]? = some call)
    (flies : call.phase.inFlight = true) (flies' : phase.inFlight = true)
    (idle : ∀ place serial, call.phase ≠ .compile place serial)
    (knows : c.Knows log n { call with phase := phase }) : Coherent log (c.goTo n call phase) where
  tracks := (held_goTo asked flies flies').symm ▸ h.tracks
  keys := h.keys
  places := h.places
  knows m other found := by
    rcases eq_or_of_calls_goTo asked found with ⟨rfl, rfl⟩ | ⟨_, found⟩
    · exact knows
    · exact h.knows m other found
  flights id := by
    unfold Lost
    rw [held_goTo asked flies flies']
    exact h.flights id
  busy id place m serial keeps := by
    obtain ⟨other, found, same, compiles⟩ := h.busy id place m serial keeps
    obtain ⟨later, found', skeleton, _, phase⟩ := exists_calls_goTo asked phase found
    have apart : m ≠ n := by
      rintro rfl
      cases found.symm.trans asked
      exact idle place serial compiles
    exact ⟨later, found', skeleton ▸ same, (phase apart).trans compiles⟩
  honest id m result member := by
    obtain ⟨other, found, same, fits⟩ := h.honest id m result member
    obtain ⟨later, found', skeleton, compile, _⟩ := exists_calls_goTo asked phase found
    exact ⟨later, found', skeleton ▸ same, by rw [skeleton, compile, fits]⟩
  returned id m result member := by
    obtain ⟨other, found, same, done⟩ := h.returned id m result member
    obtain ⟨later, found', skeleton, _, phase⟩ := exists_calls_goTo asked phase found
    have apart : m ≠ n := by
      rintro rfl
      cases found.symm.trans asked
      rw [done] at flies
      cases flies
    exact ⟨later, found', skeleton ▸ same, (phase apart).trans done⟩
  serials := h.serials

/-- A new entry for a skeleton that has none. -/
theorem Coherent.insert (h : Coherent log c) (absent : c.map.lookup id = none)
    (given : id < c.skeletons.next) (held : id ∈ c.held.map Skeleton.id) :
    Coherent log (c.insert id) ∧ (c.insert id).Keeps id c.entries.length .empty := by
  have unknown : id ∉ c.map.map Prod.fst := by
    intro member
    obtain ⟨pair, inside, same⟩ := List.mem_map.mp member
    have differs := List.lookup_eq_none_iff.mp absent pair inside
    rw [same] at differs
    simp at differs
  have grows : ∀ {place : Nat} {entry : SharedEntry}, c.entries[place]? = some entry →
      (c.insert id).entries[place]? = some entry := by
    intro place entry found
    exact (List.getElem?_append_left (List.getElem?_eq_some_iff.mp found).1).trans found
  have keeps : (c.insert id).Keeps id c.entries.length .empty :=
    ⟨List.mem_append_right _ (List.mem_singleton_self _), List.getElem?_concat_length⟩
  -- The entries of the map are the old ones and the new one.
  have cases_map : ∀ other place, (other, place) ∈ (c.insert id).map →
      (other, place) ∈ c.map ∨ other = id ∧ place = c.entries.length := by
    intro other place member
    rcases List.mem_append.mp member with old | new
    · exact Or.inl old
    · cases List.mem_singleton.mp new
      exact Or.inr ⟨rfl, rfl⟩
  have older : ∀ {other place cell}, c.Keeps other place cell →
      (c.insert id).Keeps other place cell :=
    fun keeps => ⟨List.mem_append_left _ keeps.1, grows keeps.2⟩
  refine ⟨⟨h.tracks, ?_, fun other place member => ?_, fun n call asked => ?_, fun other => ?_,
    fun other place n serial busy => ?_, h.honest, h.returned, h.serials⟩, keeps⟩
  · show ((c.map ++ [_]).map Prod.fst).Nodup
    rw [List.map_append]
    refine List.nodup_append.mpr ⟨h.keys, List.nodup_singleton _, ?_⟩
    rintro number member _ new rfl
    have same : number = id := List.mem_singleton.mp new
    exact unknown (same ▸ member)
  · rcases cases_map other place member with old | ⟨rfl, rfl⟩
    · obtain ⟨given, cell, entry⟩ := h.places other place old
      exact ⟨given, cell, grows entry⟩
    · exact ⟨given, .empty, keeps.2⟩
  · exact (h.knows n call asked).mono (List.Subset.refl log) fun _ place cell keeps =>
      ⟨cell, older keeps, fun _ => rfl⟩
  · obtain ⟨cell, flight, ⟨place, old⟩ | ⟨absent, rest⟩⟩ := h.flights other
    · exact ⟨cell, flight, Or.inl ⟨place, older old⟩⟩
    · by_cases same : other = id
      · subst same
        rcases rest with rfl | ⟨_, unheld⟩
        · exact ⟨.empty, flight, Or.inl ⟨_, keeps⟩⟩
        · exact absurd held unheld
      · refine ⟨cell, flight, Or.inr ⟨fun member => ?_, rest⟩⟩
        obtain ⟨⟨number, place⟩, inside, rfl⟩ := List.mem_map.mp member
        rcases cases_map number place inside with old | ⟨new, _⟩
        · exact absent (List.mem_map_of_mem old)
        · exact same new
  · rcases cases_map other place busy.1 with old | ⟨rfl, rfl⟩
    · obtain ⟨_, cell, entry⟩ := h.places other place old
      have here := (grows entry).symm.trans busy.2
      cases here
      exact h.busy other place n serial ⟨old, entry⟩
    · have here := keeps.2.symm.trans busy.2
      cases here

/-- The entries after the cell of one of them changed. -/
theorem keeps_setCell (keeps : c.Keeps id place cell) (new : Cell) {other place' : Nat}
    {cell' : Cell} : (c.setCell place ⟨id, cell⟩ new).Keeps other place' cell' ↔
      (other, place') ∈ c.map ∧ if place' = place then other = id ∧ cell' = new
        else c.entries[place']? = some ⟨other, cell'⟩ := by
  refine and_congr_right fun _ => ?_
  show (c.entries.set place _)[place']? = _ ↔ _
  split
  · rename_i same
    rw [same, List.getElem?_set_self (List.getElem?_eq_some_iff.mp keeps.2).1, Option.some_inj,
      SharedEntry.mk.injEq]
    exact and_congr eq_comm eq_comm
  · rename_i apart
    rw [List.getElem?_set_ne (Ne.symm apart)]

/-- A step in which a call begins or ends to fill the cell of its entry. -/
theorem Coherent.act (h : Coherent log c) {old new : Cell} {compiles : Nat} {act : Act}
    (asked : c.calls[n]? = some call) (flies : call.phase.inFlight = true)
    (flies' : phase.inFlight = true) (keeps : c.Keeps call.skeleton.id place old)
    (mine : old = .empty ∨ ∃ serial, old = .busy n serial)
    (flight : ∀ before, Flight before old →
      Flight (before ++ [⟨call.skeleton.id, n, act⟩]) new)
    (knows : ∀ c' : SharedCache, c'.Keeps call.skeleton.id place new →
      c'.Knows (log ++ [(⟨call.skeleton.id, n, act⟩ : Turn)]) n { call with phase := phase })
    (busy : ∀ m serial, new = .busy m serial → m = n ∧ phase = .compile place serial)
    (honest : ∀ result, act = .ends result →
      result.map StoredTemplate.template = (call.compile call.skeleton).result)
    (silent : ∀ result, act ≠ .returns result)
    (serials : (log ++ [(⟨call.skeleton.id, n, act⟩ : Turn)]).filterMap Turn.serial? =
      List.range' 1 compiles) :
    Coherent (log ++ [⟨call.skeleton.id, n, act⟩])
      { (c.setCell place ⟨call.skeleton.id, old⟩ new).goTo n call phase with
        compiles := compiles } := by
  have asked' : (c.setCell place ⟨call.skeleton.id, old⟩ new).calls[n]? = some call := asked
  have now : (c.setCell place ⟨call.skeleton.id, old⟩ new).Keeps call.skeleton.id place new :=
    (keeps_setCell keeps new).mpr ⟨keeps.1, by rw [if_pos rfl]; exact ⟨rfl, rfl⟩⟩
  -- The other entries of the map are as they were.
  have others : ∀ {other place' : Nat} {cell : Cell}, c.Keeps other place' cell → place' ≠ place →
      (c.setCell place ⟨call.skeleton.id, old⟩ new).Keeps other place' cell := by
    intro other place' cell there apart
    exact (keeps_setCell keeps new).mpr ⟨there.1, by rw [if_neg apart]; exact there.2⟩
  refine ⟨(held_goTo asked' flies flies').symm ▸ h.tracks, h.keys, fun id place' member => ?_,
    fun m other found => ?_, fun id => ?_, fun id place' m serial there => ?_,
    fun id m result member => ?_, fun id m result member => ?_, serials⟩
  · obtain ⟨given, cell, entry⟩ := h.places id place' member
    refine ⟨given, ?_⟩
    by_cases same : place' = place
    · subst same
      rw [← (keeps.inj ⟨member, entry⟩).1]
      exact ⟨new, now.2⟩
    · exact ⟨cell, (others ⟨member, entry⟩ same).2⟩
  · rcases eq_or_of_calls_goTo asked' found with ⟨rfl, rfl⟩ | ⟨apart, found⟩
    · exact knows _ now
    · refine (h.knows m other found).mono (List.subset_append_left _ _) fun _ place' cell there =>
        ?_
      by_cases same : place' = place
      · subst same
        obtain ⟨same, rfl⟩ := keeps.inj there
        rw [← same]
        refine ⟨new, now, ?_⟩
        rintro (⟨serial, rfl⟩ | ⟨stored, rfl⟩)
        · obtain mine | ⟨_, mine⟩ := mine
          · cases mine
          · cases mine
            exact absurd rfl apart
        · obtain mine | ⟨_, mine⟩ := mine <;> cases mine
      · exact ⟨cell, others there same, fun _ => rfl⟩
  · unfold Lost
    by_cases same : call.skeleton.id = id
    · subst same
      rw [turnsOf_append_self]
      exact ⟨new, flight _ (h.flight keeps), Or.inl ⟨place, now⟩⟩
    · rw [turnsOf_append_ne log n act same]
      obtain ⟨cell, flight, ⟨place', there⟩ | absent⟩ := h.flights id
      · refine ⟨cell, flight, Or.inl ⟨place', others there ?_⟩⟩
        rintro rfl
        exact same (keeps.inj there).1
      · exact ⟨cell, flight, Or.inr ((held_goTo asked' flies flies').symm ▸ absent)⟩
  · obtain ⟨member, entry⟩ := (keeps_setCell keeps new).mp there
    by_cases same : place' = place
    · rw [if_pos same] at entry
      obtain ⟨rfl, filled⟩ := entry
      obtain ⟨rfl, compiles⟩ := busy m serial filled.symm
      refine ⟨{ call with phase := phase }, ?_, rfl, same ▸ compiles⟩
      exact (calls_goTo asked' phase m).trans (if_pos rfl)
    · rw [if_neg same] at entry
      obtain ⟨other, found, skeleton, compiles⟩ := h.busy id place' m serial ⟨member, entry⟩
      obtain ⟨later, found', skeleton', _, phase⟩ := exists_calls_goTo asked' phase found
      refine ⟨later, found', skeleton' ▸ skeleton, (phase ?_).trans compiles⟩
      -- The entry that the call works with is the one at `place`.
      rintro rfl
      cases found.symm.trans asked
      have knows := h.knows m call found
      unfold Knows at knows
      rw [compiles] at knows
      exact same (h.keeps_inj knows keeps).1
  · rcases List.mem_append.mp member with early | last
    · obtain ⟨other, found, same, fits⟩ := h.honest id m result early
      obtain ⟨later, found', skeleton, compile, _⟩ := exists_calls_goTo asked' phase found
      exact ⟨later, found', skeleton ▸ same, by rw [skeleton, compile, fits]⟩
    · cases List.mem_singleton.mp last
      exact ⟨{ call with phase := phase }, (calls_goTo asked' phase n).trans (if_pos rfl), rfl,
        honest result rfl⟩
  · rcases List.mem_append.mp member with early | last
    · obtain ⟨other, found, same, done⟩ := h.returned id m result early
      obtain ⟨later, found', skeleton, _, phase⟩ := exists_calls_goTo asked' phase found
      have apart : m ≠ n := by
        rintro rfl
        cases found.symm.trans asked
        rw [done] at flies
        cases flies
      exact ⟨later, found', skeleton ▸ same, (phase apart).trans done⟩
    · cases List.mem_singleton.mp last
      exact absurd rfl (silent result)

theorem Coherent.look (h : Coherent log c) (asked : c.calls[n]? = some call)
    (flies : call.phase.inFlight = true) (idle : ∀ place serial, call.phase ≠ .compile place serial)
    {missing : SharedCache}
    (otherwise : c.map.lookup call.skeleton.id = none → Coherent log missing) :
    Coherent log (c.look n call missing) := by
  unfold SharedCache.look
  split
  · rename_i found
    exact h.goTo asked flies rfl idle (h.lookup found)
  · rename_i absent
    exact otherwise absent

theorem Coherent.read (h : Coherent log c) (asked : c.calls[n]? = some call)
    (flies : call.phase.inFlight = true) (idle : ∀ place serial, call.phase ≠ .compile place serial)
    (keeps : c.Keeps call.skeleton.id place cell) :
    Coherent log (c.read n call place ⟨call.skeleton.id, cell⟩) := by
  cases cell with
  | full stored => exact h.goTo asked flies rfl idle ⟨place, keeps⟩
  | empty => exact h.goTo asked flies rfl idle ⟨_, keeps⟩
  | busy m serial => exact h.goTo asked flies rfl idle ⟨_, keeps⟩

theorem Coherent.fill? (h : Coherent log c) (asked : c.calls[n]? = some call)
    (flies : call.phase.inFlight = true) (idle : ∀ place serial, call.phase ≠ .compile place serial)
    (keeps : c.Keeps call.skeleton.id place cell) {turns : List Turn} {c' : SharedCache}
    (done : c.fill? n call place ⟨call.skeleton.id, cell⟩ = some (turns, c')) :
    Coherent (log ++ turns) c' := by
  cases cell with
  | full stored =>
    cases done
    rw [List.append_nil]
    exact h.goTo asked flies rfl idle ⟨place, keeps⟩
  | busy m serial => cases done
  | empty =>
    cases done
    refine h.act asked flies rfl keeps (Or.inl rfl) (fun _ flight => flight.begins _ n _)
      (fun _ now => now) ?_ (fun _ same => by cases same) (fun _ same => by cases same) ?_
    · intro m serial same
      cases same
      exact ⟨rfl, rfl⟩
    · rw [List.filterMap_append, h.serials, List.range'_concat, Nat.one_mul, Nat.add_comm 1]
      rfl

theorem Coherent.settle (h : Coherent log c) {serial : Nat} (asked : c.calls[n]? = some call)
    (flies : call.phase.inFlight = true)
    (keeps : c.Keeps call.skeleton.id place (.busy n serial)) :
    let next := c.settle n call place serial ⟨call.skeleton.id, .busy n serial⟩
    Coherent (log ++ next.1) next.2 := by
  have serials : ∀ result, (log ++ [(⟨call.skeleton.id, n, .ends result⟩ : Turn)]).filterMap
      Turn.serial? = List.range' 1 c.compiles :=
    fun result => (List.filterMap_append.trans (List.append_nil _)).trans h.serials
  unfold SharedCache.settle
  cases compiled : (call.compile call.skeleton).result with
  | error error =>
    refine h.act asked flies rfl keeps (Or.inr ⟨serial, rfl⟩) (fun _ flight => flight.fails _ error)
      (fun _ _ => ?_) (fun _ _ same => by cases same) ?_ (fun _ same => by cases same) (serials _)
    · exact List.mem_append_right _ (List.mem_singleton_self _)
    · intro result same
      cases same
      exact compiled.symm
  | ok template =>
    refine h.act asked flies rfl keeps (Or.inr ⟨serial, rfl⟩)
      (fun _ flight => flight.succeeds _ template) (fun _ now => ⟨place, now⟩)
      (fun _ _ same => by cases same) ?_ (fun _ same => by cases same) (serials _)
    intro result same
    cases same
    exact compiled.symm

/-- A call returns. -/
theorem Coherent.leave (h : Coherent log c) (asked : c.calls[n]? = some call)
    {result : Except CompileError StoredTemplate} (phase : call.phase = .leave result) :
    Coherent (log ++ (c.leave n call result).1) (c.leave n call result).2 := by
  have flies : call.phase.inFlight = true := by rw [phase]; rfl
  have same := held_leave asked flies result
  have knows := h.knows n call asked
  unfold Knows at knows
  rw [phase] at knows
  have serials : (log ++ (c.leave n call result).1).filterMap Turn.serial? =
      log.filterMap Turn.serial? := List.filterMap_append.trans (List.append_nil _)
  unfold SharedCache.leave
  refine ⟨h.tracks.perm same, h.keys, h.places, fun m other found => ?_, fun id => ?_,
    fun id place m serial keeps => ?_, fun id m result member => ?_, fun id m result' member => ?_,
    serials.trans h.serials⟩
  · rcases eq_or_of_calls_goTo asked found with ⟨rfl, rfl⟩ | ⟨_, found⟩
    · exact List.mem_append_right _ (List.mem_singleton_self _)
    · exact (h.knows m other found).mono (List.subset_append_left _ _) fun _ place cell keeps =>
        ⟨cell, keeps, fun _ => rfl⟩
  · have unheld : id ∉ c.held.map Skeleton.id →
        id ∉ (c.leave n call result).2.held.map Skeleton.id :=
      fun unheld member => unheld ((same.map _).mem_iff.mpr member)
    by_cases asker : call.skeleton.id = id
    · subst asker
      rw [turnsOf_append_self]
      cases result with
      | ok stored =>
        obtain ⟨place, keeps⟩ := knows
        exact ⟨.full stored, (h.flight keeps).gets _ n, Or.inl ⟨place, keeps⟩⟩
      | error error =>
        obtain ⟨cell, flight, place⟩ := h.flights call.skeleton.id
        refine ⟨cell, flight.givesUp (List.mem_filter.mpr ⟨knows, decide_eq_true rfl⟩),
          place.imp_right (And.imp_right (Or.imp_right (And.imp_right unheld)))⟩
    · rw [turnsOf_append_ne log n _ asker]
      obtain ⟨cell, flight, place⟩ := h.flights id
      exact ⟨cell, flight, place.imp_right (And.imp_right (Or.imp_right (And.imp_right unheld)))⟩
  · obtain ⟨other, found, skeleton, compiles⟩ := h.busy id place m serial keeps
    obtain ⟨later, found', skeleton', _, phase'⟩ := exists_calls_goTo asked (.done result) found
    refine ⟨later, found', skeleton' ▸ skeleton, (phase' ?_).trans compiles⟩
    rintro rfl
    cases found.symm.trans asked
    rw [phase] at compiles
    cases compiles
  · rcases List.mem_append.mp member with early | last
    · obtain ⟨other, found, same, fits⟩ := h.honest id m _ early
      obtain ⟨later, found', skeleton, compile, _⟩ := exists_calls_goTo asked _ found
      exact ⟨later, found', skeleton ▸ same, by rw [skeleton, compile, fits]⟩
    · cases List.mem_singleton.mp last
  · rcases List.mem_append.mp member with early | last
    · obtain ⟨other, found, same, done⟩ := h.returned id m result' early
      obtain ⟨later, found', skeleton, _, phase'⟩ := exists_calls_goTo asked (.done result) found
      refine ⟨later, found', skeleton ▸ same, (phase' ?_).trans done⟩
      rintro rfl
      cases found.symm.trans asked
      rw [phase] at done
      cases done
    · cases List.mem_singleton.mp last
      exact ⟨_, (calls_goTo asked (.done result) n).trans (if_pos rfl), rfl, rfl⟩

/-- A step of a call keeps everything coherent. -/
theorem Coherent.advance (h : Coherent log c) {turns : List Turn} {c' : SharedCache}
    (asked : c.calls[n]? = some call) (done : c.advance n call = some (turns, c')) :
    Coherent (log ++ turns) c' := by
  have knows := h.knows n call asked
  unfold Knows at knows
  unfold SharedCache.advance at done
  cases phase : call.phase with
  | search =>
    rw [phase] at done
    cases done
    rw [List.append_nil]
    exact h.look asked (by simp [phase, Phase.inFlight]) (by simp [phase]) fun _ =>
      h.goTo asked (by simp [phase, Phase.inFlight]) rfl (by simp [phase]) trivial
  | enter =>
    rw [phase] at done
    cases done
    have flies : call.phase.inFlight = true := by simp [phase, Phase.inFlight]
    rw [List.append_nil]
    refine h.look asked flies (by simp [phase]) fun absent => ?_
    have held : call.skeleton ∈ c.held := mem_held asked flies
    obtain ⟨later, keeps⟩ := h.insert absent (h.tracks.given_held held).2 (List.mem_map_of_mem held)
    exact later.goTo asked flies rfl (by simp [phase]) ⟨_, keeps⟩
  | read place =>
    rw [phase] at done knows
    obtain ⟨cell, keeps⟩ := knows
    obtain ⟨entry, found, same⟩ := Option.map_eq_some_iff.mp done
    cases same
    cases keeps.2.symm.trans found
    rw [List.append_nil]
    exact h.read asked (by simp [phase, Phase.inFlight]) (by simp [phase]) keeps
  | fill place =>
    rw [phase] at done knows
    obtain ⟨cell, keeps⟩ := knows
    obtain ⟨entry, found, same⟩ := Option.bind_eq_some_iff.mp done
    cases keeps.2.symm.trans found
    exact h.fill? asked (by simp [phase, Phase.inFlight]) (by simp [phase]) keeps same
  | compile place serial =>
    rw [phase] at done knows
    obtain ⟨entry, found, same⟩ := Option.map_eq_some_iff.mp done
    cases knows.2.symm.trans found
    have later := h.settle asked (by simp [phase, Phase.inFlight]) knows
    rw [same] at later
    exact later
  | leave result =>
    rw [phase] at done
    cases done
    exact h.leave asked phase
  | done result =>
    rw [phase] at done
    cases done

theorem coherent_start : Coherent [] start where
  tracks := Skeletons.tracks_empty
  keys := List.nodup_nil
  places _ _ member := absurd member List.not_mem_nil
  knows _ _ asked := by cases asked
  flights _ := ⟨.empty, .nobody, Or.inr ⟨List.not_mem_nil, Or.inl rfl⟩⟩
  busy _ _ _ _ keeps := absurd keeps.1 List.not_mem_nil
  honest _ _ _ member := absurd member List.not_mem_nil
  returned _ _ _ member := absurd member List.not_mem_nil
  serials := rfl

/-- Whatever happens keeps everything coherent. -/
theorem Coherent.move (h : Coherent log c) {move : Move} {turns : List Turn} {c' : SharedCache}
    (done : c.move? move = some (turns, c')) : Coherent (log ++ turns) c' := by
  have mem_held_of_handles : ∀ {skeleton}, skeleton ∈ c.handles → skeleton ∈ c.held :=
    fun member => List.mem_append_left _ member
  cases move with
  | create segments =>
    cases done
    rw [List.append_nil]
    refine h.handles (h.tracks.create segments) (Nat.le_succ _) fun skeleton member => ?_
    rcases List.mem_cons.mp member with rfl | old
    · exact Or.inr (Nat.le_refl _)
    · exact Or.inl (mem_held_of_handles old)
  | clone handle =>
    obtain ⟨skeleton, found, same⟩ := Option.map_eq_some_iff.mp done
    cases same
    have member := mem_held_of_handles (List.mem_of_getElem? found)
    rw [List.append_nil]
    refine h.handles (h.tracks.retain member) (Nat.le_refl _) fun other inside => Or.inl ?_
    rcases List.mem_cons.mp inside with rfl | old
    · exact member
    · exact mem_held_of_handles old
  | drop handle =>
    obtain ⟨skeleton, found, same⟩ := Option.map_eq_some_iff.mp done
    cases same
    obtain ⟨bound, here⟩ := List.getElem?_eq_some_iff.mp found
    have apart : c.handles.Perm (skeleton :: c.handles.eraseIdx handle) :=
      here ▸ (List.getElem_cons_eraseIdx_perm bound).symm
    rw [List.append_nil]
    refine h.handles (h.tracks.perm (apart.append_right _)).release (Nat.le_refl _)
      fun other inside => Or.inl ?_
    exact mem_held_of_handles (List.eraseIdx_subset inside)
  | upgrade id =>
    obtain ⟨⟨skeleton, skeletons⟩, found, same⟩ := Option.map_eq_some_iff.mp done
    cases same
    obtain ⟨⟨member, rfl⟩, rfl⟩ := h.tracks.upgrade?_eq_some.mp found
    rw [List.append_nil]
    refine h.handles (h.tracks.retain member) (Nat.le_refl _) fun other inside => Or.inl ?_
    rcases List.mem_cons.mp inside with rfl | old
    · exact member
    · exact mem_held_of_handles old
  | ask handle compile =>
    obtain ⟨skeleton, found, same⟩ := Option.map_eq_some_iff.mp done
    cases same
    rw [List.append_nil]
    exact h.ask found compile
  | advance n =>
    obtain ⟨call, asked, same⟩ := Option.bind_eq_some_iff.mp done
    exact h.advance asked same
  | purge =>
    cases done
    rw [List.append_nil]
    exact h.purge

theorem Coherent.run (h : Coherent log c) (moves : List Move) :
    Coherent (log ++ (c.run moves).1) (c.run moves).2 := by
  induction moves generalizing log c with
  | nil =>
    rw [SharedCache.run, List.append_nil]
    exact h
  | cons move rest ih =>
    unfold SharedCache.run
    cases done : c.move? move with
    | none => exact ih h
    | some next =>
      have later := ih (h.move done)
      rw [List.append_assoc] at later
      exact later

/-! ## What can be relied on -/

/-- The numbers in the view are those in the map. -/
theorem Coherent.numbers_view (h : Coherent log c) : c.view.numbers = c.map.map Prod.fst := by
  unfold Cache.numbers view
  rw [List.map_filterMap, ← List.filterMap_eq_map]
  refine List.filterMap_congr fun pair member => ?_
  obtain ⟨_, cell, entry⟩ := h.places pair.1 pair.2 member
  simp only [entry, Option.map_some, Function.comp_apply]

/-- The template of a skeleton is the one in the cell of its entry. -/
theorem Coherent.find?_view (h : Coherent log c) (keeps : c.Keeps id place cell) :
    c.view.find? id = cell.stored? := by
  have member : (⟨id, cell.stored?⟩ : CacheEntry) ∈ c.view.entries :=
    List.mem_filterMap.mpr ⟨(id, place), keeps.1, by simp only [keeps.2, Option.map_some]⟩
  exact Cache.find?_of_mem (h.numbers_view ▸ h.keys) member

/-- A call that has not returned can go on, or waits for one that can. -/
theorem Coherent.goes_on (h : Coherent log c) (asked : c.calls[n]? = some call)
    (flies : call.phase.inFlight = true) :
    (c.advance n call).isSome = true ∨ ∃ place m serial other, call.phase = .fill place ∧
      c.calls[m]? = some other ∧ other.skeleton.id = call.skeleton.id ∧
        other.phase = .compile place serial ∧ (c.advance m other).isSome = true := by
  have knows := h.knows n call asked
  unfold Knows at knows
  unfold SharedCache.advance
  cases phase : call.phase with
  | search => exact Or.inl rfl
  | enter => exact Or.inl rfl
  | read place =>
    rw [phase] at knows
    obtain ⟨cell, keeps⟩ := knows
    exact Or.inl (by simp [keeps.2])
  | fill place =>
    rw [phase] at knows
    obtain ⟨cell, keeps⟩ := knows
    cases cell with
    | empty => exact Or.inl (by simp [keeps.2, SharedCache.fill?])
    | full stored => exact Or.inl (by simp [keeps.2, SharedCache.fill?])
    | busy m serial =>
      obtain ⟨other, found, same, compiles⟩ := h.busy _ place m serial keeps
      exact Or.inr
        ⟨place, m, serial, other, rfl, found, same, compiles, by simp [compiles, keeps.2]⟩
  | compile place serial =>
    rw [phase] at knows
    exact Or.inl (by simp [knows.2])
  | leave result => exact Or.inl rfl
  | done result =>
    rw [phase] at flies
    cases flies

/-- What holds of a shared cache after these turns of its calls. -/
structure Orderly (log : List Turn) (c : SharedCache) : Prop where
  /-- The calls for each skeleton are a single flight. -/
  flights : ∀ id, SingleFlight (turnsOf id log)
  /-- What ends is the function of the call, with the result that it gives for the skeleton. -/
  honest : ∀ id n result, ⟨id, n, .ends result⟩ ∈ log → ∃ call, c.calls[n]? = some call ∧
    call.skeleton.id = id ∧
      result.map StoredTemplate.template = (call.compile call.skeleton).result
  returned : ∀ n call, c.calls[n]? = some call → ∀ result,
    call.phase = .done result ↔ ⟨call.skeleton.id, n, .returns result⟩ ∈ log
  /-- Compiles are numbered in the order in which they begin, and all are counted. -/
  serials : log.filterMap Turn.serial? = List.range' 1 c.compiles
  /-- A template that was made is kept as long as its skeleton lives. -/
  kept : ∀ turn ∈ log, ∀ stored, turn.act = .ends (.ok stored) →
    c.skeletons.isAlive turn.id = true → c.view.find? turn.id = some stored
  /-- A call that has not returned can go on, or waits for a call for its skeleton whose function
  runs. -/
  live : ∀ n call, c.calls[n]? = some call → call.phase.inFlight = true →
    (c.advance n call).isSome = true ∨ ∃ place m serial other, call.phase = .fill place ∧
      c.calls[m]? = some other ∧ other.skeleton.id = call.skeleton.id ∧
        other.phase = .compile place serial ∧ (c.advance m other).isSome = true

theorem Coherent.orderly (h : Coherent log c) : Orderly log c where
  flights id := by
    obtain ⟨cell, flight, _⟩ := h.flights id
    exact flight.singleFlight
  honest := h.honest
  returned n call asked result := by
    constructor
    · intro done
      have knows := h.knows n call asked
      unfold Knows at knows
      rw [done] at knows
      exact knows
    · intro member
      obtain ⟨other, found, _, done⟩ := h.returned _ n result member
      cases found.symm.trans asked
      exact done
  serials := h.serials
  kept turn member stored act alive := by
    obtain ⟨cell, flight, place⟩ := h.flights turn.id
    have full := flight.full (List.mem_filter.mpr ⟨member, decide_eq_true rfl⟩) (Or.inl act)
    subst full
    rcases place with ⟨place, keeps⟩ | ⟨_, empty | ⟨_, unheld⟩⟩
    · exact h.find?_view keeps
    · cases empty
    · exact absurd (h.tracks.isAlive_iff.mp alive) unheld
  live n call asked flies := h.goes_on asked flies

/-- However the steps of any number of calls follow one another, between purges and changes of
handles and with functions that succeed or fail: for each skeleton one function at most succeeds,
one runs at a time and none begins after the success, calls that succeed return the same template,
and a call that fails returns the error of its own function. -/
theorem orderly_run (moves : List Move) : Orderly (start.run moves).1 (start.run moves).2 :=
  (coherent_start.run moves).orderly

end SharedCache

end HtmlTemplate

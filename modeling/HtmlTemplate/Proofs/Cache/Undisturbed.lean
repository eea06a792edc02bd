import HtmlTemplate.Proofs.Cache.Shared

/-!
# Calls that nobody disturbs

When no other call acts in between, the steps of a call come to what `Cache.getOrCompile` does with
the cache that a host sees (`SharedCache.view`), and the purge of a shared cache to `Cache.purge`.
-/

namespace HtmlTemplate

namespace SharedCache

variable {log : List Turn} {c : SharedCache} {n id place : Nat} {call : Call} {phase : Phase}
  {cell : Cell}

/-- A new entry in the view. -/
theorem Coherent.view_insert (h : Coherent log c) (absent : c.map.lookup id = none) :
    (c.insert id).view = c.view.enter id := by
  have unknown : id ∉ c.view.numbers := by
    rw [h.numbers_view]
    intro member
    obtain ⟨pair, inside, same⟩ := List.mem_map.mp member
    have differs := List.lookup_eq_none_iff.mp absent pair inside
    rw [same] at differs
    simp at differs
  have older : ∀ pair ∈ c.map, (c.insert id).entries[pair.2]? = c.entries[pair.2]? := by
    intro pair member
    obtain ⟨_, cell, entry⟩ := h.places pair.1 pair.2 member
    exact List.getElem?_append_left (List.getElem?_eq_some_iff.mp entry).1
  have last : (c.insert id).entries[c.entries.length]? = some ⟨id, .empty⟩ :=
    List.getElem?_concat_length
  rw [Cache.enter_of_not_mem unknown]
  refine congrArg (Cache.mk · c.compiles) ?_
  show (c.map ++ [(id, c.entries.length)]).filterMap _ = _
  rw [List.filterMap_append, List.filterMap_cons_some (b := ⟨id, none⟩), List.filterMap_nil]
  · refine congrArg (· ++ [(⟨id, none⟩ : CacheEntry)])
      (List.filterMap_congr fun pair member => ?_)
    exact congrArg (Option.map _) (older pair member)
  · simp only [last, Option.map_some, Cell.stored?]

/-- The view after the cell of an entry changed. -/
theorem Coherent.view_setCell (h : Coherent log c) (keeps : c.Keeps id place cell) (new : Cell) :
    (c.setCell place ⟨id, cell⟩ new).view = { c.view with
      entries := c.view.entries.map fun entry =>
        if entry.id = id then { entry with stored := new.stored? } else entry } := by
  refine congrArg (Cache.mk · c.compiles) ?_
  unfold view setCell
  dsimp only
  rw [List.map_filterMap]
  refine List.filterMap_congr fun pair member => ?_
  obtain ⟨_, cell', entry⟩ := h.places pair.1 pair.2 member
  have there : c.Keeps pair.1 pair.2 cell' := ⟨member, entry⟩
  by_cases same : pair.2 = place
  · subst same
    obtain ⟨rfl, rfl⟩ := keeps.inj there
    simp [List.getElem?_set_self (List.getElem?_eq_some_iff.mp entry).1, entry]
  · have apart : pair.1 ≠ id := by
      rintro rfl
      exact same (h.keeps_inj there keeps).1
    simp [List.getElem?_set_ne (Ne.symm same), entry, apart]

/-- A cell without a template that stays so. -/
theorem Coherent.view_setCell_of_none (h : Coherent log c) (keeps : c.Keeps id place cell)
    (old : cell.stored? = none) (new : Cell) (none : new.stored? = none) :
    (c.setCell place ⟨id, cell⟩ new).view = c.view := by
  rw [h.view_setCell keeps, none]
  refine congrArg (Cache.mk · c.compiles) ((List.map_congr_left fun entry member => ?_).trans
    (List.map_id' _))
  split
  · rename_i same
    have stored : entry.stored = Option.none := by
      rw [← old, ← h.find?_view keeps, ← same]
      exact (Cache.find?_of_mem (h.numbers_view ▸ h.keys) member).symm
    rw [← stored]
  · rfl

/-- The view after a purge. -/
theorem Coherent.view_purge (h : Coherent log c) :
    c.purge.view = (c.view.purge c.skeletons).result.2 := by
  rw [Cache.purge_result]
  refine congrArg (Cache.mk · c.compiles) ?_
  show c.purge.map.filterMap _ = List.filter _ (c.map.filterMap _)
  rw [h.map_purge, List.filterMap_filter, List.filter_filterMap]
  refine List.filterMap_congr fun pair member => ?_
  obtain ⟨_, cell, entry⟩ := h.places pair.1 pair.2 member
  by_cases alive : c.skeletons.isAlive pair.1 = true
  · simp [entry, alive, SharedCache.purge, Option.filter]
  · simp [entry, alive, Option.filter]

/-- What comes of `k` steps of a call that nobody disturbs. -/
def Finishes (c : SharedCache) (n k : Nat) (answer : Except CompileError StoredTemplate × Cache) :
    Prop :=
  let later := (c.run (List.replicate k (.advance n))).2
  later.view = answer.2 ∧ ∃ call, later.calls[n]? = some call ∧ call.phase = .done answer.1

variable {answer : Except CompileError StoredTemplate × Cache} {k : Nat}

theorem finishes_of_advance (asked : c.calls[n]? = some call) {turns : List Turn} {c' : SharedCache}
    (step : c.advance n call = some (turns, c')) (h : c'.Finishes n k answer) :
    c.Finishes n (k + 1) answer := by
  have move : c.move? (.advance n) = some (turns, c') :=
    Option.bind_eq_some_iff.mpr ⟨call, asked, step⟩
  unfold Finishes
  rw [List.replicate_succ, SharedCache.run, move]
  exact h

/-- A call that has returned stays as it is. -/
theorem finishes_done (asked : c.calls[n]? = some call)
    {result : Except CompileError StoredTemplate} (phase : call.phase = .done result) (k : Nat) :
    c.Finishes n k (result, c.view) := by
  have stays : (c.run (List.replicate k (.advance n))).2 = c := by
    induction k with
    | zero => rfl
    | succ k ih =>
      have idle : c.move? (.advance n) = none := by
        rw [move?, asked, Option.bind_some, advance, phase]
      rw [List.replicate_succ, SharedCache.run, idle]
      exact ih
  unfold Finishes
  rw [stays]
  exact ⟨rfl, call, asked, phase⟩

theorem finishes_leave (asked : c.calls[n]? = some call)
    {result : Except CompileError StoredTemplate} (phase : call.phase = .leave result) (k : Nat) :
    c.Finishes n (k + 1) (result, c.view) := by
  refine finishes_of_advance asked (by rw [advance, phase]) ?_
  exact finishes_done (c := (c.leave n call result).2)
    ((calls_goTo asked (.done result) n).trans (if_pos rfl)) rfl k

/-- A call that nobody disturbs ends its function and returns. -/
theorem Coherent.finishes_compile (h : Coherent log c) (asked : c.calls[n]? = some call)
    {serial : Nat} (phase : call.phase = .compile place serial)
    (keeps : c.Keeps call.skeleton.id place (.busy n serial)) (k : Nat) :
    c.Finishes n (k + 2)
      (c.view.settle call.skeleton.id serial (call.compile call.skeleton).result) := by
  have step : c.advance n call =
      some (c.settle n call place serial ⟨call.skeleton.id, .busy n serial⟩) := by
    rw [SharedCache.advance, phase]
    simp only [keeps.2, Option.map_some]
  refine finishes_of_advance asked step ?_
  cases (call.compile call.skeleton).result with
  | error error =>
    have same := h.view_setCell_of_none keeps rfl .empty rfl
    have leaves := finishes_leave (c := (c.setCell place ⟨call.skeleton.id, .busy n serial⟩
      .empty).goTo n call (.leave (.error error))) ((calls_goTo asked _ n).trans (if_pos rfl)) rfl k
    exact same ▸ leaves
  | ok template =>
    have filled := h.view_setCell keeps (.full ⟨serial, template⟩)
    have leaves := finishes_leave (c := (c.setCell place ⟨call.skeleton.id, .busy n serial⟩
      (.full ⟨serial, template⟩)).goTo n call (.leave (.ok ⟨serial, template⟩)))
      ((calls_goTo asked _ n).trans (if_pos rfl)) rfl k
    exact (congrArg (Finishes _ n (k + 1) ⟨.ok ⟨serial, template⟩, ·⟩) filled).mp leaves

/-- A call that nobody disturbs makes the template that its entry is without. -/
theorem Coherent.finishes_fill (h : Coherent log c) (asked : c.calls[n]? = some call)
    (phase : call.phase = .fill place) (keeps : c.Keeps call.skeleton.id place .empty) (k : Nat) :
    c.Finishes n (k + 3)
      (c.view.afterCompile call.skeleton.id (call.compile call.skeleton).result) := by
  have step : c.advance n call = c.fill? n call place ⟨call.skeleton.id, .empty⟩ := by
    rw [SharedCache.advance, phase]
    simp only [keeps.2, Option.bind_some]
  refine finishes_of_advance asked step ?_
  have later := h.advance asked step
  have entered : call.skeleton.id ∈ c.view.numbers := by
    rw [h.numbers_view]
    exact List.mem_map_of_mem (f := Prod.fst) keeps.1
  have same := h.view_setCell_of_none keeps rfl (.busy n (c.compiles + 1)) rfl
  have finishes := later.finishes_compile
    ((calls_goTo asked (.compile place (c.compiles + 1)) n).trans (if_pos rfl)) rfl
    ((keeps_setCell keeps _).mpr ⟨keeps.1, by rw [if_pos rfl]; exact ⟨rfl, rfl⟩⟩) k
  have counted : view { c.setCell place ⟨call.skeleton.id, .empty⟩ (.busy n (c.compiles + 1)) with
      compiles := c.compiles + 1 } = { c.view with compiles := c.compiles + 1 } :=
    congrArg (fun cache : Cache => { cache with compiles := c.compiles + 1 }) same
  unfold Cache.afterCompile
  rw [Cache.enter_of_mem entered]
  exact (congrArg (fun cache : Cache => Finishes _ n (k + 2)
    (cache.settle call.skeleton.id (c.compiles + 1) (call.compile call.skeleton).result))
      counted).mp finishes

/-- A call that has found its entry, and that nobody disturbs, gives what the cache gives. -/
theorem Coherent.finishes_read (h : Coherent log c) (asked : c.calls[n]? = some call)
    (phase : call.phase = .read place) (keeps : c.Keeps call.skeleton.id place cell)
    (quiet : ∀ m serial, cell ≠ .busy m serial) (k : Nat) :
    c.Finishes n (k + 4) (c.view.getOrCompile call.skeleton call.compile).result := by
  have step : c.advance n call = some ([], c.read n call place ⟨call.skeleton.id, cell⟩) := by
    rw [SharedCache.advance, phase]
    simp only [keeps.2, Option.map_some]
  have found := h.find?_view keeps
  refine finishes_of_advance asked step ?_
  cases cell with
  | busy m serial => exact absurd rfl (quiet m serial)
  | full stored =>
    rw [Cache.getOrCompile_of_some found]
    exact finishes_leave (c := c.goTo n call (.leave (.ok stored)))
      ((calls_goTo asked _ n).trans (if_pos rfl)) rfl (k + 2)
  | empty =>
    rw [Cache.getOrCompile_of_none found]
    have later := h.advance asked step
    rw [List.append_nil] at later
    exact later.finishes_fill ((calls_goTo asked (.fill place) n).trans (if_pos rfl)) rfl keeps k

/-- A call that nobody disturbs gives what the cache gives, and leaves what the cache leaves. -/
theorem Coherent.finishes (h : Coherent log c) (asked : c.calls[n]? = some call)
    (phase : call.phase = .search)
    (quiet : ∀ place m serial, ¬ c.Keeps call.skeleton.id place (.busy m serial)) :
    c.Finishes n 6 (c.view.getOrCompile call.skeleton call.compile).result := by
  cases found : c.map.lookup call.skeleton.id with
  | some place =>
    have step : c.advance n call = some ([], c.goTo n call (.read place)) := by
      rw [SharedCache.advance, phase]
      simp only [SharedCache.look, found]
    obtain ⟨cell, keeps⟩ := h.lookup found
    have later := h.advance asked step
    rw [List.append_nil] at later
    refine finishes_of_advance asked step ?_
    refine later.finishes_read ((calls_goTo asked (.read place) n).trans (if_pos rfl))
      rfl keeps ?_ 1
    rintro m serial rfl
    exact quiet place m serial keeps
  | none =>
    have step : c.advance n call = some ([], c.goTo n call .enter) := by
      rw [SharedCache.advance, phase]
      simp only [SharedCache.look, found]
    have entering := h.advance asked step
    rw [List.append_nil] at entering
    have asked' := (calls_goTo asked .enter n).trans (if_pos rfl)
    have step' : (c.goTo n call .enter).advance n { call with phase := .enter } =
        some ([], ((c.goTo n call .enter).insert call.skeleton.id).goTo n
          { call with phase := .enter } (.read c.entries.length)) := by
      rw [SharedCache.advance]
      simp only [SharedCache.look, SharedCache.goTo, found]
    have later := entering.advance asked' step'
    rw [List.append_nil] at later
    refine finishes_of_advance asked step (finishes_of_advance asked' step' ?_)
    have held : call.skeleton ∈ c.held := mem_held asked (by simp [phase, Phase.inFlight])
    obtain ⟨_, keeps⟩ := h.insert found (h.tracks.given_held held).2 (List.mem_map_of_mem held)
    have kept : (((c.goTo n call .enter).insert call.skeleton.id).goTo n
        { call with phase := .enter } (.read c.entries.length)).Keeps call.skeleton.id
          c.entries.length .empty := keeps
    have finishes := later.finishes_read ((calls_goTo asked' _ n).trans (if_pos rfl)) rfl kept
      (fun _ _ same => by cases same) 0
    rw [← Cache.getOrCompile_enter, ← h.view_insert found]
    exact finishes

end SharedCache

end HtmlTemplate

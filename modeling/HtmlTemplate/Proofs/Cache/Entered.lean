import HtmlTemplate.Proofs.Cache.Session

/-!
# Entries and those who asked for them

What one operation of a session does, seen from the cache: it asks for a template, it purges, or it
leaves the cache alone (`Session.step?_cases`), and which of these it does has nothing to do with
the cache. From this follows which skeletons have an entry: those whose template somebody has asked
for, up to the purge after their last handle was dropped (`Session.Entered`).
-/

namespace HtmlTemplate

namespace Cache

variable {cache : Cache} {known : Skeletons} {id other : Nat}

/-! ## Caches after a compile and after a purge -/

@[simp] theorem compiles_afterCompile (cache : Cache) (id : Nat)
    (result : Except CompileError Template) :
    (cache.afterCompile id result).2.compiles = cache.compiles + 1 := by
  cases result <;> rfl

/-- Whoever asks has an entry afterwards, whatever comes of it. -/
theorem mem_numbers_afterCompile (result : Except CompileError Template) :
    other ∈ (cache.afterCompile id result).2.numbers ↔ other ∈ cache.numbers ∨ other = id := by
  cases result with
  | error error => exact mem_numbers_enter
  | ok template =>
    rw [← mem_numbers_enter]
    exact (numbers_store _ _ _).symm ▸ Iff.rfl

theorem nodup_afterCompile (distinct : cache.numbers.Nodup) (id : Nat)
    (result : Except CompileError Template) : (cache.afterCompile id result).2.numbers.Nodup := by
  cases result with
  | error error => exact nodup_enter distinct id
  | ok template => exact (numbers_store _ _ _).symm ▸ nodup_enter distinct id

theorem find?_afterCompile_error (cache : Cache) (id other : Nat) (error : CompileError) :
    (cache.afterCompile id (.error error)).2.find? other = cache.find? other :=
  find?_enter cache id other

theorem find?_afterCompile_ok (cache : Cache) (id other : Nat) (template : Template) :
    (cache.afterCompile id (.ok template)).2.find? other =
      if other = id then some ⟨cache.compiles + 1, template⟩ else cache.find? other := by
  rw [← find?_enter cache id other]
  exact find?_store _ _ _ _ (mem_numbers_enter.mpr (Or.inr rfl))

/-- A purge counts the numbers of skeletons that live no more. -/
theorem purge_count (cache : Cache) (known : Skeletons) :
    (cache.purge known).result.1 = cache.numbers.countP fun id => !known.isAlive id := by
  have both := List.length_eq_countP_add_countP (l := cache.entries)
    (p := fun entry => known.isAlive entry.id)
  have gone : cache.numbers.countP (fun id => !known.isAlive id) =
      cache.entries.countP fun entry => decide ¬(known.isAlive entry.id = true) := by
    rw [numbers, List.countP_map]
    exact List.countP_congr fun entry _ => by simp
  rw [purge_result, gone]
  simp only [← List.countP_eq_length_filter]
  omega

theorem mem_numbers_purge :
    id ∈ (cache.purge known).result.2.numbers ↔ id ∈ cache.numbers ∧ known.isAlive id = true := by
  rw [purge_result]
  simp only [numbers, List.mem_map, List.mem_filter]
  constructor
  · rintro ⟨entry, ⟨member, lives⟩, rfl⟩
    exact ⟨⟨entry, member, rfl⟩, lives⟩
  · rintro ⟨⟨entry, member, rfl⟩, lives⟩
    exact ⟨entry, ⟨member, lives⟩, rfl⟩

theorem nodup_purge (distinct : cache.numbers.Nodup) (known : Skeletons) :
    (cache.purge known).result.2.numbers.Nodup := by
  rw [purge_result]
  exact distinct.sublist (List.filter_sublist.map _)

theorem find?_purge (distinct : cache.numbers.Nodup) (known : Skeletons) (id : Nat) :
    (cache.purge known).result.2.find? id =
      if known.isAlive id then cache.find? id else none := by
  rw [purge_result]
  exact find?_filter distinct known.isAlive id

end Cache

namespace Session

variable {history past later later' : List Happening} {happening : Happening} {s s' : Session}
  {cache : Cache} {id : Nat} {skeleton : Skeleton} {compile : Cache.Compile} {operation : Operation}

/-! ## What one operation does -/

theorem run_cons_of_none (done : s.step? operation = none) (rest : List Operation) :
    s.run (operation :: rest) = s.run rest := by
  rw [run, done]

theorem run_cons_of_some (done : s.step? operation = some (happening, s'))
    (rest : List Operation) :
    s.run (operation :: rest) = (happening :: (s'.run rest).1, (s'.run rest).2) := by
  rw [run, done]

theorem run_append (s : Session) (first second : List Operation) :
    s.run (first ++ second) =
      ((s.run first).1 ++ ((s.run first).2.run second).1, ((s.run first).2.run second).2) := by
  induction first generalizing s with
  | nil => rfl
  | cons operation rest ih =>
    rw [List.cons_append]
    cases done : s.step? operation with
    | none =>
      rw [run_cons_of_none done, run_cons_of_none done]
      exact ih s
    | some next =>
      rw [run_cons_of_some done, run_cons_of_some done, ih]
      rfl

/-- A template that is kept is given back. -/
theorem get_of_some {stored : StoredTemplate} (found : s.cache.find? skeleton.id = some stored) :
    s.get skeleton compile = (.got skeleton compile false (.ok stored), s) := by
  unfold get
  rw [Cache.getOrCompile_of_some found]
  rfl

/-- Without a template that is kept, the function is called. -/
theorem get_of_none (missing : s.cache.find? skeleton.id = none) :
    s.get skeleton compile =
      (.got skeleton compile true
          (s.cache.afterCompile skeleton.id (compile skeleton).result).1,
        { s with cache := (s.cache.afterCompile skeleton.id (compile skeleton).result).2 }) := by
  have called : ((Note.compileBegins skeleton.slotCount :: (compile skeleton).notes).head? ==
      some (.compileBegins skeleton.slotCount)) = true := beq_self_eq_true _
  unfold get
  rw [Cache.getOrCompile_of_none missing]
  dsimp only
  rw [called]

/-- A happening that has nothing to do with the cache. -/
def IsElsewhere (happening : Happening) : Prop :=
  (∀ id, answer? id happening = none) ∧ ∀ count, happening ≠ .purged count

/-- An operation asks for a template, purges, or leaves the cache alone. Which of them it does is
told by the skeletons and the handles only, so that with another cache it is the same. -/
theorem step?_cases (done : s.step? operation = some (happening, s')) :
    (∃ skeleton compile, skeleton ∈ s.handles ∧ s.get skeleton compile = (happening, s') ∧
      ∀ cache, { s with cache := cache }.step? operation =
        some ({ s with cache := cache }.get skeleton compile)) ∨
    (s.purge = (happening, s') ∧
      ∀ cache, { s with cache := cache }.step? operation = some { s with cache := cache }.purge) ∨
    (s'.cache = s.cache ∧ IsElsewhere happening ∧
      ∀ cache, { s with cache := cache }.step? operation =
        some (happening, { s' with cache := cache })) := by
  have elsewhere : ∀ happening : Happening, (∀ id, answer? id happening = none) →
      (∀ count, happening ≠ .purged count) → IsElsewhere happening := fun _ silent other =>
    ⟨silent, other⟩
  cases operation with
  | create segments =>
    cases done
    exact Or.inr (Or.inr ⟨rfl, elsewhere _ (fun _ => rfl) nofun, fun _ => rfl⟩)
  | clone handle =>
    obtain ⟨skeleton, place, same⟩ := Option.map_eq_some_iff.mp done
    cases same
    refine Or.inr (Or.inr ⟨rfl, elsewhere _ (fun _ => rfl) nofun, fun cache => ?_⟩)
    exact Option.map_eq_some_iff.mpr ⟨skeleton, place, rfl⟩
  | drop handle =>
    obtain ⟨skeleton, place, same⟩ := Option.map_eq_some_iff.mp done
    cases same
    refine Or.inr (Or.inr ⟨rfl, elsewhere _ (fun _ => rfl) nofun, fun cache => ?_⟩)
    exact Option.map_eq_some_iff.mpr ⟨skeleton, place, rfl⟩
  | downgrade handle =>
    obtain ⟨skeleton, place, same⟩ := Option.map_eq_some_iff.mp done
    cases same
    refine Or.inr (Or.inr ⟨rfl, elsewhere _ (fun _ => rfl) nofun, fun cache => ?_⟩)
    exact Option.map_eq_some_iff.mpr ⟨skeleton, place, rfl⟩
  | upgrade weak =>
    obtain ⟨id, place, same⟩ := Option.map_eq_some_iff.mp done
    have again : ∀ cache, { s with cache := cache }.step? (.upgrade weak) =
        some ({ s with cache := cache }.upgrade id) := fun cache =>
      Option.map_eq_some_iff.mpr ⟨id, place, rfl⟩
    unfold upgrade at same again
    dsimp only at again
    split at same
    · rename_i found
      cases same
      refine Or.inr (Or.inr ⟨rfl, elsewhere _ (fun _ => rfl) nofun, fun cache => ?_⟩)
      rw [again, found]
    · rename_i found
      cases same
      refine Or.inr (Or.inr ⟨rfl, elsewhere _ (fun _ => rfl) nofun, fun cache => ?_⟩)
      rw [again, found]
  | get handle compile =>
    obtain ⟨skeleton, place, same⟩ := Option.map_eq_some_iff.mp done
    refine Or.inl ⟨skeleton, compile, List.mem_of_getElem? place, same, fun cache => ?_⟩
    exact Option.map_eq_some_iff.mpr ⟨skeleton, place, rfl⟩
  | purge => exact Or.inr (Or.inl ⟨Option.some.inj done, fun _ => rfl⟩)

/-- Whether an operation names a handle that is held has nothing to do with the cache. -/
theorem step?_eq_none (done : s.step? operation = none) (cache : Cache) :
    { s with cache := cache }.step? operation = none := by
  cases operation with
  | create segments => cases done
  | purge => cases done
  | clone handle => exact Option.map_eq_none_iff.mpr (Option.map_eq_none_iff.mp done)
  | drop handle => exact Option.map_eq_none_iff.mpr (Option.map_eq_none_iff.mp done)
  | downgrade handle => exact Option.map_eq_none_iff.mpr (Option.map_eq_none_iff.mp done)
  | upgrade weak => exact Option.map_eq_none_iff.mpr (Option.map_eq_none_iff.mp done)
  | get handle compile => exact Option.map_eq_none_iff.mpr (Option.map_eq_none_iff.mp done)

/-- A skeleton whose handles are gone is never held again. -/
theorem Agrees.gone (h : Agrees history s) (done : s.step? operation = some (happening, s'))
    (given : id ∈ (account history).given) (gone : id ∉ (account history).held) :
    id ∉ (account (history ++ [happening])).held := by
  have held : ∀ {skeleton : Skeleton}, skeleton ∈ s.handles → skeleton.id ≠ id := by
    intro skeleton member same
    exact gone (h.holding.mem_held.mpr (same ▸ List.mem_map_of_mem member))
  rw [account_append]
  cases operation with
  | create segments =>
    cases done
    intro member
    rcases List.mem_cons.mp member with rfl | old
    · exact h.holding.next_not_given given
    · exact gone old
  | clone handle =>
    obtain ⟨skeleton, place, same⟩ := Option.map_eq_some_iff.mp done
    cases same
    intro member
    rcases List.mem_cons.mp member with rfl | old
    · exact held (List.mem_of_getElem? place) rfl
    · exact gone old
  | drop handle =>
    obtain ⟨skeleton, place, same⟩ := Option.map_eq_some_iff.mp done
    cases same
    exact fun member => gone (List.mem_of_mem_erase member)
  | downgrade handle =>
    obtain ⟨skeleton, place, same⟩ := Option.map_eq_some_iff.mp done
    cases same
    exact gone
  | upgrade weak =>
    obtain ⟨number, place, same⟩ := Option.map_eq_some_iff.mp done
    unfold upgrade at same
    split at same
    · rename_i found
      cases same
      intro member
      rcases List.mem_cons.mp member with rfl | old
      · exact held (h.holding.tracks.upgrade?_eq_some.mp found).1.1 rfl
      · exact gone old
    · cases same
      exact gone
  | get handle compile =>
    obtain ⟨skeleton, place, same⟩ := Option.map_eq_some_iff.mp done
    cases found : s.cache.find? skeleton.id with
    | some stored =>
      rw [get_of_some found] at same
      cases same
      exact gone
    | none =>
      rw [get_of_none found] at same
      cases same
      cases (compile skeleton).result <;> exact gone
  | purge =>
    cases done
    exact gone

/-! ## Entries and those who asked -/

/-- There are entries for the skeletons whose template somebody has asked for, and a purge only
takes those of skeletons that are held no more. -/
structure Entered (history : List Happening) (s : Session) : Prop where
  given : ∀ id, answers id history ≠ [] → id ∈ (account history).given
  asked : ∀ id ∈ s.cache.numbers, answers id history ≠ []
  entered : ∀ id ∈ (account history).held, answers id history ≠ [] → id ∈ s.cache.numbers

theorem entered_start : Entered [] start :=
  ⟨fun _ asked => absurd rfl asked, fun _ member => absurd member List.not_mem_nil,
    fun _ member => absurd member List.not_mem_nil⟩

/-- Numbers stay given. -/
theorem account_given_subset (history : List Happening) (happening : Happening) :
    (account history).given ⊆ (account (history ++ [happening])).given := by
  rw [account_append]
  unfold Account.record
  split <;> intro id member
  · exact List.mem_append_left _ member
  all_goals exact member

/-- Asking for a template changes no handles. -/
theorem account_got (history : List Happening) (skeleton : Skeleton) (compile : Cache.Compile)
    (called : Bool) (result : Except CompileError StoredTemplate) :
    (account (history ++ [.got skeleton compile called result])).held = (account history).held := by
  rw [account_append]
  cases called <;> cases result <;> rfl

theorem answers_purged (id : Nat) (history : List Happening) (count : Nat) :
    answers id (history ++ [.purged count]) = answers id history :=
  (answers_append _ _ _).trans (List.append_nil _)

theorem answers_elsewhere (silent : IsElsewhere happening) (id : Nat) (history : List Happening) :
    answers id (history ++ [happening]) = answers id history := by
  rw [answers_append, silent.1, Option.toList_none, List.append_nil]

/-- Purging changes no handles. -/
theorem account_purged (history : List Happening) (count : Nat) :
    (account (history ++ [.purged count])).held = (account history).held := by
  rw [account_append]
  rfl

/-- Whoever asks has an entry afterwards, found or made. -/
theorem get_cases (got : s.get skeleton compile = (happening, s')) :
    ∃ called result, happening = .got skeleton compile called result ∧
      ∀ other, other ∈ s'.cache.numbers ↔ other ∈ s.cache.numbers ∨ other = skeleton.id := by
  cases found : s.cache.find? skeleton.id with
  | some stored =>
    rw [get_of_some found] at got
    cases got
    have old := Cache.mem_numbers_of_find? found
    exact ⟨_, _, rfl, fun other => ⟨Or.inl, fun either =>
      either.elim (fun member => member) fun same => same ▸ old⟩⟩
  | none =>
    rw [get_of_none found] at got
    cases got
    exact ⟨_, _, rfl, fun other => Cache.mem_numbers_afterCompile _⟩

theorem Entered.get (h : Entered history s) (agrees : Agrees history s)
    (member : skeleton ∈ s.handles) (got : s.get skeleton compile = (happening, s')) :
    Entered (history ++ [happening]) s' := by
  have held : skeleton.id ∈ (account history).held :=
    agrees.holding.mem_held.mpr (List.mem_map_of_mem member)
  have given := account_given_subset history happening
  obtain ⟨called, result, rfl, numbers⟩ := get_cases got
  refine ⟨fun id asked => ?_, fun id inside => ?_, fun id holds asked => ?_⟩
  · rw [answers_got] at asked
    split at asked
    · rename_i same
      exact given (same ▸ agrees.holding.given_of_held held)
    · exact given (h.given id asked)
  · rw [answers_got]
    split
    · exact List.append_ne_nil_of_right_ne_nil _ (List.cons_ne_nil _ _)
    · rename_i other
      exact h.asked id (((numbers id).mp inside).resolve_right (Ne.symm other))
  · rw [account_got] at holds
    rw [answers_got] at asked
    rw [numbers]
    split at asked
    · rename_i same
      exact Or.inr same.symm
    · exact Or.inl (h.entered id holds asked)

theorem Entered.purge (h : Entered history s) (agrees : Agrees history s) (count : Nat) :
    Entered (history ++ [.purged count]) s.purge.2 := by
  refine ⟨fun id asked => ?_, fun id inside => ?_, fun id holds asked => ?_⟩
  · rw [answers_purged] at asked
    exact account_given_subset _ _ (h.given id asked)
  · rw [answers_purged]
    exact h.asked id (Cache.mem_numbers_purge.mp inside).1
  · rw [account_purged] at holds
    rw [answers_purged] at asked
    exact Cache.mem_numbers_purge.mpr ⟨h.entered id holds asked, agrees.holding.alive.mpr holds⟩

theorem Entered.step (h : Entered history s) (agrees : Agrees history s)
    (done : s.step? operation = some (happening, s')) : Entered (history ++ [happening]) s' := by
  rcases step?_cases done with ⟨skeleton, compile, member, got, -⟩ | ⟨purged, -⟩ |
    ⟨same, silent, -⟩
  · exact h.get agrees member got
  · cases purged
    exact h.purge agrees _
  · refine ⟨fun id asked => ?_, fun id inside => ?_, fun id holds asked => ?_⟩
    · rw [answers_elsewhere silent] at asked
      exact account_given_subset _ _ (h.given id asked)
    · rw [answers_elsewhere silent]
      exact h.asked id (same ▸ inside)
    · rw [answers_elsewhere silent] at asked
      rw [same]
      have old : id ∈ (account history).held := by
        by_contra gone
        exact agrees.gone done (h.given id asked) gone holds
      exact h.entered id old asked

theorem Entered.run (h : Entered history s) (agrees : Agrees history s)
    (operations : List Operation) :
    Entered (history ++ (s.run operations).1) (s.run operations).2 := by
  induction operations generalizing history s with
  | nil =>
    rw [Session.run, List.append_nil]
    exact h
  | cons operation rest ih =>
    cases done : s.step? operation with
    | none =>
      rw [run_cons_of_none done]
      exact ih h agrees
    | some next =>
      have later := ih (h.step agrees done) (agrees.step done)
      rw [List.append_assoc] at later
      rw [run_cons_of_some done]
      exact later

/-- The template that a skeleton is served with was made by a call. -/
theorem Served.called {answers : List (Bool × Except CompileError StoredTemplate)}
    {stored : StoredTemplate} (h : Served answers (some stored)) :
    (true, .ok stored) ∈ answers := by
  generalize all : some stored = stored? at h
  induction h with
  | nobody => cases all
  | failed error before => cases all
  | compiled made before =>
    cases all
    exact List.mem_append_right _ (List.mem_singleton_self _)
  | found before ih => exact List.mem_append_left _ (ih all)

/-- A template that is kept was made by one of the compiles so far. -/
theorem Agrees.serial_le (h : Agrees history s) {stored : StoredTemplate}
    (found : s.cache.find? id = some stored) : stored.serial ≤ s.cache.compiles := by
  obtain ⟨stored?, served, place⟩ := h.serving.served id
  have same : stored? = some stored := by
    rcases place with same | ⟨missing, -⟩
    · rw [← same, found]
    · rw [found] at missing
      cases missing
  rw [same] at served
  have called := served.called
  obtain ⟨happening, member, answered⟩ := List.mem_filterMap.mp called
  refine h.serving.bound stored (List.mem_filterMap.mpr ⟨happening, member, ?_⟩)
  cases happening with
  | got skeleton compile called result =>
    obtain ⟨-, same⟩ := (Option.ite_none_right_eq_some).mp answered
    cases same
    rfl
  | _ => cases answered

end Session

end HtmlTemplate

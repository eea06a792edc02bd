import HtmlTemplate.Proofs.Cache.Entered

/-!
# What a failed compile leaves behind

A session with one more request whose compile fails is compared with the session without it
(`Session.failed_compile_retold`). A failure keeps no template, so nobody gets another answer
afterwards and the cache is as large as before. But the entry that was made for the skeleton stays:
if nobody else asks for its template, the first purge after its last handle was dropped counts it
(`Session.Retold.swept`).

The comparison is kept by each operation as `Session.Shadows`: the caches of both sessions find the
same templates, and they have entries for the same skeletons apart from the one that is left over.
-/

namespace HtmlTemplate

/-- The template with another number. -/
def StoredTemplate.renumber (number : Nat → Nat) (stored : StoredTemplate) : StoredTemplate :=
  { stored with serial := number stored.serial }

/-- The same happening when compiles have other numbers. -/
def Happening.renumber (number : Nat → Nat) : Happening → Happening
  | .got skeleton compile called result =>
    .got skeleton compile called (result.map (StoredTemplate.renumber number))
  | other => other

namespace Session

/-- Compiles are counted in order, so the number of a compile tells how many were begun up to it.
With one more compile after the first `calls` of them, those that come later are numbered one
higher. -/
def renumbered (calls serial : Nat) : Nat := if serial ≤ calls then serial else serial + 1

/-- The entry that a failed compile made for the skeleton `id`, after `past` and before `later`, is
there for no other reason and was not purged. -/
structure Leftover (id : Nat) (past later : List Happening) : Prop where
  unasked : answers id (past ++ later) = []
  /-- Whenever there was a purge, somebody held the skeleton. -/
  unpurged : ∀ before count rest, later = before ++ .purged count :: rest →
    id ∈ (account (past ++ before)).held

/-- What happens after `past`, as it is and as it is when a compile of the skeleton `id` has failed
first: only the numbers of compiles differ, and the count of the purge that takes the entry which
the failure left. -/
inductive Retold (id : Nat) (past : List Happening) : List Happening → List Happening → Prop where
  | nothing : Retold id past [] []
  | same {later later'} {happening : Happening} :
    Retold id past later later' → (∀ count, happening ≠ .purged count) →
      Retold id past (later ++ [happening])
        (later' ++ [happening.renumber (renumbered (account past).calls)])
  | purged {later later'} (count : Nat) :
    Retold id past later later' →
      ¬(Leftover id past later ∧ id ∉ (account (past ++ later)).held) →
        Retold id past (later ++ [.purged count]) (later' ++ [.purged count])
  | swept {later later'} (count : Nat) :
    Retold id past later later' → Leftover id past later →
      id ∉ (account (past ++ later)).held →
        Retold id past (later ++ [.purged count]) (later' ++ [.purged (count + 1)])

variable {past later later' : List Happening} {happening : Happening} {s s' : Session}
  {cache : Cache} {id : Nat} {skeleton : Skeleton} {compile : Cache.Compile} {operation : Operation}

/-! ## The numbers of compiles -/

/-- The next compile is a later one. -/
theorem renumbered_succ {calls compiles : Nat} (h : calls ≤ compiles) :
    renumbered calls (compiles + 1) = compiles + 1 + 1 :=
  if_neg (Nat.not_le.mpr (Nat.lt_succ_of_le h))

/-- Two answers give the same template in one session only if they do in the other. -/
theorem renumber_injective (calls : Nat) :
    Function.Injective (StoredTemplate.renumber (renumbered calls)) := by
  rintro ⟨serial, template⟩ ⟨serial', template'⟩ same
  simp only [StoredTemplate.renumber, renumbered, StoredTemplate.mk.injEq] at same ⊢
  refine ⟨?_, same.2⟩
  split at same <;> split at same <;> omega

/-! ## What is left over -/

theorem leftover_nil : Leftover id past [] ↔ answers id past = [] := by
  constructor
  · intro h
    simpa using h.unasked
  · intro unasked
    refine ⟨by simpa using unasked, fun before count rest same => ?_⟩
    simp at same

/-- The entry is left over as long as nobody asks for it and nobody purges it. -/
theorem leftover_append : Leftover id past (later ++ [happening]) ↔
    Leftover id past later ∧ answer? id happening = none ∧
      ((∃ count, happening = .purged count) → id ∈ (account (past ++ later)).held) := by
  have asked : answers id (past ++ (later ++ [happening])) = [] ↔
      answers id (past ++ later) = [] ∧ answer? id happening = none := by
    rw [← List.append_assoc, answers_append, List.append_eq_nil_iff, Option.toList_eq_nil_iff]
  constructor
  · intro h
    obtain ⟨unasked, silent⟩ := asked.mp h.unasked
    refine ⟨⟨unasked, fun before count rest same => ?_⟩, silent, ?_⟩
    · refine h.unpurged before count (rest ++ [happening]) ?_
      rw [same, List.append_assoc, List.cons_append]
    · rintro ⟨count, rfl⟩
      exact h.unpurged later count [] rfl
  · rintro ⟨h, silent, purge⟩
    refine ⟨asked.mpr ⟨h.unasked, silent⟩, fun before count rest same => ?_⟩
    rcases List.eq_nil_or_concat rest with rfl | ⟨rest, last, rfl⟩
    · obtain ⟨rfl, rfl⟩ := List.append_inj' same rfl |>.imp_right List.singleton_inj.mp
      exact purge ⟨count, rfl⟩
    · rw [List.concat_eq_append, ← List.cons_append, ← List.append_assoc] at same
      exact h.unpurged before count rest (List.append_inj' same rfl).1

/-! ## The two sessions -/

/-- The cache of the session in which a compile has failed, beside the cache without it. -/
structure Shadows (id : Nat) (past later : List Happening) (plain cache : Cache) : Prop where
  calls : (account past).calls ≤ plain.compiles
  compiles : cache.compiles = plain.compiles + 1
  distinct : cache.numbers.Nodup
  found : ∀ other, cache.find? other =
    (plain.find? other).map (StoredTemplate.renumber (renumbered (account past).calls))
  numbers : ∀ other, other ∈ cache.numbers ↔
    other ∈ plain.numbers ∨ other = id ∧ Leftover id past later

/-- A failed compile adds at most its entry. -/
theorem shadows_failed (agrees : Agrees past s) (entered : Entered past s)
    (held : id ∈ (account past).held) (error : CompileError) :
    Shadows id past [] s.cache (s.cache.afterCompile id (.error error)).2 := by
  refine ⟨Nat.le_of_eq agrees.serving.calls.symm, rfl,
    Cache.nodup_afterCompile agrees.serving.distinct _ _, fun other => ?_, fun other => ?_⟩
  · rw [Cache.find?_afterCompile_error]
    cases found : s.cache.find? other with
    | none => rfl
    | some stored =>
      have bound : stored.serial ≤ (account past).calls :=
        agrees.serving.calls ▸ agrees.serial_le found
      simp [StoredTemplate.renumber, renumbered, bound]
  · rw [Cache.mem_numbers_afterCompile, leftover_nil]
    by_cases asked : answers id past = []
    · simp [asked]
    · have inside := entered.entered id held asked
      simp only [asked, and_false, or_false, or_iff_left_iff_imp]
      rintro rfl
      exact inside

/-- Both caches hold as many templates. -/
theorem Shadows.size (h : Shadows id past later s.cache cache) (agrees : Agrees (past ++ later) s) :
    cache.size = s.cache.size := by
  have serving := agrees.serving
  rw [Cache.size_eq_length serving.distinct serving.nodup serving.kept,
    Cache.size_eq_length h.distinct serving.nodup fun other => ?_]
  rw [serving.kept, h.found, Option.isSome_map]

theorem Shadows.isEmpty (h : Shadows id past later s.cache cache)
    (agrees : Agrees (past ++ later) s) :
    cache.isEmpty = s.cache.isEmpty := by
  rw [Bool.eq_iff_iff, Cache.isEmpty_iff_size_eq_zero, Cache.isEmpty_iff_size_eq_zero,
    h.size agrees]

/-- Both get the same answer, and both have an entry afterwards. -/
theorem Shadows.get (h : Shadows id past later s.cache cache)
    (got : s.get skeleton compile = (happening, s')) :
    ∃ cache', { s with cache := cache }.get skeleton compile =
        (happening.renumber (renumbered (account past).calls), { s' with cache := cache' }) ∧
      Shadows id past (later ++ [happening]) s'.cache cache' := by
  -- An entry that is left over is not left over any more when its skeleton is asked for.
  have remains : ∀ called result other, other = skeleton.id ∨ other = id ∧ Leftover id past later ↔
      other = skeleton.id ∨ other = id ∧
        Leftover id past (later ++ [.got skeleton compile called result]) := by
    intro called result other
    rw [leftover_append, answer?]
    by_cases same : skeleton.id = id
    · subst same
      simp only [if_pos, reduceCtorEq, false_and, and_false, or_false, or_iff_left_iff_imp]
      exact And.left
    · simp [same]
  cases found : s.cache.find? skeleton.id with
  | some stored =>
    have found' : cache.find? skeleton.id = _ := h.found _
    rw [found, Option.map_some] at found'
    rw [get_of_some found] at got
    cases got
    refine ⟨cache, get_of_some found', h.calls, h.compiles, h.distinct, h.found, fun other => ?_⟩
    have old := Cache.mem_numbers_of_find? found
    have both := remains false (.ok stored) other
    rw [h.numbers]
    by_cases same : other = skeleton.id
    · subst same
      simp [old]
    · simp only [same, false_or] at both
      rw [both]
  | none =>
    have missing' : cache.find? skeleton.id = _ := h.found _
    rw [found, Option.map_none] at missing'
    rw [get_of_none found] at got
    cases got
    have numbers : ∀ other,
        other ∈ (cache.afterCompile skeleton.id (compile skeleton).result).2.numbers ↔
        other ∈ (s.cache.afterCompile skeleton.id (compile skeleton).result).2.numbers ∨
          other = id ∧ Leftover id past (later ++ [.got skeleton compile true
            (s.cache.afterCompile skeleton.id (compile skeleton).result).1]) := by
      intro other
      rw [Cache.mem_numbers_afterCompile, Cache.mem_numbers_afterCompile, h.numbers, or_assoc,
        or_assoc, ← remains, or_comm (a := other = skeleton.id)]
    refine ⟨(cache.afterCompile skeleton.id (compile skeleton).result).2, ?_, ?_, ?_,
      Cache.nodup_afterCompile h.distinct _ _, fun other => ?_, numbers⟩
    · rw [get_of_none missing']
      cases (compile skeleton).result with
      | error error => rfl
      | ok template =>
        simp [Cache.afterCompile, Cache.settle, Happening.renumber, StoredTemplate.renumber,
          renumbered_succ h.calls, h.compiles, Except.map]
    · rw [Cache.compiles_afterCompile]
      exact Nat.le_succ_of_le h.calls
    · rw [Cache.compiles_afterCompile, Cache.compiles_afterCompile, h.compiles]
    · cases (compile skeleton).result with
      | error error =>
        rw [Cache.find?_afterCompile_error, Cache.find?_afterCompile_error]
        exact h.found other
      | ok template =>
        rw [Cache.find?_afterCompile_ok, Cache.find?_afterCompile_ok, h.found]
        split
        · simp [StoredTemplate.renumber, renumbered_succ h.calls, h.compiles]
        · rfl

/-- The purge that takes what is left over counts one more, and no other purge does. -/
theorem Shadows.purge (h : Shadows id past later s.cache cache) (agrees : Agrees (past ++ later) s)
    (entered : Entered (past ++ later) s) (retold : Retold id past later later') :
    ∃ count' cache', { s with cache := cache }.purge =
        (.purged count', { s with cache := cache' }) ∧
      Retold id past (later ++ [s.purge.1]) (later' ++ [.purged count']) ∧
      Shadows id past (later ++ [s.purge.1]) s.purge.2.cache cache' := by
  refine ⟨_, _, rfl, ?_, ?_⟩
  · have alive : s.skeletons.isAlive id = true ↔ id ∈ (account (past ++ later)).held :=
      agrees.holding.alive
    have counts := Cache.purge_count cache s.skeletons
    by_cases leftover : Leftover id past later
    · have apart : cache.numbers.Perm (id :: s.cache.numbers) := by
        have absent : id ∉ s.cache.numbers := fun member =>
          entered.asked id member leftover.unasked
        refine (List.perm_ext_iff_of_nodup h.distinct
          (List.nodup_cons.mpr ⟨absent, agrees.serving.distinct⟩)).mpr fun other => ?_
        rw [h.numbers, List.mem_cons, or_comm, and_iff_left leftover]
      rw [apart.countP_eq, List.countP_cons, ← Cache.purge_count] at counts
      by_cases held : id ∈ (account (past ++ later)).held
      · rw [alive.mpr held] at counts
        exact counts ▸ retold.purged _ fun both => both.2 held
      · rw [Bool.eq_false_iff.mpr (mt alive.mp held)] at counts
        exact counts ▸ retold.swept _ leftover held
    · have same : cache.numbers.Perm s.cache.numbers := by
        refine (List.perm_ext_iff_of_nodup h.distinct agrees.serving.distinct).mpr fun other => ?_
        rw [h.numbers, or_iff_left fun both => leftover both.2]
      rw [same.countP_eq, ← Cache.purge_count] at counts
      exact counts ▸ retold.purged _ fun both => leftover both.1
  · have compiles : ∀ cache : Cache, (cache.purge s.skeletons).result.2.compiles = cache.compiles :=
      fun cache => by rw [Cache.purge_result]
    refine ⟨?_, ?_, Cache.nodup_purge h.distinct _, fun other => ?_, fun other => ?_⟩
    · exact (compiles s.cache).symm ▸ h.calls
    · exact (compiles cache).trans (h.compiles.trans (congrArg Nat.succ (compiles s.cache).symm))
    · refine (Cache.find?_purge h.distinct _ _).trans ?_
      rw [h.found]
      show _ = ((s.cache.purge s.skeletons).result.2.find? other).map _
      rw [Cache.find?_purge agrees.serving.distinct]
      split <;> rfl
    · refine Cache.mem_numbers_purge.trans ?_
      refine Iff.trans ?_ (or_congr_left Cache.mem_numbers_purge.symm)
      rw [h.numbers, leftover_append, or_and_right, ← agrees.holding.alive]
      refine or_congr_right ?_
      constructor
      · rintro ⟨⟨rfl, leftover⟩, lives⟩
        exact ⟨rfl, leftover, rfl, fun _ => lives⟩
      · rintro ⟨rfl, leftover, -, lives⟩
        exact ⟨⟨rfl, leftover⟩, lives ⟨_, rfl⟩⟩

/-- One operation keeps the sessions beside each other. -/
theorem Shadows.step (h : Shadows id past later s.cache cache) (agrees : Agrees (past ++ later) s)
    (entered : Entered (past ++ later) s) (retold : Retold id past later later')
    (done : s.step? operation = some (happening, s')) :
    ∃ happening' cache', { s with cache := cache }.step? operation =
        some (happening', { s' with cache := cache' }) ∧
      Retold id past (later ++ [happening]) (later' ++ [happening']) ∧
      Shadows id past (later ++ [happening]) s'.cache cache' := by
  rcases step?_cases done with ⟨skeleton, compile, member, got, again⟩ | ⟨purged, again⟩ |
    ⟨same, silent, again⟩
  · obtain ⟨cache', got', shadows⟩ := h.get got
    obtain ⟨called, result, rfl, -⟩ := get_cases got
    exact ⟨_, cache', (again cache).trans (congrArg some got'), retold.same nofun, shadows⟩
  · obtain ⟨count', cache', purged', told, shadows⟩ := h.purge agrees entered retold
    rw [purged] at told shadows
    cases purged
    exact ⟨_, cache', (again cache).trans (congrArg some purged'), told, shadows⟩
  · have told : happening.renumber (renumbered (account past).calls) = happening := by
      cases happening with
      | got skeleton compile called result =>
        exact absurd (silent.1 skeleton.id) (by simp [answer?])
      | _ => rfl
    have same' := retold.same silent.2
    rw [told] at same'
    refine ⟨happening, cache, again cache, same', ?_⟩
    rw [same]
    refine ⟨h.calls, h.compiles, h.distinct, h.found, fun other => ?_⟩
    have purge : ¬∃ count, happening = .purged count := by
      rintro ⟨count, purged⟩
      exact silent.2 count purged
    rw [h.numbers, leftover_append]
    simp [silent.1, purge]

/-- Whole sessions stay beside each other. -/
theorem Shadows.run (h : Shadows id past later s.cache cache) (agrees : Agrees (past ++ later) s)
    (entered : Entered (past ++ later) s) (retold : Retold id past later later')
    (operations : List Operation) :
    ∃ more more' cache', (s.run operations).1 = more ∧
      { s with cache := cache }.run operations =
        (more', { (s.run operations).2 with cache := cache' }) ∧
      Retold id past (later ++ more) (later' ++ more') ∧
      Shadows id past (later ++ more) (s.run operations).2.cache cache' := by
  induction operations generalizing later later' s cache with
  | nil =>
    refine ⟨[], [], cache, rfl, rfl, ?_, ?_⟩
    · rw [List.append_nil, List.append_nil]
      exact retold
    · rw [List.append_nil]
      exact h
  | cons operation rest ih =>
    cases done : s.step? operation with
    | none =>
      rw [run_cons_of_none done, run_cons_of_none (step?_eq_none done cache)]
      exact ih h agrees entered retold
    | some next =>
      obtain ⟨happening', cache', done', told, shadows⟩ := h.step agrees entered retold done
      have agrees' := agrees.step done
      have entered' := entered.step agrees done
      rw [List.append_assoc] at agrees' entered'
      obtain ⟨more, more', last, same, rest', all, final⟩ := ih shadows agrees' entered' told
      rw [run_cons_of_some done, run_cons_of_some done', rest']
      rw [List.append_assoc] at all final
      refine ⟨next.1 :: more, happening' :: more', last, ?_, rfl, ?_, final⟩
      · rw [same]
      · rw [List.append_assoc] at all
        exact all

/-- A session with one more request whose compile fails, beside the session without it, whatever is
done before and after: everything that happens later is the same, up to the numbers of compiles,
which tell the same templates apart as before, and so are the number of templates in the cache and
whether there are any. Only the entry that the failure made can be noticed: if nobody asks for a
template of that skeleton before or after, the first purge after its last handle was dropped counts
one more. -/
theorem failed_compile_retold (before after : List Operation) {handle : Nat}
    {compile : Cache.Compile} {skeleton : Skeleton} {error : CompileError} {s : Session}
    (fails : (start.run before).2.step? (.get handle compile) =
      some (.got skeleton compile true (.error error), s)) :
    let past := (start.run before).1
    let plain := start.run (before ++ after)
    let tried := start.run (before ++ .get handle compile :: after)
    Function.Injective (StoredTemplate.renumber (renumbered (account past).calls)) ∧
    ∃ later later', plain.1 = past ++ later ∧
      tried.1 = past ++ .got skeleton compile true (.error error) :: later' ∧
      Retold skeleton.id past later later' ∧
      tried.2.cache.size = plain.2.cache.size ∧
      tried.2.cache.isEmpty = plain.2.cache.isEmpty ∧
      tried.2.cache.compiles = plain.2.cache.compiles + 1 := by
  have agrees : Agrees (start.run before).1 (start.run before).2 := agrees_start.run before
  have entered : Entered (start.run before).1 (start.run before).2 :=
    entered_start.run agrees_start before
  obtain ⟨found, member, left⟩ : (start.run before).2.cache.find? skeleton.id = none ∧
      skeleton ∈ (start.run before).2.handles ∧
      s = { (start.run before).2 with
        cache := ((start.run before).2.cache.afterCompile skeleton.id (.error error)).2 } := by
    obtain ⟨asked, place, got⟩ := Option.map_eq_some_iff.mp fails
    have member := List.mem_of_getElem? place
    cases found : (start.run before).2.cache.find? asked.id with
    | some stored =>
      rw [get_of_some found] at got
      cases got
    | none =>
      rw [get_of_none found] at got
      obtain ⟨happened, left⟩ := Prod.mk.inj got
      injection happened with asked_eq compile_eq called_eq failed
      subst asked_eq
      cases compiled : (compile asked).result with
      | ok template =>
        rw [compiled] at failed
        cases failed
      | error other =>
        rw [compiled] at failed left
        cases failed
        exact ⟨found, member, left.symm⟩
  have held := agrees.holding.mem_held.mpr (List.mem_map_of_mem member)
  have shadows := shadows_failed agrees entered held error
  rw [← List.append_nil (start.run before).1] at agrees entered
  obtain ⟨later, later', cache, same, rest, retold, final⟩ :=
    shadows.run agrees entered .nothing after
  have whole := (agrees.run after)
  rw [List.append_nil, same] at whole
  rw [run_append, run_append, run_cons_of_some fails, left, rest, same]
  exact ⟨renumber_injective _, later, later', rfl, rfl, retold, final.size whole,
    final.isEmpty whole, final.compiles⟩

/-- A skeleton that is dropped after its only compile has failed. -/
theorem failed_compile_retold_dropped :
    let fails : Cache.Compile := fun _ => ⟨.error (.missingSlots 1 0), []⟩
    let skeleton : Skeleton := ⟨1, [[], []]⟩
    let plain := start.run [.create [[], []], .drop 0, .purge]
    let tried := start.run [.create [[], []], .get 0 fails, .drop 0, .purge]
    ∃ later later', plain.1 = .created skeleton :: later ∧
      tried.1 = .created skeleton ::
        .got skeleton fails true (.error (.missingSlots 1 0)) :: later' ∧
      Retold 1 [.created skeleton] later later' ∧
      tried.2.cache.size = plain.2.cache.size ∧
      tried.2.cache.isEmpty = plain.2.cache.isEmpty ∧
      tried.2.cache.compiles = plain.2.cache.compiles + 1 :=
  (failed_compile_retold [.create [[], []]] [.drop 0, .purge] rfl).2

/-- The purge that follows counts the entry, though the cache holds no template. -/
example (error : CompileError) :
    let fails : Cache.Compile := fun _ => ⟨.error error, []⟩
    let tried := start.run [.create [[], []], .get 0 fails, .drop 0]
    tried.2.cache.isEmpty = true ∧ tried.2.purge.1 = .purged 1 ∧
      (start.run [.create [[], []], .drop 0]).2.purge.1 = .purged 0 :=
  ⟨rfl, rfl, rfl⟩

end Session

end HtmlTemplate

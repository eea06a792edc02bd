import HtmlTemplate.Cache
import Mathlib.Data.List.Nodup

/-!
# What the operations of the cache do

The cache seen through `Cache.find?` and the numbers of its entries. Asking for a template has two
outcomes: one that is kept is given back without calling the function (`getOrCompile_of_some`), and
otherwise the function is called and its template kept (`getOrCompile_of_none`).
-/

namespace HtmlTemplate

namespace Cache

variable {cache : Cache} {known : Skeletons} {id other : Nat} {stored : StoredTemplate}
  {skeleton : Skeleton}

/-- The numbers of the entries. -/
def numbers (cache : Cache) : List Nat := cache.entries.map CacheEntry.id

/-- Whether an entry has a number, as the entries themselves tell. -/
theorem any_id_eq (cache : Cache) (id : Nat) :
    (cache.entries.any fun entry => entry.id == id) = true ↔ id ∈ cache.numbers := by
  simp [numbers, List.any_eq_true]

theorem mem_numbers_of_find? (h : cache.find? id = some stored) : id ∈ cache.numbers := by
  obtain ⟨entry, found, _⟩ := Option.bind_eq_some_iff.mp h
  refine List.mem_map.mpr ⟨entry, List.mem_of_find?_eq_some found, ?_⟩
  simpa using List.find?_some found

/-- In a cache with one entry for each number, an entry is found by its number. -/
theorem find?_of_mem (distinct : cache.numbers.Nodup) {entry : CacheEntry}
    (member : entry ∈ cache.entries) : cache.find? entry.id = entry.stored := by
  unfold find?
  cases found : cache.entries.find? fun other => other.id == entry.id with
  | none => exact absurd (List.find?_eq_none.mp found _ member) (by simp)
  | some first =>
    have same : first.id = entry.id := by simpa using List.find?_some found
    have equal := List.inj_on_of_nodup_map distinct (List.mem_of_find?_eq_some found) member same
    rw [equal]
    rfl

theorem find?_eq_none_of_not_mem (h : id ∉ cache.numbers) : cache.find? id = none := by
  cases found : cache.find? id with
  | none => rfl
  | some stored => exact absurd (mem_numbers_of_find? found) h

/-! ## Entering and storing -/

theorem enter_of_mem (h : id ∈ cache.numbers) : cache.enter id = cache :=
  if_pos ((any_id_eq cache id).mpr h)

theorem enter_of_not_mem (h : id ∉ cache.numbers) :
    cache.enter id = { cache with entries := cache.entries ++ [⟨id, none⟩] } :=
  if_neg fun found => h ((any_id_eq cache id).mp found)

theorem mem_numbers_enter :
    other ∈ (cache.enter id).numbers ↔ other ∈ cache.numbers ∨ other = id := by
  by_cases h : id ∈ cache.numbers
  · rw [enter_of_mem h]
    exact ⟨Or.inl, fun either => either.elim (fun member => member) fun same => same ▸ h⟩
  · rw [enter_of_not_mem h, numbers, List.map_append, List.mem_append, List.map_singleton,
      List.mem_singleton]
    rfl

theorem nodup_enter (distinct : cache.numbers.Nodup) (id : Nat) :
    (cache.enter id).numbers.Nodup := by
  by_cases h : id ∈ cache.numbers
  · rw [enter_of_mem h]
    exact distinct
  · rw [enter_of_not_mem h, numbers, List.map_append]
    refine List.nodup_append.mpr ⟨distinct, List.nodup_singleton _, ?_⟩
    rintro number member _ added rfl
    have same : number = id := List.mem_singleton.mp added
    exact h (same ▸ member)

/-- A new entry has no template. -/
@[simp] theorem find?_enter (cache : Cache) (id other : Nat) :
    (cache.enter id).find? other = cache.find? other := by
  by_cases h : id ∈ cache.numbers
  · rw [enter_of_mem h]
  · rw [enter_of_not_mem h]
    unfold find?
    rw [List.find?_append]
    cases cache.entries.find? fun entry => entry.id == other with
    | some entry => rfl
    | none =>
      rw [Option.none_or, List.find?_singleton]
      split <;> rfl

@[simp] theorem numbers_store (cache : Cache) (id : Nat) (stored : StoredTemplate) :
    (cache.store id stored).numbers = cache.numbers := by
  simp only [numbers, store, List.map_map]
  refine List.map_congr_left fun entry _ => ?_
  simp only [Function.comp_apply]
  split <;> rfl

theorem find?_store (cache : Cache) (id other : Nat) (stored : StoredTemplate)
    (entered : id ∈ cache.numbers) :
    (cache.store id stored).find? other = if other =
      id then some stored else cache.find? other := by
  have same : ∀ entry : CacheEntry,
      (if entry.id = id then { entry with stored := some stored } else entry).id = entry.id := by
    intro entry
    split <;> rfl
  unfold find? store
  simp only [List.find?_map, Function.comp_def, same]
  cases found : cache.entries.find? fun entry => entry.id == other with
  | none =>
    rw [if_neg, Option.map_none]
    rintro rfl
    obtain ⟨entry, member, number⟩ := List.mem_map.mp entered
    exact List.find?_eq_none.mp found entry member (by simpa using number)
  | some entry =>
    have number : entry.id = other := by simpa using List.find?_some found
    rw [Option.map_some, Option.bind_some, Option.bind_some, number]
    split <;> rfl

/-! ## Asking for a template -/

/-- A template that is kept is given back, whatever the function: it is not called. -/
theorem getOrCompile_of_some (h : cache.find? skeleton.id = some stored) (compile : Compile) :
    cache.getOrCompile skeleton compile = ⟨(.ok stored, cache), [.cacheHit]⟩ := by
  unfold getOrCompile
  rw [enter_of_mem (mem_numbers_of_find? h)]
  simp only [h]
  rfl

/-- The answer when the compile with a number ends, and the cache after it: only a template is
kept. -/
def settle (cache : Cache) (id serial : Nat) :
    Except CompileError Template → Except CompileError StoredTemplate × Cache
  | .error error => (.error error, cache)
  | .ok template => (.ok ⟨serial, template⟩, cache.store id ⟨serial, template⟩)

/-- What becomes of the cache when a compile ends: a failure leaves only its entry and the count. -/
def afterCompile (cache : Cache) (id : Nat) (result : Except CompileError Template) :
    Except CompileError StoredTemplate × Cache :=
  ({ cache.enter id with compiles := cache.compiles + 1 } : Cache).settle id (cache.compiles + 1)
    result

/-- Without a template that is kept, the function is called, and its result is the answer. -/
theorem getOrCompile_of_none (h : cache.find? skeleton.id = none) (compile : Compile) :
    cache.getOrCompile skeleton compile =
      ⟨cache.afterCompile skeleton.id (compile skeleton).result,
        .compileBegins skeleton.slotCount :: (compile skeleton).notes⟩ := by
  unfold getOrCompile afterCompile settle
  simp only [find?_enter, h, compiles_enter]
  show Noted.bind _ _ = _
  unfold Noted.bind
  cases compiled : (compile skeleton).result with
  | error error =>
    show Noted.mk _ _ = _
    simp [Noted.note, compiled]
  | ok template =>
    show Noted.mk _ _ = _
    simp [Noted.note, compiled]

/-- Who asks for a template makes the entry first if need be. -/
theorem getOrCompile_enter (cache : Cache) (skeleton : Skeleton) (compile : Compile) :
    (cache.enter skeleton.id).getOrCompile skeleton compile =
      cache.getOrCompile skeleton compile := by
  unfold getOrCompile
  rw [enter_of_mem (mem_numbers_enter.mpr (Or.inr rfl))]

/-! ## Purging -/

/-- What a purge leaves is what belongs to skeletons that live. -/
theorem purge_result (cache : Cache) (known : Skeletons) :
    let left := cache.entries.filter fun entry => known.isAlive entry.id
    (cache.purge known).result =
      (cache.entries.length - left.length, { cache with entries := left }) := by
  intro left
  unfold purge
  dsimp only
  split
  · rename_i none
    have bound : left.length ≤ cache.entries.length := List.length_filter_le _ _
    have nothing : cache.entries.length - left.length = 0 := none
    have all : left = cache.entries := List.filter_sublist.eq_of_length
      (Nat.le_antisymm bound (Nat.sub_eq_zero_iff_le.mp nothing))
    rw [nothing, all]
    rfl
  · rfl

theorem find?_filter (distinct : cache.numbers.Nodup) (keep : Nat → Bool) (id : Nat) :
    ({ cache with entries := cache.entries.filter fun entry => keep entry.id } : Cache).find? id =
      if keep id then cache.find? id else none := by
  have kept : (({ cache with entries := cache.entries.filter fun entry => keep entry.id } :
      Cache).numbers).Nodup := distinct.sublist (List.filter_sublist.map _)
  by_cases entered : ∃ entry ∈ cache.entries, entry.id = id
  · obtain ⟨entry, member, rfl⟩ := entered
    rw [find?_of_mem distinct member]
    split
    · rename_i stays
      exact find?_of_mem kept (List.mem_filter.mpr ⟨member, stays⟩)
    · rename_i goes
      refine find?_eq_none_of_not_mem fun inside => ?_
      obtain ⟨other, found, same⟩ := List.mem_map.mp inside
      rw [← same] at goes
      exact goes (List.mem_filter.mp found).2
  · have absent : id ∉ cache.numbers := by
      intro inside
      obtain ⟨entry, member, same⟩ := List.mem_map.mp inside
      exact entered ⟨entry, member, same⟩
    rw [find?_eq_none_of_not_mem absent, ite_self]
    refine find?_eq_none_of_not_mem fun inside => absent ?_
    obtain ⟨entry, member, same⟩ := List.mem_map.mp inside
    exact List.mem_map.mpr ⟨entry, (List.mem_filter.mp member).1, same⟩

/-- The templates that are kept are counted by the numbers that have one. -/
theorem size_eq_length (distinct : cache.numbers.Nodup) {ids : List Nat} (nodup : ids.Nodup)
    (h : ∀ id, id ∈ ids ↔ (cache.find? id).isSome = true) : cache.size = ids.length := by
  have counted : cache.size =
      ((cache.entries.filter fun entry => entry.stored.isSome).map CacheEntry.id).length := by
    rw [size, List.countP_eq_length_filter, List.length_map]
  rw [counted]
  refine List.Perm.length_eq ((List.perm_ext_iff_of_nodup ?_ nodup).mpr fun id => ?_)
  · exact distinct.sublist (List.filter_sublist.map _)
  · rw [h, List.mem_map]
    constructor
    · rintro ⟨entry, member, rfl⟩
      obtain ⟨inside, full⟩ := List.mem_filter.mp member
      rw [find?_of_mem distinct inside]
      exact full
    · intro full
      obtain ⟨stored, found⟩ := Option.isSome_iff_exists.mp full
      obtain ⟨entry, inside, same⟩ := List.mem_map.mp (mem_numbers_of_find? found)
      refine ⟨entry, List.mem_filter.mpr ⟨inside, ?_⟩, same⟩
      rw [← find?_of_mem distinct inside, same]
      exact full

end Cache

end HtmlTemplate

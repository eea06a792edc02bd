import HtmlTemplate.Skeleton
import Mathlib.Data.List.Nodup
import Mathlib.Data.List.Perm.Basic

/-!
# Handles and the skeletons that live

Somebody holds handles on skeletons, and `Skeletons` counts them. `Skeletons.Tracks` says that the
count is right: each living skeleton has as many handles as are held on it and at least one, no two
living skeletons have one number, and all numbers have been given out. It is kept by all that can
happen to a handle, and a skeleton can be found by its number exactly while a handle on it is held
(`Tracks.find?_eq_some`).
-/

namespace HtmlTemplate

namespace Skeletons

variable {known : Skeletons} {held rest : List Skeleton} {skeleton other : Skeleton} {id : Nat}

/-- The living skeletons are those on which handles are held, with the right counts. -/
structure Tracks (known : Skeletons) (held : List Skeleton) : Prop where
  numbers : (known.living.map fun entry => entry.1.id).Nodup
  counted : ∀ entry ∈ known.living, entry.2 = held.count entry.1 ∧ 0 < entry.2
  living : ∀ skeleton ∈ held, ∃ handles, (skeleton, handles) ∈ known.living
  /-- Numbers are given from one on. -/
  given : ∀ entry ∈ known.living, 0 < entry.1.id ∧ entry.1.id < known.next
  next : 0 < known.next

/-- Living skeletons with one number are one skeleton. -/
theorem Tracks.entry_inj (h : known.Tracks held) {entry entry' : Skeleton × Nat}
    (member : entry ∈ known.living) (member' : entry' ∈ known.living)
    (same : entry.1.id = entry'.1.id) : entry = entry' :=
  List.inj_on_of_nodup_map h.numbers member member' same

/-- A skeleton has a handle that is held while it lives. -/
theorem Tracks.mem_held (h : known.Tracks held) {entry : Skeleton × Nat}
    (member : entry ∈ known.living) : entry.1 ∈ held := by
  obtain ⟨count, positive⟩ := h.counted entry member
  exact List.count_pos_iff.mp (count ▸ positive)

theorem Tracks.given_held (h : known.Tracks held) (member : skeleton ∈ held) :
    0 < skeleton.id ∧ skeleton.id < known.next := by
  obtain ⟨handles, living⟩ := h.living skeleton member
  exact h.given _ living

/-- A skeleton is found by its number exactly while a handle on it is held. -/
theorem Tracks.find?_eq_some (h : known.Tracks held) :
    known.find? id = some skeleton ↔ skeleton ∈ held ∧ skeleton.id = id := by
  unfold find?
  rw [Option.map_eq_some_iff]
  constructor
  · rintro ⟨entry, found, rfl⟩
    exact ⟨h.mem_held (List.mem_of_find?_eq_some found), by simpa using List.find?_some found⟩
  · rintro ⟨member, rfl⟩
    obtain ⟨handles, living⟩ := h.living skeleton member
    cases found : known.living.find? fun entry => entry.1.id == skeleton.id with
    | none => exact absurd (List.find?_eq_none.mp found _ living) (by simp)
    | some entry =>
      have same : entry.1.id = skeleton.id := by simpa using List.find?_some found
      have equal := h.entry_inj (List.mem_of_find?_eq_some found) living same
      exact ⟨entry, rfl, congrArg Prod.fst equal⟩

/-- A skeleton lives exactly while a handle on it is held. -/
theorem Tracks.isAlive_iff (h : known.Tracks held) :
    known.isAlive id = true ↔ id ∈ held.map Skeleton.id := by
  unfold isAlive
  rw [Option.isSome_iff_exists, List.mem_map]
  exact exists_congr fun _ => h.find?_eq_some

/-- A weak handle gives a handle on its skeleton exactly while another one is held. -/
theorem Tracks.upgrade?_eq_some (h : known.Tracks held) {known' : Skeletons} :
    known.upgrade? id = some (skeleton, known') ↔
      (skeleton ∈ held ∧ skeleton.id = id) ∧ known' = known.retain id := by
  unfold upgrade?
  rw [Option.map_eq_some_iff]
  constructor
  · rintro ⟨found, search, same⟩
    cases same
    exact ⟨h.find?_eq_some.mp search, rfl⟩
  · rintro ⟨search, rfl⟩
    exact ⟨skeleton, h.find?_eq_some.mpr search, rfl⟩

/-! ## What can happen to handles -/

theorem tracks_empty : Skeletons.empty.Tracks [] :=
  ⟨List.nodup_nil, fun _ member => absurd member List.not_mem_nil,
    fun _ member => absurd member List.not_mem_nil, fun _ member => absurd member List.not_mem_nil,
    Nat.one_pos⟩

/-- The order in which handles are held does not matter. -/
theorem Tracks.perm (h : known.Tracks held) (same : held.Perm rest) : known.Tracks rest := by
  refine ⟨h.numbers, fun entry member => ?_, fun skeleton member => ?_, h.given, h.next⟩
  · rw [← same.count_eq]
    exact h.counted entry member
  · exact h.living skeleton (same.mem_iff.mpr member)

/-- A new skeleton has one handle. -/
theorem Tracks.create (h : known.Tracks held) (segments : List Text) :
    (known.create segments).2.Tracks ((known.create segments).1 :: held) := by
  have new : ∀ entry ∈ known.living, entry.1 ≠ (known.create segments).1 := by
    intro entry member same
    have bound := (h.given entry member).2
    rw [same] at bound
    exact absurd bound (Nat.lt_irrefl known.next)
  have unheld : (known.create segments).1 ∉ held := by
    intro member
    obtain ⟨handles, living⟩ := h.living _ member
    exact new _ living rfl
  refine ⟨?_, ?_, ?_, ?_, Nat.succ_pos known.next⟩
  · show ((known.living ++ [_]).map _).Nodup
    rw [List.map_append, List.nodup_append]
    refine ⟨h.numbers, List.nodup_singleton _, ?_⟩
    rintro _ old _ added rfl
    obtain ⟨entry, member, same⟩ := List.mem_map.mp old
    have bound := (h.given entry member).2
    rw [List.map_singleton, List.mem_singleton] at added
    rw [same, added] at bound
    exact absurd bound (Nat.lt_irrefl known.next)
  · intro entry member
    rcases List.mem_append.mp member with old | added
    · rw [List.count_cons_of_ne (Ne.symm (new entry old))]
      exact h.counted entry old
    · have once : ((known.create segments).1 :: held).count (known.create segments).1 = 1 := by
        rw [List.count_cons_self, List.count_eq_zero_of_not_mem unheld]
      rw [List.mem_singleton.mp added]
      exact ⟨once.symm, Nat.one_pos⟩
  · intro skeleton member
    rcases List.mem_cons.mp member with rfl | old
    · exact ⟨1, List.mem_append_right _ (List.mem_singleton_self _)⟩
    · obtain ⟨handles, living⟩ := h.living skeleton old
      exact ⟨handles, List.mem_append_left _ living⟩
  · intro entry member
    rcases List.mem_append.mp member with old | added
    · exact ⟨(h.given entry old).1, Nat.lt_succ_of_lt (h.given entry old).2⟩
    · rw [List.mem_singleton.mp added]
      exact ⟨h.next, Nat.lt_succ_self known.next⟩

/-- One more handle on a skeleton that lives. -/
theorem Tracks.retain (h : known.Tracks held) (member : skeleton ∈ held) :
    (known.retain skeleton.id).Tracks (skeleton :: held) := by
  obtain ⟨handles, living⟩ := h.living skeleton member
  -- The entries of other skeletons stay, and that of the skeleton counts one handle more.
  have counts : ∀ entry ∈ known.living, (skeleton :: held).count entry.1 =
      if entry.1.id = skeleton.id then entry.2 + 1 else entry.2 := by
    intro entry inside
    rw [(h.counted entry inside).1]
    split
    · rename_i same
      have equal := congrArg Prod.fst (h.entry_inj inside living same)
      simp only at equal
      rw [equal, List.count_cons_self]
    · rename_i different
      refine List.count_cons_of_ne fun same => different ?_
      rw [← same]
  refine ⟨?_, ?_, ?_, ?_, h.next⟩
  · show ((known.living.map _).map _).Nodup
    rw [List.map_map]
    exact h.numbers
  · intro entry inside
    obtain ⟨old, oldInside, rfl⟩ := List.mem_map.mp inside
    refine ⟨(counts old oldInside).symm, ?_⟩
    have positive := (h.counted old oldInside).2
    dsimp only
    split <;> omega
  · intro other inside
    have before : other ∈ held := by
      rcases List.mem_cons.mp inside with rfl | old
      · exact member
      · exact old
    obtain ⟨handles, living⟩ := h.living other before
    exact ⟨_, List.mem_map.mpr ⟨_, living, rfl⟩⟩
  · intro entry inside
    obtain ⟨old, oldInside, rfl⟩ := List.mem_map.mp inside
    exact h.given old oldInside

/-- One handle less; the last one takes its skeleton with it. -/
theorem Tracks.release (h : known.Tracks (skeleton :: rest)) :
    (known.release skeleton.id).Tracks rest := by
  obtain ⟨handles, living⟩ := h.living skeleton List.mem_cons_self
  have counts : ∀ entry ∈ known.living, entry.2 =
      if entry.1.id = skeleton.id then rest.count entry.1 + 1 else rest.count entry.1 := by
    intro entry inside
    rw [(h.counted entry inside).1]
    split
    · rename_i same
      have equal := congrArg Prod.fst (h.entry_inj inside living same)
      simp only at equal
      rw [equal, List.count_cons_self]
    · rename_i different
      refine List.count_cons_of_ne fun same => different ?_
      rw [← same]
  -- What stays is an entry of before, with the count of the handles that are still held.
  have stays : ∀ entry, entry ∈ (known.release skeleton.id).living →
      ∃ old ∈ known.living, entry.1 = old.1 ∧ entry.2 = rest.count old.1 ∧ 0 < entry.2 := by
    intro entry inside
    obtain ⟨old, oldInside, kept⟩ := List.mem_filterMap.mp inside
    have count := counts old oldInside
    have positive := (h.counted old oldInside).2
    refine ⟨old, oldInside, ?_⟩
    dsimp only at kept
    split at kept
    · rename_i same
      rw [if_pos same] at count
      split at kept
      · cases kept
      · cases kept
        exact ⟨rfl, by simp only; omega, by simp only; omega⟩
    · rename_i different
      rw [if_neg different] at count
      cases kept
      exact ⟨rfl, count, positive⟩
  refine ⟨?_, ?_, ?_, ?_, h.next⟩
  · refine h.numbers.sublist ?_
    show ((known.living.filterMap _).map _).Sublist _
    generalize known.living = entries
    induction entries with
    | nil => exact List.Sublist.refl _
    | cons entry entries ih =>
      rw [List.filterMap_cons]
      split
      · exact ih.cons _
      · rename_i kept found
        have same : kept.1.id = entry.1.id := by
          dsimp only at found
          split at found
          · split at found
            · cases found
            · cases found
              rfl
          · cases found
            rfl
        rw [List.map_cons, List.map_cons, same]
        exact ih.cons_cons _
  · intro entry inside
    obtain ⟨old, _, same, count, positive⟩ := stays entry inside
    exact ⟨by rw [same]; exact count, positive⟩
  · intro other inside
    obtain ⟨number, before⟩ := h.living other (List.mem_cons_of_mem _ inside)
    have count := counts _ before
    have positive : 0 < rest.count other := List.count_pos_iff.mpr inside
    simp only at count
    by_cases same : other.id = skeleton.id
    · rw [if_pos same] at count
      refine ⟨number - 1, List.mem_filterMap.mpr ⟨_, before, ?_⟩⟩
      dsimp only
      rw [if_pos same, if_neg (by omega)]
    · refine ⟨number, List.mem_filterMap.mpr ⟨_, before, ?_⟩⟩
      dsimp only
      rw [if_neg same]
  · intro entry inside
    obtain ⟨old, oldInside, same, _, _⟩ := stays entry inside
    rw [same]
    exact h.given old oldInside

end Skeletons

end HtmlTemplate

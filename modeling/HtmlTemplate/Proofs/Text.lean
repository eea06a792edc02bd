import HtmlTemplate.Text.Basic
import Mathlib.Algebra.Group.Nat.Defs

/-!
# Cutting texts and reading numbers

What the operations on texts find is where they say it is, the capital letters can be gone through
one by one, and decimal numbers are read as the numbers that were written.
-/

namespace HtmlTemplate

namespace Text

variable {phrase s before after : Text}

/-! ## Cutting -/

theorem strip?_eq_some : strip? phrase s = some after ↔ s = phrase ++ after := by
  induction phrase generalizing s with
  | nil => exact ⟨fun h => Option.some.inj h, fun h => congrArg some h⟩
  | cons p phrase ih =>
    cases s with
    | nil => exact ⟨fun h => (by cases h), fun h => (by cases h)⟩
    | cons c s =>
      rw [strip?]
      by_cases same : p = c
      · subst same
        rw [if_pos rfl, ih, List.cons_append, List.cons.injEq]
        exact ⟨fun h => ⟨rfl, h⟩, fun h => h.2⟩
      · rw [if_neg same]
        exact ⟨fun h => (by cases h), fun h => absurd (List.cons.inj h).1.symm same⟩

theorem startsWith_eq_true : startsWith phrase s = true ↔ ∃ after, s = phrase ++ after := by
  rw [startsWith, Option.isSome_iff_exists]
  exact exists_congr fun _ => strip?_eq_some

theorem startsWith_iff : startsWith phrase s = true ↔ phrase <+: s :=
  startsWith_eq_true.trans (exists_congr fun _ => eq_comm)

theorem endsWith_iff : endsWith phrase s = true ↔ phrase <:+ s := by
  rw [endsWith, startsWith_iff, List.reverse_prefix]

theorem stripEnd?_eq_some (h : stripEnd? phrase s = some before) : s = before ++ phrase := by
  obtain ⟨rest, found, rfl⟩ := Option.map_eq_some_iff.mp h
  rw [← s.reverse_reverse, strip?_eq_some.mp found, List.reverse_append, List.reverse_reverse]

theorem cut?_eq_some (h : cut? phrase s = some (before, after)) :
    s = before ++ (phrase ++ after) := by
  induction s generalizing before with
  | nil =>
    obtain ⟨rest, found, same⟩ := Option.map_eq_some_iff.mp h
    cases same
    have whole := strip?_eq_some.mp found
    exact whole
  | cons c s ih =>
    rw [cut?] at h
    split at h
    · rename_i found
      cases h
      have whole := strip?_eq_some.mp found
      exact whole
    · obtain ⟨⟨first, rest⟩, found, same⟩ := Option.map_eq_some_iff.mp h
      cases same
      exact congrArg (c :: ·) (ih found)

theorem cut?_eq_none (h : cut? phrase s = none) : ¬ phrase <:+: s := by
  induction s with
  | nil =>
    intro inside
    obtain rfl := List.infix_nil.mp inside
    cases h
  | cons c s ih =>
    rw [cut?] at h
    split at h
    · cases h
    · rename_i here
      intro inside
      rcases List.infix_cons_iff.mp inside with ⟨after, same⟩ | later
      · rw [strip?_eq_some.mpr same.symm] at here
        cases here
      · exact ih (Option.map_eq_none_iff.mp h) later

theorem contains_iff : contains phrase s = true ↔ phrase <:+: s := by
  rw [contains]
  constructor
  · intro h
    obtain ⟨⟨before, after⟩, found⟩ := Option.isSome_iff_exists.mp h
    exact ⟨before, after, by rw [cut?_eq_some found, List.append_assoc]⟩
  · intro inside
    cases found : cut? phrase s with
    | none => exact absurd inside (cut?_eq_none found)
    | some parts => rfl

/-- A phrase that does not begin earlier is found where it stands. -/
theorem cut?_append
    (later : ∀ part, part ≠ [] → part <:+ before → ¬ phrase <+: part ++ (phrase ++ after)) :
    cut? phrase (before ++ (phrase ++ after)) = some (before, after) := by
  induction before with
  | nil =>
    have here : strip? phrase (phrase ++ after) = some after := strip?_eq_some.mpr rfl
    rw [List.nil_append]
    cases whole : phrase ++ after with
    | nil =>
      rw [whole] at here
      rw [cut?, here]
      rfl
    | cons c s =>
      rw [whole] at here
      rw [cut?, here]
  | cons c before ih =>
    have none : strip? phrase (c :: (before ++ (phrase ++ after))) = none := by
      cases found : strip? phrase (c :: (before ++ (phrase ++ after))) with
      | none => rfl
      | some rest =>
        exact absurd ⟨rest, (strip?_eq_some.mp found).symm⟩
          (later (c :: before) (List.cons_ne_nil c before) (List.suffix_refl _))
    rw [List.cons_append, cut?, none, ih fun part some suffix =>
      later part some (suffix.trans (List.suffix_cons c before))]
    rfl

/-- A text is cut at the first occurrence of a character. -/
theorem cut?_singleton {c : Char} :
    cut? [c] s = some (before, after) ↔ s = before ++ c :: after ∧ c ∉ before := by
  have first : ∀ {front rest}, c ∉ front → cut? [c] (front ++ c :: rest) = some (front, rest) := by
    intro front rest absent
    apply cut?_append
    rintro part some suffix ⟨more, same⟩
    obtain ⟨d, part, rfl⟩ := List.exists_cons_of_ne_nil some
    rw [(List.cons.inj same).1] at absent
    exact absent (suffix.subset List.mem_cons_self)
  constructor
  · intro h
    refine ⟨cut?_eq_some h, fun inside => ?_⟩
    obtain ⟨front, rest, split, absent⟩ := List.eq_append_cons_of_mem inside
    have whole : s = front ++ c :: (rest ++ c :: after) := by
      rw [cut?_eq_some h, split]
      simp
    rw [whole, first absent] at h
    rw [← (Prod.mk.inj (Option.some.inj h)).1] at inside
    exact absent inside
  · rintro ⟨rfl, absent⟩
    exact first absent

/-- A text up to the first character that a test does not hold of. -/
theorem exists_front (p : Char → Bool) (s : Text) : ∃ front rest, s = front ++ rest ∧
    (∀ c ∈ front, p c = true) ∧ ∀ c ∈ rest.head?, p c = false := by
  refine ⟨s.takeWhile p, s.dropWhile p, List.takeWhile_append_dropWhile.symm,
    List.all_eq_true.mp List.all_takeWhile, ?_⟩
  intro c found
  have stops := List.head?_dropWhile_not p s
  rw [Option.mem_def.mp found] at stops
  simpa using stops

/-! ## Capitals -/

theorem mem_capitals {c : Char} (h : isCapital c = true) :
    c ∈ "ABCDEFGHIJKLMNOPQRSTUVWXYZ".toList := by
  have all : ∀ n < 26, Char.ofNat (65 + n) ∈ "ABCDEFGHIJKLMNOPQRSTUVWXYZ".toList := by decide
  rw [isCapital, Bool.and_eq_true, decide_eq_true_iff, decide_eq_true_iff] at h
  have low : 65 ≤ c.toNat := h.1
  have high : c.toNat ≤ 90 := h.2
  have here := all (c.toNat - 65) (by omega)
  rwa [Nat.add_sub_cancel' low, Char.ofNat_toNat] at here

/-- What all capital letters pass, a capital letter passes. -/
theorem of_isCapital {c : Char} (h : isCapital c = true) {p : Char → Bool}
    (passed : "ABCDEFGHIJKLMNOPQRSTUVWXYZ".toList.all p = true) : p c = true :=
  List.all_eq_true.mp passed c (mem_capitals h)

/-! ## Numbers -/

theorem decimalValue_append (s t : Text) :
    decimalValue (s ++ t) = 10 ^ t.length * decimalValue s + decimalValue t := by
  have read : ∀ s, decimalValue s = Nat.ofDigitChars 10 s 0 := fun s =>
    Nat.ofDigitChars_eq_foldl.symm
  rw [read, read, read, Nat.ofDigitChars_append, Nat.ofDigitChars_eq_ofDigitChars_zero]

theorem decimalValue_ofNat (n : Nat) : decimalValue (ofNat n) = n := Nat.ofDigitChars_ten_toDigits

theorem ofNat_ne_nil (n : Nat) : ofNat n ≠ [] := Nat.toDigits_ne_nil

theorem isDigit_of_mem_ofNat {n : Nat} {c : Char} (h : c ∈ ofNat n) : isDigit c = true := by
  have digit := Nat.isDigit_of_mem_toDigits (by decide) (by decide) h
  rw [Char.isDigit, Bool.and_eq_true, decide_eq_true_iff, decide_eq_true_iff] at digit
  rw [isDigit, Bool.and_eq_true, decide_eq_true_iff, decide_eq_true_iff]
  exact digit

/-- Digits that do not make a number larger are zeros. -/
theorem eq_replicate_of_decimalValue {digits : Text} (all : ∀ c ∈ digits, isDigit c = true)
    (zero : decimalValue digits = 0) : digits = List.replicate digits.length '0' := by
  induction digits with
  | nil => rfl
  | cons c digits ih =>
    have split : decimalValue ([c] ++ digits) = _ := decimalValue_append [c] digits
    rw [List.singleton_append, zero] at split
    have first : decimalValue [c] = c.toNat - 48 := by
      show 10 * 0 + (c.toNat - 48) = _
      omega
    have none : decimalValue [c] = 0 := by
      rcases Nat.eq_zero_or_pos (decimalValue [c]) with none | some
      · exact none
      · have positive : 0 < decimalValue [c] * 10 ^ digits.length :=
          Nat.mul_pos some (Nat.pow_pos (by decide))
        rw [Nat.mul_comm] at positive
        omega
    have digit := all c List.mem_cons_self
    rw [isDigit, Bool.and_eq_true, decide_eq_true_iff, decide_eq_true_iff] at digit
    have low : 48 ≤ c.toNat := digit.1
    have same : c = '0' := Char.toNat_inj.mp (by show c.toNat = 48; omega)
    rw [List.length_cons, List.replicate_succ, same, ← ih
      (fun d member => all d (List.mem_cons_of_mem c member)) (by omega)]

theorem word?_eq_some {digits : Text} {n : Nat} (h : word? digits = some n) :
    digits ≠ [] ∧ (∀ c ∈ digits, isDigit c = true) ∧ decimalValue digits = n := by
  rw [word?] at h
  split at h
  · rename_i fine
    exact ⟨fine.1, List.all_eq_true.mp fine.2.1, Option.some.inj h⟩
  · cases h

/-- Words are read as they are written. -/
theorem word?_ofNat {n : Nat} (word : n < wordBound) : word? (ofNat n) = some n := by
  have digits : (ofNat n).all isDigit = true := List.all_eq_true.mpr fun _ => isDigit_of_mem_ofNat
  rw [word?, decimalValue_ofNat, if_pos ⟨ofNat_ne_nil n, digits, word⟩]

/-- More digits make a number no smaller, and leave it only if it is zero and they are zeros. -/
theorem decimalValue_ofNat_append (n : Nat) {digits : Text}
    (all : ∀ c ∈ digits, isDigit c = true) :
    n ≤ decimalValue (ofNat n ++ digits) ∧
      (decimalValue (ofNat n ++ digits) = n → digits = [] ∨
        n = 0 ∧ digits = List.replicate digits.length '0') := by
  rw [decimalValue_append, decimalValue_ofNat]
  constructor
  · have grows : 1 * n ≤ 10 ^ digits.length * n :=
      Nat.mul_le_mul_right n (Nat.pow_pos (by decide))
    omega
  · intro same
    cases digits with
    | nil => exact .inl rfl
    | cons c digits =>
      refine .inr ?_
      have grows : 10 * n ≤ 10 ^ (c :: digits).length * n := by
        refine Nat.mul_le_mul_right n ?_
        rw [List.length_cons, Nat.pow_succ]
        have positive : 0 < 10 ^ digits.length := Nat.pow_pos (by decide)
        omega
      exact ⟨by omega, eq_replicate_of_decimalValue all (by omega)⟩

end Text

end HtmlTemplate

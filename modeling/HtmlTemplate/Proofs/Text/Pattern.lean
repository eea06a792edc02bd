import HtmlTemplate.Proofs.Text

/-!
# Patterns

A pattern matches stretches of a text, and may ask that nothing stands before them or after them. It
is searched for from the left, and of the stretches that begin in the same place the longest is
found (`Pattern.Finds`). Replacing goes on behind what was found until there is nothing left to find
(`Pattern.Replaced`), so that what comes out is determined (`Pattern.Replaced.unique`).
-/

namespace HtmlTemplate

/-- What stretches of a text may look like. -/
inductive Pattern where
  | nothing
  /-- One character that passes a test. -/
  | one (test : Char → Bool)
  /-- One or more characters that pass a test. -/
  | many (test : Char → Bool)
  /-- The beginning of the text. -/
  | start
  /-- The end of the text. -/
  | stop
  | next (first second : Pattern)
  | either (left right : Pattern)

namespace Pattern

variable {pattern : Pattern} {write : Text → Text} {seen before found after s : Text}

/-- The pattern matches the stretch `found` of a text, with `before` in front of it and `after`
behind. -/
def Matches : Pattern → Text → Text → Text → Prop
  | nothing, _, found, _ => found = []
  | one test, _, found, _ => ∃ c, found = [c] ∧ test c = true
  | many test, _, found, _ => found ≠ [] ∧ ∀ c ∈ found, test c = true
  | start, before, found, _ => before = [] ∧ found = []
  | stop, _, found, after => found = [] ∧ after = []
  | next first second, before, found, after =>
    ∃ front back, found = front ++ back ∧ first.Matches before front (back ++ after) ∧
      second.Matches (before ++ front) back after
  | either left right, before, found, after =>
    left.Matches before found after ∨ right.Matches before found after

/-- The pattern matches some stretch of the text. -/
def Occurs (pattern : Pattern) (s : Text) : Prop :=
  ∃ before found after, s = before ++ (found ++ after) ∧ pattern.Matches before found after

/-! ## Searching for alternatives -/

/-- Any of several patterns. -/
def anyOf : List Pattern → Pattern
  | [] => one fun _ => false
  | pattern :: others => either pattern (anyOf others)

theorem occurs_either {left right : Pattern} :
    (either left right).Occurs s ↔ left.Occurs s ∨ right.Occurs s := by
  constructor
  · rintro ⟨before, found, after, whole, fits | fits⟩
    · exact .inl ⟨before, found, after, whole, fits⟩
    · exact .inr ⟨before, found, after, whole, fits⟩
  · rintro (⟨before, found, after, whole, fits⟩ | ⟨before, found, after, whole, fits⟩)
    · exact ⟨before, found, after, whole, .inl fits⟩
    · exact ⟨before, found, after, whole, .inr fits⟩

theorem occurs_anyOf {patterns : List Pattern} :
    (anyOf patterns).Occurs s ↔ ∃ pattern ∈ patterns, pattern.Occurs s := by
  induction patterns with
  | nil =>
    constructor
    · rintro ⟨before, found, after, _, c, _, never⟩
      cases never
    · rintro ⟨pattern, none, _⟩
      cases none
  | cons pattern others ih =>
    simp only [anyOf, occurs_either, ih, List.mem_cons, exists_eq_or_imp]

theorem occurs_next_either {first left right : Pattern} :
    (next first (either left right)).Occurs s ↔
      (next first left).Occurs s ∨ (next first right).Occurs s := by
  rw [← occurs_either]
  refine exists_congr fun before => exists_congr fun found => exists_congr fun after =>
    and_congr_right fun _ => ?_
  simp only [Matches, and_or_left, exists_or]

theorem occurs_next_anyOf {first : Pattern} {patterns : List Pattern} :
    (next first (anyOf patterns)).Occurs s ↔
      ∃ pattern ∈ patterns, (next first pattern).Occurs s := by
  induction patterns with
  | nil =>
    constructor
    · rintro ⟨before, found, after, _, front, back, _, _, c, _, never⟩
      cases never
    · rintro ⟨pattern, none, _⟩
      cases none
  | cons pattern others ih =>
    simp only [anyOf, occurs_next_either, ih, List.mem_cons, exists_eq_or_imp]

/-! ## Replacing -/

/-- What a search finds behind a text that was searched already: the first stretch that the pattern
matches, and of those that begin in this place the longest. -/
structure Finds (pattern : Pattern) (seen before found after : Text) : Prop where
  fits : pattern.Matches (seen ++ before) found after
  leftmost : ∀ front part rest, before ++ (found ++ after) = front ++ (part ++ rest) →
    pattern.Matches (seen ++ front) part rest → before.length ≤ front.length
  longest : ∀ part rest, found ++ after = part ++ rest →
    pattern.Matches (seen ++ before) part rest → part.length ≤ found.length

/-- What becomes of a text behind another one if all that is found in it, one behind the other, is
written anew. -/
inductive Replaced (pattern : Pattern) (write : Text → Text) : Text → Text → Text → Prop
  | none {seen s : Text} :
      (∀ before found after, s = before ++ (found ++ after) →
        ¬ pattern.Matches (seen ++ before) found after) →
      Replaced pattern write seen s s
  | some {seen before found after result : Text} : pattern.Finds seen before found after →
      Replaced pattern write (seen ++ (before ++ found)) after result →
      Replaced pattern write seen (before ++ (found ++ after)) (before ++ (write found ++ result))

/-- A search finds one stretch. -/
theorem Finds.unique {front part rest : Text} (h : pattern.Finds seen before found after)
    (k : pattern.Finds seen front part rest)
    (same : before ++ (found ++ after) = front ++ (part ++ rest)) :
    before = front ∧ found = part ∧ after = rest := by
  have starts : before.length = front.length :=
    Nat.le_antisymm (h.leftmost front part rest same k.fits)
      (k.leftmost before found after same.symm h.fits)
  obtain ⟨rfl, here⟩ := List.append_inj same starts
  have ends : found.length = part.length :=
    Nat.le_antisymm (k.longest found after here.symm h.fits) (h.longest part rest here k.fits)
  obtain ⟨rfl, rfl⟩ := List.append_inj here ends
  exact ⟨rfl, rfl, rfl⟩

/-- Replacing has one result. -/
theorem Replaced.unique {result other : Text} (h : pattern.Replaced write seen s result)
    (k : pattern.Replaced write seen s other) : result = other := by
  induction h generalizing other with
  | none free =>
    cases k with
    | none => rfl
    | some finds _ => exact absurd finds.fits (free _ _ _ rfl)
  | @some seen before found after result finds _ ih =>
    generalize whole : before ++ (found ++ after) = text at k
    cases k with
    | none free => exact absurd finds.fits (free before found after whole.symm)
    | some others later =>
      obtain ⟨rfl, rfl, rfl⟩ := finds.unique others whole
      rw [ih later]

end Pattern

end HtmlTemplate

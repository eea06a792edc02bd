import HtmlTemplate.Proofs.Markup.Spelling
import Mathlib.Data.List.Induction

/-!
# How markup is taken for text

A stretch of markup is taken for text in four ways: as it is (comments and scripts), in small
letters (names of document types), and with its character references decoded, as in content or as in
an attribute value. `Reading.textOf` is the text of a stretch by itself.

A reading goes character by character, like the tokenizer does; what it holds back is the reference
that is being read.
-/

namespace HtmlTemplate

/-- A way to take markup for text. -/
inductive Reading where
  | verbatim
  | lowered
  | decoded (inAttribute : Bool)
  deriving Repr, DecidableEq

namespace Reading

/-- Whether references are read as in attribute values. -/
def inAttribute : Reading → Bool
  | decoded inAttribute => inAttribute
  | _ => false

/-- A character outside references. -/
def first : Reading → Char → Text × Option Reference
  | verbatim, c => ([State.kept c], none)
  | lowered, c => ([State.keptInName c], none)
  | decoded _, c => if c = '&' then ([], some .start) else ([State.kept c], none)

/-- The text that one more character gives, and the reference that is being read then. -/
def take (r : Reading) (pending : Option Reference) (c : Char) : Text × Option Reference :=
  match pending with
  | none => r.first c
  | some ref =>
    match ref.step r.inAttribute c with
    | .more ref => ([], some ref)
    | .done text => (text, none)
    | .before text => (text ++ (r.first c).1, (r.first c).2)

/-- The text that more markup gives, and the reference that is being read then. -/
def read (r : Reading) (pending : Option Reference) : Text → Text × Option Reference
  | [] => ([], pending)
  | c :: markup =>
    ((r.take pending c).1 ++ (r.read (r.take pending c).2 markup).1,
      (r.read (r.take pending c).2 markup).2)

/-- The text of a reference that ends with the markup. -/
def flush (r : Reading) : Option Reference → Text
  | some ref => ref.finish r.inAttribute
  | none => []

/-- The text that markup is taken for. -/
def textOf (r : Reading) (markup : Text) : Text :=
  (r.read none markup).1 ++ r.flush (r.read none markup).2

variable {r : Reading}

section References

variable {ref ref' : Reference} {c : Char} {text : Text}

theorem take_more (h : ref.step r.inAttribute c = .more ref') :
    r.take (some ref) c = ([], some ref') := by
  simp only [take, h]

theorem take_done (h : ref.step r.inAttribute c = .done text) :
    r.take (some ref) c = (text, none) := by
  simp only [take, h]

theorem take_before (h : ref.step r.inAttribute c = .before text) :
    r.take (some ref) c = (text ++ (r.take none c).1, (r.take none c).2) := by
  simp only [take, h]

end References

theorem read_append (pending : Option Reference) (markup more : Text) :
    r.read pending (markup ++ more) = ((r.read pending markup).1 ++
      (r.read (r.read pending markup).2 more).1, (r.read (r.read pending markup).2 more).2) := by
  induction markup generalizing pending with
  | nil => rfl
  | cons c markup ih => simp only [List.cons_append, read, ih, List.append_assoc]

theorem read_singleton (pending : Option Reference) (markup : Text) (c : Char) :
    r.read pending (markup ++ [c]) =
      ((r.read pending markup).1 ++ (r.take (r.read pending markup).2 c).1,
        (r.take (r.read pending markup).2 c).2) := by
  rw [read_append]
  simp only [read, List.append_nil]

/-- Between references, what is read of a part of the markup is read there of the whole. -/
theorem read_infix {before markup : Text} (apart : (r.read none before).2 = none) (after : Text) :
    (r.read none markup).1 <:+: r.textOf (before ++ (markup ++ after)) := by
  simp only [textOf, read_append, apart]
  refine ⟨(r.read none before).1, (r.read (r.read none markup).2 after).1 ++
    r.flush (r.read (r.read none markup).2 after).2, ?_⟩
  simp only [List.append_assoc]

theorem textOf_suffix {before : Text} (apart : (r.read none before).2 = none) (markup : Text) :
    r.textOf markup <:+ r.textOf (before ++ markup) := by
  rw [textOf, textOf, read_append, apart]
  exact ⟨(r.read none before).1, (List.append_assoc _ _ _).symm⟩

/-! ## Where references end -/

theorem isAlphanumeric_of_hexDigit? {c : Char} (h : (Reference.hexDigit? c).isSome = true) :
    Text.isAlphanumeric c = true := by
  have small : ∀ {a b : Char}, 'a' ≤ a ∧ a ≤ b → b ≤ 'z' → Text.isSmall a = true := by
    intro a b range bound
    rw [Text.isSmall, Bool.and_eq_true, decide_eq_true_iff, decide_eq_true_iff]
    exact ⟨range.1, Nat.le_trans range.2 bound⟩
  have capital : ∀ {a b : Char}, 'A' ≤ a ∧ a ≤ b → b ≤ 'Z' → Text.isCapital a = true := by
    intro a b range bound
    rw [Text.isCapital, Bool.and_eq_true, decide_eq_true_iff, decide_eq_true_iff]
    exact ⟨range.1, Nat.le_trans range.2 bound⟩
  unfold Reference.hexDigit? at h
  unfold Text.isAlphanumeric Text.isLetter
  split at h
  · rename_i digit
    rw [digit, Bool.or_true]
  · split at h
    · rename_i range
      rw [small range (by decide)]
      simp
    · split at h
      · rename_i range
        rw [capital range (by decide)]
        simp
      · cases h

/-- A character that goes on with no reference. -/
structure Breaks (c : Char) : Prop where
  notAlphanumeric : Text.isAlphanumeric c = false
  notHash : c ≠ '#'
  notAmpersand : c ≠ '&'

theorem Breaks.step {c : Char} (h : Breaks c) (ref ref' : Reference) (inAttribute : Bool) :
    ref.step inAttribute c ≠ .more ref' := by
  have notDigit : Text.isDigit c = false := by
    have none := h.notAlphanumeric
    rw [Text.isAlphanumeric, Bool.or_eq_false_iff] at none
    exact none.2
  have notHex : Reference.hexDigit? c = none := by
    cases found : Reference.hexDigit? c with
    | none => rfl
    | some d =>
      have alphanumeric := isAlphanumeric_of_hexDigit? (c := c) (by rw [found]; rfl)
      rw [h.notAlphanumeric] at alphanumeric
      cases alphanumeric
  have notMark : ¬ (c = 'x' ∨ c = 'X') := by
    rintro (rfl | rfl) <;> exact absurd h.notAlphanumeric (by decide)
  intro same
  cases ref with
  | named run =>
    rw [Reference.step, if_neg fun both => h.notHash both.2, if_neg (by simp [h.notAlphanumeric])]
      at same
    split at same
    · split at same <;> cases same
    · cases same
  | hash =>
    rw [Reference.step, if_neg notMark, if_neg (by simp [notDigit])] at same
    cases same
  | hexMark mark =>
    simp only [Reference.step, notHex] at same
    cases same
  | hex value =>
    simp only [Reference.step, notHex] at same
    split at same <;> cases same
  | decimal value =>
    rw [Reference.step, if_neg (by simp [notDigit])] at same
    split at same <;> cases same

theorem Breaks.first {c : Char} (h : Breaks c) (r : Reading) : (r.first c).2 = none := by
  cases r with
  | decoded inAttribute => simp only [Reading.first, if_neg h.notAmpersand]
  | _ => rfl

/-- After a character that goes on with no reference none is being read. -/
theorem Breaks.take {c : Char} (h : Breaks c) (r : Reading) (pending : Option Reference) :
    (r.take pending c).2 = none := by
  cases pending with
  | none => exact h.first r
  | some ref =>
    rw [Reading.take]
    split
    · rename_i ref' more
      exact absurd more (h.step ref ref' _)
    · rfl
    · exact h.first r

theorem Breaks.of_isBlank {c : Char} (blank : Text.isBlank c = true) : Breaks c := by
  simp only [Text.isBlank, Bool.or_eq_true, beq_iff_eq] at blank
  rcases blank with (((rfl | rfl) | rfl) | rfl) | rfl <;> exact ⟨by decide, by decide, by decide⟩

/-- The marks of a tag go on with no reference. -/
theorem Breaks.of_mark {c : Char}
    (mark : c = '>' ∨ c = '=' ∨ c = '"' ∨ c = '\'' ∨ Text.isBlank c = true) : Breaks c := by
  rcases mark with rfl | rfl | rfl | rfl | blank
  · exact ⟨by decide, by decide, by decide⟩
  · exact ⟨by decide, by decide, by decide⟩
  · exact ⟨by decide, by decide, by decide⟩
  · exact ⟨by decide, by decide, by decide⟩
  · exact .of_isBlank blank

/-- A reference goes on as a named one only with a letter or digit of its name. -/
theorem step_eq_named {ref : Reference} {inAttribute : Bool} {c : Char} {run : Text}
    (more : ref.step inAttribute c = .more (.named run)) :
    ∃ before, ref = .named before ∧ run = before ++ [c] ∧ Text.isAlphanumeric c = true := by
  cases ref with
  | named before =>
    rw [Reference.step] at more
    split at more
    · cases more
    · split at more
      · rename_i letter
        cases more
        exact ⟨before, rfl, rfl, letter⟩
      · split at more
        · split at more <;> cases more
        · cases more
  | hash =>
    rw [Reference.step] at more
    repeat' split at more
    all_goals cases more
  | hexMark mark =>
    simp only [Reference.step] at more
    split at more <;> cases more
  | hex value =>
    simp only [Reference.step] at more
    repeat' split at more
    all_goals cases more
  | decimal value =>
    rw [Reference.step] at more
    repeat' split at more
    all_goals cases more

theorem first_eq_named {c : Char} {run : Text} (begins : (r.first c).2 = some (.named run)) :
    c = '&' ∧ run = [] := by
  cases r with
  | decoded inAttribute =>
    simp only [Reading.first] at begins
    split at begins
    · rename_i ampersand
      cases begins
      exact ⟨ampersand, rfl⟩
    · cases begins
  | _ => cases begins

/-- A name that is being read is as it is written. -/
theorem take_eq_named {pending : Option Reference} {c : Char} {run : Text}
    (h : (r.take pending c).2 = some (.named run)) : (c = '&' ∧ run = []) ∨
      ∃ before, pending = some (.named before) ∧ run = before ++ [c] ∧
        Text.isAlphanumeric c = true := by
  cases pending with
  | none => exact .inl (first_eq_named h)
  | some ref =>
    simp only [take] at h
    split at h
    · rename_i more
      cases h
      obtain ⟨before, rfl, rest⟩ := step_eq_named more
      exact .inr ⟨before, rfl, rest⟩
    · cases h
    · exact .inl (first_eq_named h)

/-! ## Taking markup as it is -/

theorem read_verbatim (markup : Text) :
    verbatim.read none markup = (markup.map State.kept, none) := by
  induction markup with
  | nil => rfl
  | cons c markup ih =>
    rw [read, show verbatim.take none c = ([State.kept c], none) from rfl, ih]
    rfl

theorem textOf_verbatim (markup : Text) : verbatim.textOf markup = markup.map State.kept := by
  rw [textOf, read_verbatim]
  exact List.append_nil _

theorem read_lowered (markup : Text) :
    lowered.read none markup = (markup.map State.keptInName, none) := by
  induction markup with
  | nil => rfl
  | cons c markup ih =>
    rw [read, show lowered.take none c = ([State.keptInName c], none) from rfl, ih]
    rfl

end Reading

end HtmlTemplate

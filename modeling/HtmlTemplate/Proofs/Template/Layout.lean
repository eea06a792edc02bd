import HtmlTemplate.Proofs.Markup.Spelling
import HtmlTemplate.Proofs.Text
import HtmlTemplate.Template.Placement

/-!
# Where markers stand

Whatever the tokenizer makes of joined segments, it finds the token of a slot marker only where a
marker was put, if no segment spells the token itself (`laid_join`). A marker cannot be made from
parts of a segment and of a marker, since a token starts with the only `h` that it has.
-/

namespace HtmlTemplate

namespace Sentinel

variable {s : Sentinel}

/-! ## Letters of markers -/

theorem exists_tail (s : Sentinel) : ∃ tail, s.token = 'h' :: tail ∧ tail.length = 33 ∧
    ∀ c ∈ tail, isTokenLetter c = true ∧ c ≠ 'h' := by
  obtain ⟨start, length, digits⟩ := s.shape
  refine ⟨'w' :: s.token.drop 2, ?_, ?_, fun c member => ?_⟩
  · have whole := List.take_append_drop 2 s.token
    rw [start] at whole
    exact whole.symm
  · rw [List.length_cons, List.length_drop, length]
  · rcases List.mem_cons.mp member with rfl | member
    · decide
    · have digit := List.all_eq_true.mp digits c member
      constructor
      · rw [isTokenLetter]
        simp only [Bool.or_eq_true] at digit ⊢
        exact .inl (.inl digit)
      · rintro rfl
        exact absurd digit (by decide)

theorem length_token (s : Sentinel) : s.token.length = 34 := s.shape.2.1

theorem token_ne_nil (s : Sentinel) : s.token ≠ [] := by
  obtain ⟨tail, token, _⟩ := s.exists_tail
  rw [token]
  exact List.cons_ne_nil _ _

theorem isTokenLetter_of_mem {c : Char} (h : c ∈ s.token) : isTokenLetter c = true := by
  obtain ⟨tail, token, _, letters⟩ := s.exists_tail
  rw [token] at h
  rcases List.mem_cons.mp h with rfl | member
  · decide
  · exact (letters c member).1

/-- Characters that neither end nor begin anything in markup. -/
def Inert (c : Char) : Prop := isTokenLetter c = true ∨ c = ':'

instance : DecidablePred Inert := fun _ => inferInstanceAs (Decidable (_ ∨ _))

theorem Inert.ne_of_mem {c : Char} (h : Inert c) {others : Text}
    (none : others.all (fun d => ¬ Inert d) = true) : ∀ d ∈ others, c ≠ d := by
  rintro d member rfl
  exact List.all_iff_forall_prop.mp none c member h

theorem Inert.ne {c : Char} (h : Inert c) :
    c ≠ '&' ∧ c ≠ '<' ∧ c ≠ State.null ∧ c ≠ '\r' ∧ c ≠ '\n' := by
  have other : ∀ d ∈ ['&', '<', State.null, '\r', '\n'], c ≠ d := h.ne_of_mem (by decide)
  exact ⟨other _ (by simp), other _ (by simp), other _ (by simp), other _ (by simp),
    other _ (by simp)⟩

theorem inert_of_mem_number {n : Nat} {c : Char} (h : c ∈ ':' :: Text.ofNat n) : Inert c := by
  rcases List.mem_cons.mp h with colon | member
  · exact .inr colon
  · refine .inl ?_
    rw [isTokenLetter, Text.isDigit_of_mem_ofNat member]
    rfl

theorem inert_of_mem {slot : Nat} {c : Char} (h : c ∈ s.attributeMarker slot) : Inert c := by
  rcases List.mem_append.mp h with member | member
  · exact .inl (isTokenLetter_of_mem member)
  · exact inert_of_mem_number member

/-- A marker after its first letter. -/
def markerTail (s : Sentinel) (slot : Nat) : Text := (s.attributeMarker slot).tail

theorem attributeMarker_eq (s : Sentinel) (slot : Nat) :
    s.attributeMarker slot = 'h' :: s.markerTail slot := by
  obtain ⟨tail, token, _⟩ := s.exists_tail
  rw [markerTail, attributeMarker, token]
  rfl

theorem ne_of_mem_markerTail {slot : Nat} {c : Char} (h : c ∈ s.markerTail slot) :
    c ≠ 'h' ∧ c ≠ '&' := by
  have inert : Inert c := inert_of_mem (List.mem_of_mem_tail h)
  refine ⟨?_, inert.ne.1⟩
  obtain ⟨tail, token, _, letters⟩ := s.exists_tail
  rw [markerTail, attributeMarker, token] at h
  rcases List.mem_append.mp h with member | member
  · exact (letters c member).2
  · rintro rfl
    rcases List.mem_cons.mp member with colon | member
    · exact absurd colon (by decide)
    · exact absurd (Text.isDigit_of_mem_ofNat member) (by decide)

/-! ## Tokens in segments -/

/-- No piece of a segment can be read as a text with the token in it. -/
def Unspelled (s : Sentinel) (segment : Text) : Prop :=
  ∀ x w y v, segment = x ++ (w ++ y) → Spells true w v → ¬ s.token <:+: v

theorem Unspelled.suffix {x segment : Text} (h : s.Unspelled (x ++ segment)) :
    s.Unspelled segment := by
  intro x' w y v split
  refine h (x ++ x') w y v ?_
  rw [split, List.append_assoc]

/-- The text begins with what can be read as the token of a marker and a colon. -/
def Opens (s : Sentinel) (text : Text) : Prop :=
  ∃ w y b, text = w ++ y ∧ Spells true w (s.token ++ ':' :: b) ∧ w.head? ≠ some '<'

theorem opens_marker (s : Sentinel) (slot : Nat) (text : Text) :
    s.Opens (s.attributeMarker slot ++ text) := by
  refine ⟨s.attributeMarker slot, text, Text.ofNat slot, rfl, .plain _, ?_⟩
  rw [attributeMarker_eq]
  exact fun same => absurd (Option.some.inj same) (by decide)

/-- Only an `h` and a reference can begin a token. -/
theorem Opens.head {c : Char} {text : Text} (h : s.Opens (c :: text)) : c = 'h' ∨ c = '&' := by
  obtain ⟨w, y, b, split, spelled, first⟩ := h
  obtain ⟨tail, token, _⟩ := s.exists_tail
  rw [token] at spelled
  generalize same : 'h' :: tail ++ ':' :: b = v at spelled
  cases spelled with
  | nil => cases same
  | cons piece _ =>
    cases piece with
    | plain d =>
      rw [(List.cons.inj split).1]
      exact .inl (List.cons.inj same).1.symm
    | null => exact absurd (List.cons.inj same).1 (by decide)
    | numeral _ _ => exact .inr (List.cons.inj split).1
    | named _ => exact .inr (List.cons.inj split).1
    | gap _ => exact absurd rfl first

/-- What no glyph of a token reaches across: the beginnings of markers and of what is put around
them. -/
def Barrier (rest : Text) : Prop :=
  rest = [] ∨ (∃ after, rest = 'h' :: after) ∨ (∃ after, rest = '"' :: after) ∨
    ∃ after, rest = '<' :: '!' :: after

theorem ne_of_mem_later {done todo : Text} (later : done ≠ []) : s.token ≠ done ++ 'h' :: todo := by
  obtain ⟨tail, token, _, letters⟩ := s.exists_tail
  rw [token]
  intro same
  cases done with
  | nil => exact later rfl
  | cons c done =>
    have member : 'h' ∈ tail := by rw [(List.cons.inj same).2]; simp
    exact (letters 'h' member).2 rfl

theorem Barrier.head {x : Char} {after : Text} (h : Barrier (x :: after)) :
    x = 'h' ∨ x = '"' ∨ x = '<' ∧ after.head? = some '!' := by
  rcases h with none | ⟨_, same⟩ | ⟨_, same⟩ | ⟨_, same⟩
  · cases none
  · exact .inl (List.cons.inj same).1
  · exact .inr (.inl (List.cons.inj same).1)
  · refine .inr (.inr ⟨(List.cons.inj same).1, ?_⟩)
    rw [(List.cons.inj same).2]
    rfl

/-- No glyph of a token reaches across a barrier. -/
theorem not_glyph_across {x l : Char} {f c' r t v done todo b after : Text}
    (piece : Glyph true r t) (across : r = f ++ x :: c') (barrier : Barrier (x :: (c' ++ after)))
    (token : s.token = done ++ l :: todo) (text : t ++ v = l :: todo ++ ':' :: b)
    (begun : done = [] → f ≠ []) : False := by
  have member : x ∈ r := by rw [across]; simp
  have reached : x = 'h' ∨ x = '"' ∨ x = '<' := barrier.head.imp_right (·.imp_right And.left)
  have letter : isTokenLetter l = true := isTokenLetter_of_mem (s := s) (by rw [token]; simp)
  cases piece with
  | plain c =>
    obtain ⟨rfl, rfl⟩ : f = [] ∧ x = c := by
      cases f with
      | nil => exact ⟨rfl, (List.cons.inj across).1.symm⟩
      | cons d f => cases f <;> cases (List.cons.inj across).2
    obtain ⟨rfl, _⟩ := List.cons.inj text
    have later : done ≠ [] := fun none => begun none rfl
    rcases barrier.head with rfl | rfl | ⟨rfl, _⟩
    · exact ne_of_mem_later later token
    · exact absurd letter (by decide)
    · exact absurd letter (by decide)
  | null =>
    rw [List.mem_singleton.mp member] at reached
    exact absurd reached (by decide)
  | numeral number last =>
    have numeral := Glyph.isNumeralLetter number last x member
    rcases reached with rfl | rfl | rfl <;> exact absurd numeral (by decide)
  | named found =>
    obtain ⟨c, others, rfl, next⟩ := NamedReference.exists_of_lookup? found
    obtain ⟨rfl, tail⟩ := List.cons.inj text
    have follows := next letter
    cases others with
    | nil => cases follows
    | cons d others =>
      cases follows
      cases todo with
      | nil => exact absurd (List.cons.inj tail).1 (by decide)
      | cons l todo =>
        have other : isTokenLetter l = true := isTokenLetter_of_mem (s := s) (by rw [token]; simp)
        rw [← (List.cons.inj tail).1] at other
        exact absurd other (by decide)
  | gap _ =>
    cases f with
    | nil =>
      obtain ⟨rfl, rfl⟩ := List.cons.inj across
      rcases barrier.head with same | same | ⟨_, same⟩
      · exact absurd same (by decide)
      · exact absurd same (by decide)
      · exact absurd same (by simp)
    | cons d f =>
      have inside : x ∈ ['/', '>'] := by rw [(List.cons.inj across).2]; simp
      rcases reached with rfl | rfl | rfl <;> exact absurd inside (by decide)

/-- A token that is begun in a segment ends nowhere: not in the segment, and not beyond a
barrier. -/
theorem not_spelled_across {w v done todo b w₀ f y rest : Text} (spelled : Spells true w v)
    (barrier : Barrier rest) (token : s.token = done ++ todo) (text : v = todo ++ ':' :: b)
    (split : w ++ y = f ++ rest) (before : Spells true w₀ done) (fresh : s.Unspelled (w₀ ++ f))
    (begun : done = [] → f ≠ [] ∧ w.head? ≠ some '<') : False := by
  induction spelled generalizing done todo w₀ f with
  | nil => cases todo <;> cases text
  | @cons r t w v piece later ih =>
    -- Once all letters are there, the segment would spell the token.
    have never : ∀ {w₁ f₁ u : Text}, s.Unspelled (w₁ ++ f₁) →
        Spells true w₁ (s.token ++ u) → False :=
      fun {w₁ f₁ u} fresh whole => fresh [] w₁ f₁ _ rfl whole ⟨[], u, rfl⟩
    cases todo with
    | nil =>
      rw [List.append_nil] at token
      rw [← token, ← List.append_nil s.token] at before
      exact never fresh before
    | cons l todo =>
      rw [List.append_assoc] at split
      have inside : ∀ f₁, f = r ++ f₁ → w ++ y = f₁ ++ rest → False := by
        rintro f₁ rfl rest₁
        have fresh₁ : s.Unspelled ((w₀ ++ r) ++ f₁) := by
          rw [List.append_assoc]
          exact fresh
        have before₁ : Spells true (w₀ ++ r) (done ++ t) := before.append (.glyph piece)
        rcases List.append_eq_append_iff.mp text with ⟨todo₁, same, tail⟩ | ⟨u, rfl, _⟩
        · refine ih (by rw [token, same, List.append_assoc]) tail rest₁ before₁ fresh₁ ?_
          intro empty
          obtain ⟨none, rfl⟩ := List.append_eq_nil_iff.mp empty
          refine absurd rfl (piece.text_ne_nil (.inr ?_))
          have head := (begun none).2
          cases r with
          | nil => exact absurd rfl piece.ne_nil
          | cons c r => exact head
        · rw [← List.append_assoc, ← token] at before₁
          exact never fresh₁ before₁
      rcases List.append_eq_append_iff.mp split with ⟨f₁, within, rest₁⟩ | ⟨c', across, rest₁⟩
      · exact inside f₁ within rest₁
      · cases c' with
        | nil =>
          rw [List.append_nil] at across
          exact inside [] (by rw [List.append_nil, across]) rest₁.symm
        | cons x c' =>
          rw [rest₁, List.cons_append] at barrier
          exact not_glyph_across piece across barrier token text fun none => (begun none).1

theorem Unspelled.not_opens {segment rest : Text} (fresh : s.Unspelled segment)
    (some : segment ≠ []) (barrier : Barrier rest) : ¬ s.Opens (segment ++ rest) := by
  rintro ⟨w, y, b, split, spelled, first⟩
  exact not_spelled_across spelled barrier (List.nil_append _).symm rfl split.symm .nil fresh
    fun _ => ⟨some, first⟩

/-! ## Laid out texts -/

/-- A text in which the token of a marker is only to be found where a marker is, with the slots of
the markers in order. -/
inductive Laid (s : Sentinel) : Text → List Nat → Prop
  | nil : Laid s [] []
  | other {c : Char} {text : Text} {slots : List Nat} : ¬ s.Opens (c :: text) →
      Laid s text slots → Laid s (c :: text) slots
  | marker {slot : Nat} {text : Text} {slots : List Nat} :
      Laid s (s.markerTail slot ++ text) slots →
      Laid s (s.attributeMarker slot ++ text) (slot :: slots)

namespace Laid

variable {x text : Text} {slots others : List Nat}

theorem tail {c : Char} (h : s.Laid (c :: text) slots) :
    ∃ later, later <:+ slots ∧ s.Laid text later := by
  generalize same : c :: text = whole at h
  cases h with
  | nil => cases same
  | other _ later =>
    cases same
    exact ⟨_, List.suffix_refl _, later⟩
  | @marker slot _ later laid =>
    rw [attributeMarker_eq, List.cons_append] at same
    cases same
    exact ⟨later, List.suffix_cons slot later, laid⟩

theorem drop (h : s.Laid (x ++ text) slots) : ∃ later, later <:+ slots ∧ s.Laid text later := by
  induction x generalizing slots with
  | nil => exact ⟨slots, List.suffix_refl _, h⟩
  | cons c x ih =>
    obtain ⟨later, suffix, laid⟩ := h.tail
    obtain ⟨last, suffix', laid'⟩ := ih laid
    exact ⟨last, suffix'.trans suffix, laid'⟩

/-- Where a token begins there is a marker. -/
theorem of_opens (h : s.Laid text slots) (opens : s.Opens text) : ∃ slot rest later,
    text = s.attributeMarker slot ++ rest ∧ slots = slot :: later ∧
      s.Laid (s.markerTail slot ++ rest) later := by
  cases h with
  | nil =>
    obtain ⟨w, y, b, split, spelled, _⟩ := opens
    obtain ⟨rfl, rfl⟩ := List.append_eq_nil_iff.mp split.symm
    exact absurd spelled.eq_nil_of_nil (by simp)
  | other none _ => exact absurd opens none
  | marker laid => exact ⟨_, _, _, rfl, rfl, laid⟩

/-- All ways to find the markers of a text find equally many. -/
theorem length_unique (h : s.Laid text slots) (h' : s.Laid text others) :
    slots.length = others.length := by
  induction h generalizing others with
  | nil =>
    generalize same : ([] : Text) = whole at h'
    cases h' with
    | nil => rfl
    | other _ _ => cases same
    | marker _ =>
      rw [attributeMarker_eq] at same
      cases same
  | @other c text slots none _ ih =>
    generalize same : c :: text = whole at h'
    cases h' with
    | nil => cases same
    | other _ later =>
      cases same
      exact ih later
    | marker _ =>
      rw [same] at none
      exact absurd (opens_marker s _ _) none
  | @marker slot text slots _ ih =>
    obtain ⟨slot', rest, later, same, rfl, laid⟩ := h'.of_opens (opens_marker s slot text)
    rw [attributeMarker_eq, attributeMarker_eq, List.cons_append, List.cons_append] at same
    rw [← (List.cons.inj same).2] at laid
    rw [List.length_cons, List.length_cons, ih laid]

/-- Characters that begin no token may be put in front. -/
theorem prepend {u : Text} (h : s.Laid text slots) (none : ∀ c ∈ u, c ≠ 'h' ∧ c ≠ '&') :
    s.Laid (u ++ text) slots := by
  induction u with
  | nil => exact h
  | cons c u ih =>
    refine .other (fun opens => ?_) (ih fun d member => none d (List.mem_cons_of_mem c member))
    obtain ⟨letter, reference⟩ := none c List.mem_cons_self
    rcases opens.head with same | same
    · exact letter same
    · exact reference same

theorem marked (h : s.Laid text slots) (slot : Nat) :
    s.Laid (s.attributeMarker slot ++ text) (slot :: slots) :=
  .marker (h.prepend fun _ member => ne_of_mem_markerTail member)

/-- A segment that does not spell the token may be put in front of a barrier. -/
theorem segment {segment : Text} (h : s.Laid text slots) (fresh : s.Unspelled segment)
    (barrier : Barrier text) : s.Laid (segment ++ text) slots := by
  induction segment with
  | nil => exact h
  | cons c segment ih =>
    exact .other (fresh.not_opens (List.cons_ne_nil _ _) barrier)
      (ih (fresh.suffix (x := [c])))

end Laid

end Sentinel

end HtmlTemplate

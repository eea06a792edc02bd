import HtmlTemplate.Proofs.Template.Layout
import HtmlTemplate.Proofs.Template.Slots
import Mathlib.Algebra.Order.BigOperators.Group.List
import Mathlib.Algebra.Order.Group.Nat
import Mathlib.Algebra.GroupWithZero.Nat

/-!
# What markers are read as

A datum is read as a slot only where the marker of a slot stands. The number may have grown by
digits that follow the marker, so the slots that are read are no smaller than those of the markers
(`finds_trail`). If together they are all slots of a skeleton, each is the slot of its marker
(`Finds.eq_range`).
-/

namespace HtmlTemplate

namespace Sentinel

variable {s : Sentinel} {gaps : Bool} {w x y a after back rest v digits : Text} {slot : Nat}
  {slots found more : List Nat}

/-! ## One marker -/

/-- A glyph that is read as an `h` is read as nothing before it, and it is no end tag without a
name. -/
theorem h_of_glyph {r t : Text} (piece : Glyph gaps r (a ++ 'h' :: t)) :
    a = [] ∧ r.head? ≠ some '<' := by
  have member : 'h' ∈ a ++ 'h' :: t := by simp
  generalize text : a ++ 'h' :: t = whole at piece member
  cases piece with
  | plain c =>
    cases a with
    | nil =>
      rw [← (List.cons.inj text).1]
      exact ⟨rfl, fun mark => absurd (Option.some.inj mark) (by decide)⟩
    | cons c a => cases a <;> cases (List.cons.inj text).2
  | null => exact absurd (List.mem_singleton.mp member) (by decide)
  | numeral _ _ =>
    cases a with
    | nil => exact ⟨rfl, fun mark => absurd (Option.some.inj mark) (by decide)⟩
    | cons c a => cases a <;> cases (List.cons.inj text).2
  | named known => exact absurd member (NamedReference.not_mem_of_lookup? known)
  | gap _ => cases member

/-- Where a text begins with what is read as the token of a marker it begins with the marker. -/
theorem Laid.first {b : Text} (laid : s.Laid (w ++ y) slots)
    (spelled : Spells gaps w (s.token ++ ':' :: b)) (mark : w.head? ≠ some '<') :
    ∃ back slot rest later, w = s.token ++ back ∧ Spells gaps back (':' :: b) ∧
      back ++ y = ':' :: (Text.ofNat slot ++ rest) ∧ List.Sublist (slot :: later) slots ∧
      s.Laid (back ++ y) later := by
  obtain ⟨tail, token, _⟩ := s.exists_tail
  obtain ⟨slot, rest, later, marker, rfl, inner⟩ := laid.of_opens ⟨w, y, b, rfl, spelled.mono, mark⟩
  have letters : ∀ c ∈ s.token, c ≠ '&' ∧ c ≠ '<' ∧ c ≠ State.null := fun c member =>
    have inert : Inert c := .inl (isTokenLetter_of_mem member)
    ⟨inert.ne.1, inert.ne.2.1, inert.ne.2.2.1⟩
  rw [attributeMarker, List.append_assoc s.token] at marker
  rcases spelled.literally marker letters with
    ⟨back, text, split, read, spelled, left⟩ | ⟨read, z, short, _, _⟩
  · have text : ':' :: b = text := List.append_cancel_left read
    subst text
    have again : s.markerTail slot ++ rest = tail ++ (back ++ y) := by
      rw [left, markerTail, attributeMarker, token]
      simp
    rw [again] at inner
    obtain ⟨last, suffix, laid⟩ := inner.drop
    exact ⟨back, slot, rest, last, split, spelled, left, suffix.sublist.cons_cons slot, laid⟩
  · -- The token is longer than what is left of the markup.
    exfalso
    have length := congrArg List.length read
    have shorter := congrArg List.length short
    simp only [List.length_append, List.length_cons] at length shorter
    omega

/-- Where the token of a marker is read there is a marker. -/
theorem Laid.token {b : Text} (laid : s.Laid (w ++ y) slots)
    (spelled : Spells gaps w (a ++ (s.token ++ ':' :: b))) :
    ∃ front back slot rest later, w = front ++ (s.token ++ back) ∧ Spells gaps front a ∧
      Spells gaps back (':' :: b) ∧ back ++ y = ':' :: (Text.ofNat slot ++ rest) ∧
      List.Sublist (slot :: later) slots ∧ s.Laid (back ++ y) later := by
  obtain ⟨tail, token, _⟩ := s.exists_tail
  generalize same : a ++ (s.token ++ ':' :: b) = v at spelled
  induction spelled generalizing a slots with
  | nil =>
    rw [token] at same
    exact absurd (List.append_eq_nil_iff.mp same).2 (List.cons_ne_nil _ _)
  | @cons r t w v piece spelled ih =>
    rcases List.append_eq_append_iff.mp same with ⟨t', rfl, beyond⟩ | ⟨a', rfl, within⟩
    · cases t' with
      | nil =>
        -- The glyph ends right before the token.
        rw [List.append_assoc] at laid
        obtain ⟨middle, suffix, laid⟩ := laid.drop
        obtain ⟨front, back, slot, rest, later, rfl, before, others⟩ := ih (a := []) laid beyond
        obtain ⟨spelled, marker, sub, laid⟩ := others
        refine ⟨r ++ front, back, slot, rest, later, by rw [List.append_assoc], ?_, spelled, marker,
          sub.trans suffix.sublist, laid⟩
        have whole := Spells.cons piece before
        rw [List.append_nil, List.append_nil] at whole
        exact whole
      | cons d t' =>
        -- The glyph is the first letter of the token.
        rw [token] at beyond
        obtain ⟨rfl, _⟩ := List.cons.inj beyond
        obtain ⟨rfl, mark⟩ := h_of_glyph piece
        have whole : Spells gaps (r ++ w) ([] ++ 'h' :: t' ++ v) := .cons piece spelled
        rw [← same, List.nil_append] at whole
        have first : (r ++ w).head? ≠ some '<' := by
          cases r with
          | nil => exact absurd rfl piece.ne_nil
          | cons c r => exact mark
        obtain ⟨back, slot, rest, later, split, others⟩ := laid.first whole first
        exact ⟨[], back, slot, rest, later, split, .nil, others⟩
    · rw [List.append_assoc] at laid
      obtain ⟨middle, suffix, laid⟩ := laid.drop
      obtain ⟨front, back, slot, rest, later, rfl, before, others⟩ := ih laid within.symm
      obtain ⟨spelled, marker, sub, laid⟩ := others
      exact ⟨r ++ front, back, slot, rest, later, by rw [List.append_assoc], .cons piece before,
        spelled, marker, sub.trans suffix.sublist, laid⟩

/-- Digits that are read after a token begin with the number of the marker, if no digit follows. -/
theorem digits_of_marker {c : Char} (spelled : Spells gaps back (':' :: (digits ++ after)))
    (marker : back ++ c :: y = ':' :: (Text.ofNat slot ++ rest))
    (ends : ∀ d, after.head? = some d → Text.isDigit d = false) (other : Text.isDigit c = false) :
    ∃ more back', digits = Text.ofNat slot ++ more ∧ back = ':' :: (Text.ofNat slot ++ back') ∧
      Spells gaps back' (more ++ after) := by
  have inert : ∀ d ∈ ':' :: Text.ofNat slot, d ≠ '&' ∧ d ≠ '<' ∧ d ≠ State.null := by
    intro d member
    have inert : Inert d := inert_of_mem_number member
    exact ⟨inert.ne.1, inert.ne.2.1, inert.ne.2.2.1⟩
  rcases spelled.literally (u := ':' :: Text.ofNat slot) marker inert with
    ⟨back', v, split, read, later, _⟩ | ⟨read, z, short, some, left⟩
  · obtain ⟨_, read⟩ := List.cons.inj read
    rcases List.append_eq_append_iff.mp read with ⟨u, number, tail⟩ | ⟨more, number, tail⟩
    · cases u with
      | nil =>
        rw [List.append_nil] at number
        refine ⟨[], back', by rw [number, List.append_nil], split, ?_⟩
        rw [tail]
        exact later
      | cons d u =>
        have digit : Text.isDigit d = true :=
          Text.isDigit_of_mem_ofNat (n := slot) (by rw [number]; simp)
        rw [ends d (by rw [tail]; rfl)] at digit
        cases digit
    · rw [tail] at later
      exact ⟨more, back', number, split, later⟩
  · -- The number goes on after the datum, but no digit follows.
    exfalso
    cases z with
    | nil => exact some rfl
    | cons d z =>
      obtain ⟨rfl, _⟩ := List.cons.inj left
      rw [← read] at short
      have digit : Text.isDigit c = true :=
        Text.isDigit_of_mem_ofNat (n := slot) (by rw [(List.cons.inj short).2]; simp)
      rw [other] at digit
      cases digit

/-! ## Many markers -/

/-- Among the markers of the given slots, some are read as the found ones, and the others are
left. -/
def Finds (s : Sentinel) (slots found : List Nat) (y : Text) : Prop :=
  ∃ first later, List.Sublist (first ++ later) slots ∧ List.Forall₂ (· ≤ ·) first found ∧
    s.Laid y later

theorem Laid.finds_nothing (h : s.Laid (x ++ y) slots) : s.Finds slots [] y := by
  obtain ⟨later, suffix, laid⟩ := h.drop
  exact ⟨[], later, suffix.sublist, .nil, laid⟩

theorem Finds.trans (h : s.Finds slots found x)
    (h' : ∀ slots, s.Laid x slots → s.Finds slots more y) : s.Finds slots (found ++ more) y := by
  obtain ⟨first, middle, sub, le, laid⟩ := h
  obtain ⟨next, later, sub', le', laid⟩ := h' middle laid
  refine ⟨first ++ next, later, ?_, List.rel_append le le', laid⟩
  rw [List.append_assoc]
  exact (sub'.append_left first).trans sub

theorem Finds.drop (h : s.Finds slots found (x ++ y)) : s.Finds slots found y := by
  have whole := h.trans fun _ laid => laid.finds_nothing
  rw [List.append_nil] at whole
  exact whole

theorem Finds.cons (h : s.Finds more found y) {n : Nat} (sub : List.Sublist (slot :: more) slots)
    (le : slot ≤ n) : s.Finds slots (n :: found) y := by
  obtain ⟨first, later, sub', le', laid⟩ := h
  exact ⟨slot :: first, later, (sub'.cons_cons slot).trans sub, .cons le le', laid⟩

/-! ## One datum -/

theorem slotOf?_eq_some {n : Nat} (h : s.slotOf? v = some n) : ∃ digits,
    v = s.token ++ ':' :: digits ∧ (∀ d ∈ digits, Text.isDigit d = true) ∧
      Text.decimalValue digits = n := by
  obtain ⟨rest, stripped, number⟩ := Option.bind_eq_some_iff.mp h
  have whole := Text.strip?_eq_some.mp stripped
  cases rest with
  | nil => cases number
  | cons c digits =>
    split at number
    · rename_i same
      obtain ⟨rfl, rfl⟩ := List.cons.inj same
      obtain ⟨_, all, value⟩ := Text.word?_eq_some number
      exact ⟨_, whole, all, value⟩
    · cases number

theorem finds_slotOf? {c : Char} (laid : s.Laid (w ++ c :: y) slots) (spelled : Spells gaps w v)
    (other : Text.isDigit c = false) : s.Finds slots (s.slotOf? v).toList (c :: y) := by
  cases read : s.slotOf? v with
  | none => exact laid.finds_nothing
  | some n =>
    obtain ⟨digits, rfl, all, rfl⟩ := slotOf?_eq_some read
    obtain ⟨front, back, slot, rest, later, rfl, _, colon, marker, sub, laid⟩ :=
      laid.token (a := []) spelled
    rw [← List.append_nil digits] at colon
    obtain ⟨more, _, rfl, _⟩ :=
      digits_of_marker colon marker (fun d none => by cases none) other
    refine laid.finds_nothing.cons sub ?_
    exact (Text.decimalValue_ofNat_append slot fun d member =>
      all d (List.mem_append_right _ member)).1

theorem markerEnd?_eq_some {n : Nat} (h : markerEnd? after = some (n, rest)) : ∃ digits,
    after = digits ++ (['-', '-', '>'] ++ rest) ∧ (∀ d ∈ digits, Text.isDigit d = true) ∧
      Text.decimalValue digits = n := by
  unfold markerEnd? at h
  split at h
  · rename_i number stripped
    cases h
    obtain ⟨_, all, value⟩ := Text.word?_eq_some number
    refine ⟨_, ?_, all, value⟩
    rw [← Text.strip?_eq_some.mp stripped, List.takeWhile_append_dropWhile]
  · cases h

/-- The slots of a text, wherever it stands in what is read. -/
theorem finds_splitWithin {c : Char} {b : Text} (fuel : Nat) (laid : s.Laid (w ++ c :: y) slots)
    (spelled : Spells gaps w (a ++ (v ++ b))) (other : Text.isDigit c = false) :
    s.Finds slots ((s.splitWithin fuel v).filterMap Piece.slot?) (c :: y) := by
  induction fuel generalizing w a v slots with
  | zero => exact laid.finds_nothing
  | succ fuel ih =>
    rw [splitWithin]
    split
    · exact laid.finds_nothing
    · rename_i before after cut
      have whole := Text.cut?_eq_some cut
      subst whole
      have colon : a ++ (before ++ (s.commentOpening ++ after) ++ b) =
          (a ++ (before ++ ['<', '!', '-', '-'])) ++ (s.token ++ ':' :: (after ++ b)) := by
        simp only [commentOpening, List.append_assoc, List.cons_append, List.nil_append]
      rw [colon] at spelled
      split
      · rename_i n rest number
        obtain ⟨digits, rfl, all, rfl⟩ := markerEnd?_eq_some number
        obtain ⟨front, back, slot, left, later, rfl, _, colon, marker, sub, laid⟩ :=
          laid.token spelled
        rw [List.append_assoc digits] at colon
        obtain ⟨more, _, rfl, _⟩ := digits_of_marker colon marker
          (fun d dash => by cases dash; decide) other
        have later := ih (v := rest) (a := ':' :: (Text.ofNat slot ++ more ++ ['-', '-', '>'])) laid
          (by
            simp only [List.append_assoc, List.cons_append] at colon ⊢
            exact colon)
        exact later.cons sub (Text.decimalValue_ofNat_append slot fun d member =>
          all d (List.mem_append_right _ member)).1
      · have later := ih (v := after) (a := a ++ (before ++ s.commentOpening)) laid
          (by
            simp only [commentOpening, List.append_assoc, List.cons_append, List.nil_append]
              at spelled ⊢
            exact spelled)
        exact later

theorem finds_slotsOf {c : Char} {b : Text} (laid : s.Laid (w ++ c :: y) slots)
    (spelled : Spells gaps w (a ++ (v ++ b))) (other : Text.isDigit c = false) :
    s.Finds slots (s.slotsOf v) (c :: y) := finds_splitWithin v.length laid spelled other

/-- The slots that a datum is read as. -/
theorem finds_datum {d : Datum} {c : Char} (laid : s.Laid (w ++ c :: y) slots)
    (spelled : Spells d.gaps w d.body) (other : Text.isDigit c = false) :
    s.Finds slots (d.slots s) (c :: y) := by
  cases d with
  | value body => exact finds_slotOf? laid spelled other
  | text body =>
    rw [← List.append_nil (Datum.text body).body, ← List.nil_append (_ ++ [])] at spelled
    exact finds_slotsOf laid spelled other
  | comment body =>
    show s.Finds slots ((Event.ofComment body).flatMap (Event.slots s)) (c :: y)
    unfold Event.ofComment
    split
    · exact laid.finds_nothing
    · rename_i first content found
      -- A character data section is a text inside the comment.
      obtain ⟨inner, stripped, ended⟩ := Option.bind_eq_some_iff.mp found
      have whole : body = Event.sectionOpening ++ ((first :: content) ++ [']', ']']) := by
        rw [Text.strip?_eq_some.mp stripped, Text.stripEnd?_eq_some ended]
      rw [Datum.body, whole] at spelled
      have slots := finds_slotsOf laid spelled other
      rw [← List.append_nil (s.slotsOf _)] at slots
      exact slots
    · split
      · exact laid.finds_nothing
      · rw [List.flatMap_singleton]
        exact finds_slotOf? laid spelled other

/-! ## All data -/

/-- The data of a trail are read as slots of the markers on it. -/
theorem finds_trail {data : List Datum} (h : Trail .zero x data) (laid : s.Laid (x ++ y) slots) :
    s.Finds slots (data.flatMap (Datum.slots s)) y := by
  induction h generalizing y slots with
  | start => exact laid.finds_nothing (x := [])
  | skip c _ ih =>
    rw [List.append_assoc] at laid
    exact (ih laid).drop
  | @take start w data d c _ spelled other ih =>
    rw [List.append_assoc, List.append_assoc] at laid
    rw [List.flatMap_append, List.flatMap_singleton]
    exact ((ih laid).trans fun _ laid => finds_datum laid spelled other).drop (x := [c])

/-- Numbers that are no smaller than others and have the same sum are the same. -/
theorem eq_of_sum_eq {first : List Nat} (le : List.Forall₂ (· ≤ ·) first found)
    (sum : first.sum = found.sum) : first = found := by
  induction le with
  | nil => rfl
  | @cons m n first found le later ih =>
    have least := later.sum_le_sum
    rw [List.sum_cons, List.sum_cons] at sum
    rw [ih (by omega), show m = n by omega]

/-- If all slots of a skeleton are found, then each is found at its own marker. -/
theorem Finds.eq_range {count : Nat} (h : s.Finds (List.range count) found y)
    (all : List.Subperm (List.range count) found) : found = List.range count := by
  obtain ⟨first, later, sub, le, _⟩ := h
  have within : List.Sublist first (List.range count) := (List.sublist_append_left _ _).trans sub
  have many := all.length_le
  rw [← le.length_eq] at many
  have same : first = List.range count := within.eq_of_length_le many
  subst same
  have perm : (List.range count).Perm found :=
    all.perm_of_length_le (Nat.le_of_eq le.length_eq.symm)
  exact (eq_of_sum_eq le perm.sum_eq).symm

end Sentinel

end HtmlTemplate

import HtmlTemplate.Proofs.Markup.Value
import HtmlTemplate.Proofs.Template.Joined
import HtmlTemplate.Proofs.Template.Readings
import Mathlib.Data.List.Flatten

/-!
# Slots that stand alone

If a skeleton compiles, every marker is read (`not_overlooked`). In an attribute value it is read
only if the value has nothing else: nothing before it, and after it at most zeros that leave its
number as it is, which can only be the number 0 (`alone_of_compile`).
-/

namespace HtmlTemplate

namespace Sentinel

variable {s : Sentinel} {x y z v : Text}

/-! ## Letters -/

theorem Inert.not_ends {c : Char} (h : Inert c) (quote : Quote) : quote.ends c = false := by
  have other : ∀ d ∈ Quote.marks, c ≠ d := h.ne_of_mem (by decide)
  by_contra ends
  exact other c (Quote.mem_marks (Bool.eq_true_of_not_eq_false ends)) rfl

/-! ## Counting -/

section Counting

variable {segments : List Text} {slot : Nat} {data more : List Datum}

/-- Before a marker no more slots are read than there are markers. -/
theorem length_le_before (fresh : s.Fresh segments) (bound : slot + 1 < segments.length)
    (start : normalizeNewlines (s.upTo segments slot) = x ++ y) (trail : Trail .zero x data) :
    (data.flatMap (Datum.slots s)).length ≤ slot := by
  have laid := laid_join fresh (List.ne_nil_of_length_pos (by omega))
  rw [normalizeNewlines_join bound, start] at laid
  simp only [List.append_assoc] at laid
  obtain ⟨first, later, sub, le, laid⟩ := finds_trail trail laid
  obtain ⟨last, suffix, laid⟩ := laid.drop
  have beyond := ((laid_beyond fresh bound).marked slot).length_unique laid
  have many := sub.length_le
  have fewer := suffix.length_le
  rw [List.length_append, List.length_range] at many
  rw [List.length_cons, List.length_range'] at beyond
  rw [← le.length_eq]
  omega

/-- Beyond a marker no more slots are read than there are markers. -/
theorem length_le_beyond (fresh : s.Fresh segments) (bound : slot + 1 < segments.length)
    (last : normalizeNewlines (s.beyond segments slot) ++ ending = x ++ y)
    (trail : Trail .zero y more) :
    (more.flatMap (Datum.slots s)).length + (slot + 1) ≤ segments.length - 1 := by
  have laid := laid_beyond fresh bound
  rw [last] at laid
  obtain ⟨later, suffix, laid⟩ := laid.drop
  rw [← List.append_nil y] at laid
  obtain ⟨first, rest, sub, le, _⟩ := finds_trail trail laid
  have many := sub.length_le
  have fewer := suffix.length_le
  rw [List.length_append] at many
  rw [List.length_range'] at fewer
  rw [← le.length_eq]
  omega

end Counting

end Sentinel

namespace Template

open Sentinel

variable {s : Sentinel} {options : Options} {segments : List Text} {template : Template}
  {slot : Nat} {x y rest : Text} {data middle more : List Datum}

/-- The data of a skeleton that compiles have all its slots. -/
theorem subperm_of_compile
    (compiled : (compile s options Event.source segments).result = .ok template)
    (sub : List.Subperm (dataOf s segments) data) :
    List.Subperm (List.range (segments.length - 1)) (data.flatMap (Datum.slots s)) := by
  refine (perm_of_compile compiled).symm.subperm.trans ?_
  obtain ⟨l, perm, sub⟩ := sub
  exact ⟨_, perm.flatMap_right _, sub.flatMap _⟩

/-- No marker is overlooked in a skeleton that compiles. -/
theorem not_overlooked (compiled : (compile s options Event.source segments).result = .ok template)
    (fresh : s.Fresh segments) (bound : slot + 1 < segments.length)
    (start : normalizeNewlines (s.upTo segments slot) = x ++ y) (before : Trail .zero x data)
    {gap : Text} (last : normalizeNewlines (s.beyond segments slot) ++ ending = gap ++ rest)
    (beyond : Trail .zero rest more)
    (sub : List.Subperm (dataOf s segments) (data ++ middle ++ more)) :
    middle.flatMap (Datum.slots s) ≠ [] := by
  intro none
  have many := (subperm_of_compile compiled sub).length_le
  rw [List.flatMap_append, List.flatMap_append, none, List.append_nil, List.length_range,
    List.length_append] at many
  have first := length_le_before fresh bound start before
  have later := length_le_beyond fresh bound last beyond
  omega

/-- A marker in a value that is read as a slot begins the value, and digits follow it. -/
theorem reading_of_slotOf? {slots : List Nat} {lead z v : Text} {c : Char} {n : Nat}
    (laid : s.Laid (lead ++ (s.attributeMarker slot ++ z) ++ c :: y) slots)
    (spelled : Spells false (lead ++ (s.attributeMarker slot ++ z)) v)
    (other : Text.isDigit c = false) (read : s.slotOf? v = some n) :
    lead = [] ∧ ∃ digits, v = s.attributeMarker slot ++ digits ∧ Spells false z digits ∧
      (∀ d ∈ digits, Text.isDigit d = true) ∧
      Text.decimalValue (Text.ofNat slot ++ digits) = n := by
  obtain ⟨digits, rfl, all, rfl⟩ := slotOf?_eq_some read
  obtain ⟨front, back, first, rest, _, whole, before, colon, marker, _, _⟩ :=
    laid.token (a := []) spelled
  have empty := before.eq_nil_of_text_nil
  subst empty
  rw [← List.append_nil digits] at colon
  have none : ∀ d, ([] : Text).head? = some d → Text.isDigit d = false :=
    fun d none => by cases none
  -- After its first letter the value has no `h`, so the marker is where the value begins.
  obtain ⟨more, tail, rfl, rfl, later⟩ := digits_of_marker colon marker none other
  rw [List.append_nil] at later
  have plain : 'h' ∉ tail := fun member => absurd (later.isNumeralLetter
    (fun d member => all d (List.mem_append_right _ member)) 'h' member) (by decide)
  obtain ⟨letters, token, _, others⟩ := s.exists_tail
  have start : lead = [] := by
    cases lead with
    | nil => rfl
    | cons d lead =>
      exfalso
      rw [attributeMarker_eq, token] at whole
      obtain ⟨_, whole⟩ := List.cons.inj whole
      have member : 'h' ∈ letters ++ ':' :: (Text.ofNat first ++ tail) := by
        have same : lead ++ ('h' :: s.markerTail slot ++ z) =
            letters ++ ':' :: (Text.ofNat first ++ tail) := whole
        rw [← same]
        simp
      rcases List.mem_append.mp member with member | member
      · exact (others 'h' member).2 rfl
      · rcases List.mem_cons.mp member with colon | member
        · exact absurd colon (by decide)
        · rcases List.mem_append.mp member with member | member
          · exact absurd (Text.isDigit_of_mem_ofNat member) (by decide)
          · exact plain member
  subst start
  refine ⟨rfl, ?_⟩
  rw [List.nil_append, List.nil_append, attributeMarker, List.append_assoc] at whole
  have back : ':' :: (Text.ofNat first ++ tail) = ':' :: (Text.ofNat slot ++ z) :=
    (List.append_cancel_left whole).symm
  rw [back] at colon
  have after : ':' :: (Text.ofNat slot ++ z) ++ c :: y =
      ':' :: (Text.ofNat slot ++ (z ++ c :: y)) := by
    rw [List.cons_append, List.append_assoc]
  obtain ⟨digits, z', same, split, later⟩ := digits_of_marker colon after none other
  obtain rfl : z = z' := List.append_cancel_left (List.cons.inj split).2
  rw [List.append_nil] at later
  refine ⟨digits, ?_, later, fun d member => all d (same ▸ List.mem_append_right _ member), ?_⟩
  · rw [same, attributeMarker, List.append_assoc]
    rfl
  · rw [← same]

/-- The slots that are read of data before others and of one datum between them. -/
theorem eq_length_of_range {count n : Nat} {front last : List Nat}
    (h : front ++ [n] ++ last = List.range count) : n = front.length := by
  have inside : front.length < (List.range count).length := by
    rw [← h, List.length_append, List.length_append]
    exact Nat.lt_of_lt_of_le (Nat.lt_succ_self _) (Nat.le_add_right _ _)
  have here : (List.range count)[front.length]? = some n := by
    rw [← h, List.append_assoc, List.getElem?_append_right (Nat.le_refl _), Nat.sub_self]
    rfl
  rw [List.getElem?_eq_getElem inside, List.getElem_range] at here
  exact (Option.some.inj here).symm

/-- Markup that an attribute value goes on with after the marker of a slot, up to the mark that ends
it: zeros, some of them maybe written as references. -/
structure Zeros (s : Sentinel) (slot : Nat) (tag : Tag) (name : Text) (quote : Quote) (z : Text)
    (mark : Char) (count : Nat) : Prop where
  ends : quote.ends mark = true
  spelled : Spells false z (List.replicate count '0')
  read : ∀ rest, (State.value tag name quote (s.attributeMarker slot)).run (z ++ mark :: rest) =
    (State.leaveValue (tag.withAttribute name
        (s.attributeMarker slot ++ List.replicate count '0')) quote mark).2 ++
      (State.leaveValue (tag.withAttribute name
        (s.attributeMarker slot ++ List.replicate count '0')) quote mark).1.run rest

/-- The attribute value that the marker of a slot falls into. -/
structure Enclosing (s : Sentinel) (segments : List Text) (slot : Nat) where
  tag : Tag
  name : Text
  quote : Quote
  /-- What the value is read as before the slot. -/
  value : Text
  position : Option Reference
  /-- What is written of it since its last reference began. -/
  pending : Text
  /-- The markup before the slot. -/
  input : Text
  /-- What stands between that and the marker. -/
  lead : Text
  tokens : List Token
  data : List Datum
  joined : normalizeNewlines (s.upTo segments slot) = input ++ lead
  read : Token.read (s.join segments) = tokens ++
    (State.inValue tag name quote value position).run
      (lead ++ (s.attributeMarker slot ++ normalizeNewlines (s.beyond segments slot)))
  written : State.Pending position pending
  aside : Aside .zero (((⟨[], []⟩ : Gathered).addAll tokens).whole ++ tag.values) data input value
    pending
  passes : ∀ c ∈ lead, quote.ends c = false

namespace Enclosing

variable (e : Enclosing s segments slot)

theorem exists_within : ∃ start w, Trail .zero start e.data ∧
    List.Subperm (((⟨[], []⟩ : Gathered).addAll e.tokens).whole ++ e.tag.values) e.data ∧
    Spells false w e.value ∧ e.input = start ++ (w ++ e.pending) ∧
    normalizeNewlines (s.upTo segments slot) = start ++ (w ++ e.pending ++ e.lead) := by
  obtain ⟨start, within⟩ := e.aside
  obtain ⟨w, input, spelled⟩ := within.spelled
  refine ⟨start, w, within.trail, within.known, spelled, input, ?_⟩
  rw [e.joined, input]
  simp only [List.append_assoc]

theorem passes_marker {z : Text} (none : ∀ c ∈ z, e.quote.ends c = false) :
    ∀ c ∈ e.lead ++ (s.attributeMarker slot ++ z), e.quote.ends c = false := by
  intro c member
  rcases List.mem_append.mp member with member | member
  · exact e.passes c member
  · rcases List.mem_append.mp member with member | member
    · exact (inert_of_mem member).not_ends e.quote
    · exact none c member

/-- The value of a skeleton that compiles ends, since its marker is not overlooked. -/
theorem exists_ends (compiled : (compile s options Event.source segments).result = .ok template)
    (fresh : s.Fresh segments) (bound : slot + 1 < segments.length) :
    ∃ z mark rest, normalizeNewlines (s.beyond segments slot) = z ++ mark :: rest ∧
      (∀ c ∈ z, e.quote.ends c = false) ∧ e.quote.ends mark = true := by
  cases found : (normalizeNewlines (s.beyond segments slot)).find? e.quote.ends with
  | some mark =>
    obtain ⟨ends, z, rest, split, none⟩ := List.find?_eq_some_iff_append.mp found
    refine ⟨z, mark, rest, split, fun c member => ?_, ends⟩
    have other := none c member
    rw [Bool.not_eq_true'] at other
    exact other
  | none =>
    exfalso
    have none : ∀ c ∈ normalizeNewlines (s.beyond segments slot), e.quote.ends c = false :=
      fun c member => Bool.eq_false_iff.mpr (List.find?_eq_none.mp found c member)
    obtain ⟨start, w, trail, known, _, _, first⟩ := e.exists_within
    have sub : List.Subperm (dataOf s segments) (e.data ++ [] ++ []) := by
      rw [dataOf, e.read, State.run_inValue e.written (e.passes_marker none), List.append_nil,
        List.append_nil, List.append_nil]
      exact (List.sublist_append_left _ _).subperm.trans known
    exact not_overlooked compiled fresh bound first trail (List.append_nil _).symm .start sub rfl

variable {e} {z u rest : Text} {mark : Char}

/-- The value that a marker falls into is read as a slot, and as no later one. -/
theorem slotOf?_of_compile (e : Enclosing s segments slot)
    (compiled : (compile s options Event.source segments).result = .ok template)
    (fresh : s.Fresh segments) (bound : slot + 1 < segments.length)
    (beyond : normalizeNewlines (s.beyond segments slot) = z ++ mark :: rest)
    (ends : e.quote.ends mark = true)
    (spelled : Spells false (e.pending ++ (e.lead ++ (s.attributeMarker slot ++ z))) u)
    (read : Token.read (s.join segments) = e.tokens ++
      ((State.leaveValue (e.tag.withAttribute e.name (e.value ++ u)) e.quote mark).2 ++
        (State.leaveValue (e.tag.withAttribute e.name (e.value ++ u)) e.quote mark).1.run rest)) :
    ∃ n, s.slotOf? (e.value ++ u) = some n ∧ n ≤ slot := by
  obtain ⟨start, w, before, known, spelled', input, first⟩ := e.exists_within
  -- The value is spelled by what stands between the mark before it and the mark after it.
  have whole : Within .zero false (((⟨[], []⟩ : Gathered).addAll e.tokens).whole ++ e.tag.values)
      e.data start (e.input ++ (e.lead ++ (s.attributeMarker slot ++ (z ++ [mark])))) (e.value ++ u)
      [mark] :=
    ⟨known, before, w ++ (e.pending ++ (e.lead ++ (s.attributeMarker slot ++ z))), by
      rw [input]
      simp only [List.append_assoc], spelled'.append spelled⟩
  have closed := whole.close (d := .value (e.value ++ u)) (State.isDigit_of_ends ends)
  obtain ⟨more, trail, sub⟩ := ended_from (closed.withAttribute e.name)
    (fun o between => goes_leaveValue_of_between between e.quote mark) rest
  rw [← Gathered.addAll_append, ← read, List.append_assoc rest] at *
  have after : normalizeNewlines (s.beyond segments slot) ++ ending =
      (z ++ [mark]) ++ (rest ++ ending) := by
    rw [beyond]
    simp
  have some := not_overlooked compiled fresh bound first before after trail sub
  rw [List.flatMap_singleton] at some
  obtain ⟨n, number⟩ :=
    Option.ne_none_iff_exists'.mp fun (none : s.slotOf? (e.value ++ u) = none) =>
    some (by rw [Datum.slots, none]; rfl)
  refine ⟨n, number, ?_⟩
  -- All slots are read, so the marker is read as the slot that as many others come before.
  have laid := laid_join fresh (List.ne_nil_of_length_pos (by omega))
  have text : e.input ++ (e.lead ++ (s.attributeMarker slot ++ (z ++ [mark]))) ++ (rest ++ ending) =
      normalizeNewlines (s.join segments) ++ ending := by
    rw [normalizeNewlines_join bound, e.joined, beyond]
    simp
  rw [← text, ← List.append_nil (_ ++ _)] at laid
  have range := (finds_trail (closed.trail.append trail) laid).eq_range
    (subperm_of_compile compiled sub)
  rw [List.flatMap_append, List.flatMap_append, List.flatMap_singleton, Datum.slots, number]
    at range
  rw [eq_length_of_range range]
  exact length_le_before fresh bound first before

/-- A slot in an attribute value of a skeleton that compiles stands alone there, but for zeros after
the slot 0. -/
theorem alone_of_compile (e : Enclosing s segments slot)
    (compiled : (compile s options Event.source segments).result = .ok template)
    (fresh : s.Fresh segments) (bound : slot + 1 < segments.length) :
    e.position = none ∧ e.value = [] ∧ e.lead = [] ∧ ∃ z mark rest count,
      normalizeNewlines (s.beyond segments slot) = z ++ mark :: rest ∧
      Zeros s slot e.tag e.name e.quote z mark count ∧ (count = 0 ∨ slot = 0) := by
  obtain ⟨z, mark, rest, beyond, none, ends⟩ := e.exists_ends compiled fresh bound
  obtain ⟨u, spelled', leaves⟩ := State.read_inValue e.written (e.passes_marker none) ends
  have read := e.read
  have tail : e.lead ++ (s.attributeMarker slot ++ (z ++ mark :: rest)) =
      e.lead ++ (s.attributeMarker slot ++ z) ++ mark :: rest := by
    simp only [List.append_assoc]
  rw [beyond, tail, leaves] at read
  obtain ⟨n, number, least⟩ := e.slotOf?_of_compile compiled fresh bound beyond ends spelled' read
  obtain ⟨start, w, _, _, spelled, _, first⟩ := e.exists_within
  have laid := laid_join fresh (List.ne_nil_of_length_pos (by omega))
  have text : normalizeNewlines (s.join segments) ++ ending = start ++
      (w ++ e.pending ++ e.lead ++ (s.attributeMarker slot ++ z) ++ mark :: (rest ++ ending)) := by
    rw [normalizeNewlines_join bound, first, beyond]
    simp only [List.append_assoc, List.cons_append]
  rw [text] at laid
  obtain ⟨_, _, laid⟩ := laid.drop
  have whole : Spells false (w ++ e.pending ++ e.lead ++ (s.attributeMarker slot ++ z))
      (e.value ++ u) := by
    have both := spelled.append spelled'
    simp only [List.append_assoc] at both ⊢
    exact both
  obtain ⟨empty, digits, value, zeros, all, number⟩ :=
    reading_of_slotOf? laid whole (State.isDigit_of_ends ends) number
  obtain ⟨empty, lead⟩ := List.append_eq_nil_iff.mp empty
  obtain ⟨rfl, pending⟩ := List.append_eq_nil_iff.mp empty
  have before := spelled.eq_nil_of_nil
  have position : e.position = Option.none := by
    have written := e.written
    rw [pending] at written
    generalize e.position = position at written ⊢
    cases written
    rfl
  obtain ⟨grows, same⟩ := Text.decimalValue_ofNat_append slot all
  have isZeros : digits = List.replicate digits.length '0' ∧ (digits.length = 0 ∨ slot = 0) := by
    rcases same (by omega) with rfl | ⟨zero, isZeros⟩
    · exact ⟨rfl, .inl rfl⟩
    · exact ⟨isZeros, .inr zero⟩
  refine ⟨position, before, lead, z, mark, rest, digits.length, beyond, ⟨ends, ?_, ?_⟩, isZeros.2⟩
  · rw [← isZeros.1]
    exact zeros
  · intro rest
    have marker : ∀ c ∈ s.attributeMarker slot, e.quote.ends c = false ∧ c ≠ '&' ∧
        State.kept c = c := by
      intro c member
      have inert : Inert c := inert_of_mem member
      exact ⟨inert.not_ends e.quote, inert.ne.1, if_neg inert.ne.2.2.1⟩
    have literal := State.run_value_literal marker e.tag e.name [] (z ++ mark :: rest)
    have last := leaves e.tag e.name e.value rest
    rw [lead, position, List.nil_append, List.append_assoc] at last
    rw [← isZeros.1, ← value, ← List.nil_append (s.attributeMarker slot), ← literal]
    rw [before] at last ⊢
    exact last

end Enclosing

end Template

end HtmlTemplate

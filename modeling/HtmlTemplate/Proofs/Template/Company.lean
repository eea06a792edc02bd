import HtmlTemplate.Proofs.Template.Alone
import HtmlTemplate.Proofs.Template.Canonical
import HtmlTemplate.Proofs.Template.Scan

/-!
# Slots in company

A slot in a quoted attribute value that has company there, be it text or another slot, makes a
skeleton that does not compile. There is one exception: zeros right after the slot 0 are taken for a
part of its number, and are lost (`compile_inQuoted`). A slot right after an equals sign is put in
quotation marks of its own, so that what follows it never is part of its value: the skeleton is
compiled as if a blank came first (`compile_afterEquals`).
-/

namespace HtmlTemplate

namespace Template

open Sentinel

variable {s : Sentinel} {options : Options} {before rest : List Text} {segment next : Text}
  {template : Template} {tag : Tag} {name v : Text} {quote : Quote} {position : Option Reference}

/-- The markup before the slot after a segment that comes after others. -/
def markupBefore (s : Sentinel) (before : List Text) (segment : Text) : Text :=
  normalizeNewlines (s.join (before ++ [segment]))

/-- The state of the tokenizer at the slot after a segment that comes after others. -/
def stateBefore (s : Sentinel) (before : List Text) (segment : Text) : State :=
  State.data.after (markupBefore s before segment)

/-- What is put in front of the marker of that slot. -/
def leadOf (s : Sentinel) (before : List Text) (segment : Text) : Text :=
  (edges (s.scanAt before segment) segment).1

theorem leadOf_cases (s : Sentinel) (before : List Text) (segment : Text) :
    leadOf s before segment = [] ∨ leadOf s before segment = ['"'] ∨
      leadOf s before segment = ['<', '!', '-', '-'] := by
  rcases edges_cases (s.scanAt before segment) segment with same | same | same <;>
    rw [leadOf, same] <;> simp

theorem normalizeNewlines_upTo (s : Sentinel) (before : List Text) (segment : Text)
    (others : List Text) :
    normalizeNewlines (s.upTo (before ++ segment :: others) before.length) =
      markupBefore s before segment ++ leadOf s before segment := by
  rw [upTo_eq]
  have inert : ∀ c ∈ leadOf s before segment, c ≠ '\r' ∧ c ≠ '\n' := by
    rcases leadOf_cases s before segment with same | same | same <;> rw [same] <;>
      exact List.all_iff_forall_prop.mp (by decide)
  have plain := normalizeNewlines_inert (fun c member => (inert c member).1) []
  rw [List.append_nil] at plain
  show normalizeNewlines (_ ++ leadOf s before segment) = _
  cases lead : leadOf s before segment with
  | nil =>
    rw [List.append_nil, List.append_nil]
    rfl
  | cons c lead' =>
    rw [lead] at plain inert
    rw [normalizeNewlines_append _ (inert c List.mem_cons_self).2, plain, normalizeNewlines,
      List.append_nil]
    rfl

/-- The tokens of a skeleton, from a slot on. -/
theorem read_join (s : Sentinel) (before : List Text) (segment next : Text) (rest : List Text) :
    Token.read (s.join (before ++ segment :: next :: rest)) =
      State.data.emitted (markupBefore s before segment) ++ (stateBefore s before segment).run
        (leadOf s before segment ++ (s.attributeMarker before.length ++ normalizeNewlines
          (s.beyond (before ++ segment :: next :: rest) before.length))) := by
  have bound : before.length + 1 < (before ++ segment :: next :: rest).length := by simp
  rw [Token.read, normalizeNewlines_join bound, normalizeNewlines_upTo, List.append_assoc,
    State.run_append]
  rfl

/-- What the tokenizer has found before a slot. -/
theorem follows_before (s : Sentinel) (before : List Text) (segment : Text) : ∃ data,
    Follows .zero
      ((⟨[], []⟩ : Gathered).addAll (State.data.emitted (markupBefore s before segment)))
      data (markupBefore s before segment) (stateBefore s before segment) := by
  have start : Follows .zero ⟨[], []⟩ [] [] .data :=
    ⟨[], .refl _, .start, [], rfl, .nil⟩
  obtain ⟨data, follows⟩ := follows_after start (markupBefore s before segment)
  exact ⟨data, follows⟩

/-! ## In a value -/

section Alone

variable (compiled : (compile s options Event.source (before ++ segment :: next :: rest)).result =
    .ok template)
  (fresh : s.Fresh (before ++ segment :: next :: rest))

include compiled fresh

/-- A slot in an attribute value stands alone there, if the skeleton compiles. -/
theorem alone_of_inValue (inside : stateBefore s before segment =
      State.inValue tag name quote v position)
    (passes : ∀ c ∈ leadOf s before segment, quote.ends c = false) :
    position = none ∧ v = [] ∧ leadOf s before segment = [] ∧ ∃ z mark after count,
      normalizeNewlines (s.beyond (before ++ segment :: next :: rest) before.length) =
        z ++ mark :: after ∧
      Zeros s before.length tag name quote z mark count ∧ (count = 0 ∨ before = []) := by
  obtain ⟨data, follows⟩ := follows_before s before segment
  rw [inside] at follows
  obtain ⟨pending, written, aside⟩ := follows.inValue
  have read := read_join s before segment next rest
  rw [inside] at read
  let e : Enclosing s (before ++ segment :: next :: rest) before.length :=
    ⟨tag, name, quote, v, position, pending, _, _, _, data,
      normalizeNewlines_upTo s before segment (next :: rest), read, written, aside, passes⟩
  obtain ⟨none, empty, lead, z, mark, after, count, beyond, zeros, first⟩ :=
    e.alone_of_compile compiled fresh (by simp)
  exact ⟨none, empty, lead, z, mark, after, count, beyond, zeros,
    first.imp_right List.eq_nil_of_length_eq_zero⟩

/-- A slot that begins an attribute value stands alone there, if the skeleton compiles. -/
theorem alone_of_beforeValue (inside : stateBefore s before segment = .beforeValue tag name)
    (quotes : leadOf s before segment ≠ ['"']) :
    leadOf s before segment = [] ∧ ∃ z mark after count,
      normalizeNewlines (s.beyond (before ++ segment :: next :: rest) before.length) =
        z ++ mark :: after ∧
      Zeros s before.length tag name .none z mark count ∧ (count = 0 ∨ before = []) := by
  obtain ⟨data, follows⟩ := follows_before s before segment
  rw [inside] at follows
  have begins : ∀ text, (State.beforeValue tag name).run
      (leadOf s before segment ++ (s.attributeMarker before.length ++ text)) =
        (State.inValue tag name .none [] none).run
          (leadOf s before segment ++ (s.attributeMarker before.length ++ text)) := by
    intro text
    rcases leadOf_cases s before segment with same | same | same
    · rw [same, attributeMarker_eq]
      rfl
    · exact absurd same quotes
    · rw [same]
      rfl
  have read := read_join s before segment next rest
  rw [inside, begins] at read
  have between : Between .zero (_ ++ tag.values) data (markupBefore s before segment) := follows
  let e : Enclosing s (before ++ segment :: next :: rest) before.length :=
    ⟨tag, name, .none, [], none, [], _, _, _, data,
      normalizeNewlines_upTo s before segment (next :: rest), read, .literal, between.aside, by
        rcases leadOf_cases s before segment with same | same | same
        · rw [same]
          exact fun c member => absurd member List.not_mem_nil
        · exact absurd same quotes
        · rw [same]
          exact List.all_iff_forall_prop.mp (by decide)⟩
  obtain ⟨_, _, lead, z, mark, after, count, beyond, zeros, first⟩ :=
    e.alone_of_compile compiled fresh (by simp)
  exact ⟨lead, z, mark, after, count, beyond, zeros,
    first.imp_right List.eq_nil_of_length_eq_zero⟩

end Alone

/-! ## In quotation marks of its own -/

/-- Characters of markers go on with the name of an attribute. -/
theorem run_attributeName {u : Text} (inert : ∀ c ∈ u, Inert c) (tag : Tag) (name text : Text) :
    ∃ name', (State.attributeName tag name).run (u ++ text) =
      (State.attributeName tag name').run text := by
  have none : ∀ {c}, Inert c → Text.isBlank c = false ∧ c ≠ '/' ∧ c ≠ '>' ∧ c ≠ '=' := by
    intro c inert
    have passes := inert.not_ends Quote.none
    rw [Quote.ends, Bool.or_eq_false_iff, beq_eq_false_iff_ne] at passes
    have other : ∀ d ∈ ['/', '='], c ≠ d := inert.ne_of_mem (by decide)
    exact ⟨passes.1, other _ (by simp), passes.2, other _ (by simp)⟩
  induction u generalizing name with
  | nil => exact ⟨name, rfl⟩
  | cons c u ih =>
    obtain ⟨blank, slash, last, equals⟩ := none (inert c List.mem_cons_self)
    obtain ⟨name', later⟩ := ih (fun d member => inert d (List.mem_cons_of_mem c member))
      (name ++ [State.keptInName c])
    refine ⟨name', ?_⟩
    rw [List.cons_append, State.run]
    show (State.stepAttributeName tag name c).2 ++ (State.stepAttributeName tag name c).1.run _ = _
    simp only [State.stepAttributeName, blank, slash, last, equals, if_false]
    exact later

/-- After a value a marker begins an attribute of its own. -/
theorem run_afterValue_marker (s : Sentinel) (slot : Nat) (tag : Tag) (text : Text) :
    ∃ name, (State.afterValue tag).run (s.attributeMarker slot ++ text) =
      (State.attributeName tag name).run text := by
  have inert : ∀ c ∈ s.markerTail slot, Inert c := fun c member =>
    inert_of_mem (List.mem_of_mem_tail member)
  obtain ⟨name, later⟩ := run_attributeName inert tag ['h'] text
  refine ⟨name, ?_⟩
  rw [attributeMarker_eq]
  exact later

theorem ended_from_name {g : Gathered} {data : List Datum} {input : Text}
    (h : Between .zero (g.whole ++ tag.values) data input) (name text : Text) :
    ∃ more, Trail .zero (text ++ ['"'] ++ ['"']) more ∧
      List.Subperm (g.addAll ((State.attributeName tag name).run text)).whole (data ++ more) :=
  ended_from h (fun o between =>
    (Goes.stay between : Goes o g data input (State.attributeName tag name, []))) text

/-- The quotation mark that is put in front of a marker does not end a value, if the skeleton
compiles: after it the marker would be a name. -/
theorem passes_of_compile
    (compiled : (compile s options Event.source (before ++ segment :: next :: rest)).result =
      .ok template)
    (fresh : s.Fresh (before ++ segment :: next :: rest))
    (inside : stateBefore s before segment = State.inValue tag name quote v position)
    (quoted : quote ≠ .none) : ∀ c ∈ leadOf s before segment, quote.ends c = false := by
  by_cases double : leadOf s before segment = ['"'] ∧ quote = .double
  · exfalso
    obtain ⟨lead, rfl⟩ := double
    have ends : Quote.double.ends '"' = true := rfl
    obtain ⟨data, follows⟩ := follows_before s before segment
    rw [inside] at follows
    obtain ⟨pending, written, aside⟩ := follows.inValue
    obtain ⟨u, spelled, leaves⟩ := State.leave_inValue written ends
    have closed := (((aside.hold '"').shift spelled).close (d := .value (v ++ u)) rfl
      (State.isDigit_of_ends ends)).withAttribute name
    obtain ⟨name', runs⟩ := run_afterValue_marker s before.length (tag.withAttribute name (v ++ u))
      (normalizeNewlines (s.beyond (before ++ segment :: next :: rest) before.length))
    have read := read_join s before segment next rest
    rw [inside, lead, List.singleton_append, State.run, leaves] at read
    have tokens : Token.read (s.join (before ++ segment :: next :: rest)) =
        State.data.emitted (markupBefore s before segment) ++
          (State.attributeName (tag.withAttribute name (v ++ u)) name').run
            (normalizeNewlines (s.beyond (before ++ segment :: next :: rest) before.length)) := by
      rw [read, ← runs]
      rfl
    have marked : Between .zero _ _ (markupBefore s before segment ++ ['"'] ++
        s.attributeMarker before.length) := ⟨closed.known, closed.trail.skips _⟩
    obtain ⟨more, trail, sub⟩ := ended_from_name marked name'
      (normalizeNewlines (s.beyond (before ++ segment :: next :: rest) before.length))
    rw [← Gathered.addAll_append, ← tokens, List.append_assoc _ ['"']] at *
    have start : normalizeNewlines (s.upTo (before ++ segment :: next :: rest) before.length) =
        markupBefore s before segment ++ ['"'] ++ [] := by
      rw [normalizeNewlines_upTo, lead, List.append_nil]
    rw [← List.append_nil (data ++ _)] at sub
    exact not_overlooked compiled fresh (by simp) start closed.trail
      (List.nil_append _).symm trail sub rfl
  · intro c member
    rcases leadOf_cases s before segment with same | same | same <;> rw [same] at member
    · cases member
    · rw [List.mem_singleton.mp member]
      cases quote with
      | double => exact absurd ⟨same, rfl⟩ double
      | single => rfl
      | none => exact absurd rfl quoted
    · have passes : ∀ c ∈ ['<', '!', '-', '-'], quote.ends c = false := by
        cases quote with
        | none => exact absurd rfl quoted
        | _ => exact List.all_iff_forall_prop.mp (by decide)
      exact passes c member

/-! ## Zeros -/

/-- Digits and references end nothing in a tag and begin nothing. -/
theorem ne_of_isNumeralLetter {c : Char} (h : isNumeralLetter c = true) :
    (∀ d ∈ ['=', '>', '"', '\'', '<', '/', 'h', '\n', '\r'], c ≠ d) ∧ Text.isBlank c = false := by
  have none : ∀ d ∈ '=' :: '<' :: '/' :: 'h' :: Quote.marks, isNumeralLetter d = false :=
    List.all_iff_forall_prop.mp (by decide)
  have other : ∀ d ∈ '=' :: '<' :: '/' :: 'h' :: Quote.marks, c ≠ d := by
    rintro d member rfl
    rw [none c member] at h
    cases h
  constructor
  · intro d member
    have known : ∀ d ∈ ['=', '>', '"', '\'', '<', '/', 'h', '\n', '\r'],
        d ∈ '=' :: '<' :: '/' :: 'h' :: Quote.marks := List.all_iff_forall_prop.mp (by decide)
    exact other d (known d member)
  · rw [Bool.eq_false_iff]
    intro blank
    have ends : Quote.none.ends c = true := by rw [Quote.ends, blank]; rfl
    exact other c (by simp [Quote.mem_marks ends]) rfl

theorem Zeros.isNumeralLetter {slot : Nat} {z : Text} {mark : Char} {count : Nat}
    (h : Zeros s slot tag name quote z mark count) : ∀ c ∈ z, isNumeralLetter c = true :=
  h.spelled.isNumeralLetter fun c member => by rw [(List.mem_replicate.mp member).2]; rfl

/-- Zeros may be written as they are. -/
theorem Zeros.literal {slot : Nat} {mark : Char} (ends : quote.ends mark = true) (count : Nat) :
    Zeros s slot tag name quote (List.replicate count '0') mark count := by
  refine ⟨ends, .plain _, fun rest => ?_⟩
  have plain : ∀ c ∈ List.replicate count '0', quote.ends c = false ∧ c ≠ '&' ∧
      State.kept c = c := by
    intro c member
    rw [(List.mem_replicate.mp member).2]
    cases quote <;> decide
  rw [State.run_value_literal plain, State.run_value_mark ends]

/-- Where the segments after a slot are followed, digits and references leave the place as it is. -/
theorem step_after_slot (lead : leadOf s before segment = []) {z : Text}
    (letters : ∀ c ∈ z, isNumeralLetter c = true) : ∀ c ∈ z, ∀ rest,
      (s.scanAfter (s.scanAt before segment) segment).step c rest =
        s.scanAfter (s.scanAt before segment) segment := by
  intro c member rest
  obtain ⟨other, blank⟩ := ne_of_isNumeralLetter (letters c member)
  exact (settled_scanAfter (settled_scanAt s before segment) segment).step_of_inTag
    (inTag_of_edges lead) ⟨other _ (by simp), other _ (by simp)⟩
    (.inr ⟨other _ (by simp), other _ (by simp), blank⟩) rest

theorem beyond_of_leadOf (lead : leadOf s before segment = []) (others : List Text) :
    s.beyond (before ++ segment :: others) before.length =
      s.joinFrom (s.scanAfter (s.scanAt before segment) segment) (before.length + 1) others := by
  rw [beyond_eq, edges_of_lead lead]
  rfl

/-- If a value ends after zeros, then the next segment goes so far. -/
theorem exists_next (lead : leadOf s before segment = []) {z after : Text} {mark : Char}
    (beyond : normalizeNewlines (s.beyond (before ++ segment :: next :: rest) before.length) =
      z ++ mark :: after)
    (letters : ∀ c ∈ z, isNumeralLetter c = true) (ends : quote.ends mark = true) :
    ∃ later, next = z ++ later ∧ (normalizeNewlines later).head? = some mark := by
  have lines : ∀ c ∈ z, c ≠ '\n' := fun c member =>
    (ne_of_isNumeralLetter (letters c member)).1 _ (by simp)
  rw [beyond_of_leadOf lead] at beyond
  cases rest with
  | nil =>
    obtain ⟨later, same, normal⟩ := normalizeNewlines_eq_append beyond lines
    exact ⟨later, same, by rw [normal]; rfl⟩
  | cons last rest =>
    rw [normalizeNewlines_joinFrom s _ _ next (List.cons_ne_nil _ _)] at beyond
    -- If the zeros are all of the segment, then a marker comes next, which ends no value.
    have never : normalizeNewlines next ≠ z := by
      intro all
      obtain ⟨later, same, normal⟩ := normalizeNewlines_eq_append
        (all.trans (List.append_nil z).symm) lines
      rw [normalizeNewlines_eq_nil normal, List.append_nil] at same
      subst same
      rw [all] at beyond
      have marker := List.append_cancel_left beyond
      have settled := settled_scanAfter (s := s) (settled_scanAt s before segment) segment
      have place : (s.scanAfter (s.scanAt before segment) segment).feed next =
          s.scanAfter (s.scanAt before segment) segment := by
        rw [← List.append_nil next, Scan.feed_append settled.skip (step_after_slot lead letters)]
        rfl
      rw [place, edges_of_inTag (inTag_of_edges lead), attributeMarker_eq] at marker
      rw [← (List.cons.inj marker).1, Inert.not_ends (.inl rfl)] at ends
      cases ends
    rcases List.append_eq_append_iff.mp beyond with ⟨u, short, tail⟩ | ⟨u, normal, tail⟩
    · cases u with
      | nil => exact absurd (short.trans (List.append_nil _)).symm never
      | cons c u =>
        -- Zeros do not reach beyond the segment.
        exfalso
        obtain ⟨other, _⟩ := ne_of_isNumeralLetter (letters c (by rw [short]; simp))
        rcases edges_cases ((s.scanAfter (s.scanAt before segment) segment).feed next) next with
          same | same | same <;> rw [same] at tail
        · rw [attributeMarker_eq] at tail
          exact other 'h' (by simp) (List.cons.inj tail).1.symm
        · exact other '"' (by simp) (List.cons.inj tail).1.symm
        · exact other '<' (by simp) (List.cons.inj tail).1.symm
    · cases u with
      | nil => exact absurd (normal.trans (List.append_nil z)) never
      | cons c u =>
        obtain ⟨rfl, _⟩ := List.cons.inj tail
        obtain ⟨later, same, normal⟩ := normalizeNewlines_eq_append normal lines
        exact ⟨later, same, by rw [normal]; rfl⟩

section First

variable (lead : leadOf s [] segment = [])
  (begins : ∀ text, (stateBefore s [] segment).run (s.attributeMarker 0 ++ text) =
    (State.value tag name quote (s.attributeMarker 0)).run text)

include lead begins

/-- The tokens of a skeleton whose first slot begins an attribute value. -/
theorem read_first (next : Text) (rest : List Text) :
    Token.read (s.join (segment :: next :: rest)) =
      State.data.emitted (markupBefore s [] segment) ++
        (State.value tag name quote (s.attributeMarker 0)).run (normalizeNewlines
          (s.joinFrom (s.scanAfter (s.scanAt [] segment) segment) 1 (next :: rest))) := by
  have whole := read_join s [] segment next rest
  rw [lead, beyond_of_leadOf lead] at whole
  exact whole.trans (congrArg _ (begins _))

/-- Zeros after the slot 0 are lost. -/
theorem compile_zeros {z later : Text} {mark : Char} {count : Nat} (options : Options)
    (zeros : Zeros s 0 tag name quote z mark count)
    (head : (normalizeNewlines later).head? = some mark) (rest : List Text) :
    compile s options Event.source (segment :: (z ++ later) :: rest) =
      compile s options Event.source (segment :: later :: rest) := by
  refine compile_congr options rfl ?_
  obtain ⟨after, same⟩ : ∃ after, normalizeNewlines (s.joinFrom
      (s.scanAfter (s.scanAt [] segment) segment) 1 (later :: rest)) = mark :: after := by
    obtain ⟨after, same⟩ := List.head?_eq_some_iff.mp head
    cases rest with
    | nil => exact ⟨after, same⟩
    | cons next rest =>
      rw [normalizeNewlines_joinFrom s _ _ later (List.cons_ne_nil _ _), same]
      exact ⟨_, rfl⟩
  have letters := zeros.isNumeralLetter
  have moved : s.joinFrom (s.scanAfter (s.scanAt [] segment) segment) 1 ((z ++ later) :: rest) =
      z ++ s.joinFrom (s.scanAfter (s.scanAt [] segment) segment) 1 (later :: rest) := by
    refine joinFrom_prepend (settled_scanAfter (settled_scanAt s [] segment) segment).skip
      (step_after_slot lead letters) (fun c member => ?_) s 1 later rest
    obtain ⟨other, _⟩ := ne_of_isNumeralLetter (letters c member)
    exact ⟨other _ (by simp), other _ (by simp)⟩
  have returns : ∀ c ∈ z, c ≠ '\r' := fun c member =>
    (ne_of_isNumeralLetter (letters c member)).1 _ (by simp)
  rw [read_first lead begins, read_first lead begins, moved, normalizeNewlines_inert returns, same,
    zeros.read, State.run_value_mark zeros.ends]
  have alike : State.AlikeStep s.canonical _ _ := State.alike_leaveValue
    ((Tag.Alike.refl tag).withAttribute name (s.canonical_zeros count)) quote mark
  simp only [List.map_append]
  rw [alike.tokens, State.mapValues_run alike.state]

end First

/-! ## Beginning a value -/

theorem run_marker (s : Sentinel) (slot : Nat) (tag : Tag) (name : Text) (quote : Quote)
    (text : Text) :
    (State.value tag name quote []).run (s.attributeMarker slot ++ text) =
      (State.value tag name quote (s.attributeMarker slot)).run text := by
  have literal : ∀ c ∈ s.attributeMarker slot, quote.ends c = false ∧ c ≠ '&' ∧
      State.kept c = c := by
    intro c member
    have inert : Inert c := inert_of_mem member
    exact ⟨inert.not_ends quote, inert.ne.1, if_neg inert.ne.2.2.1⟩
  exact State.run_value_literal literal tag name [] text

theorem run_marker_beforeValue (s : Sentinel) (slot : Nat) (tag : Tag) (name text : Text) :
    (State.beforeValue tag name).run (s.attributeMarker slot ++ text) =
      (State.value tag name .none (s.attributeMarker slot)).run text := by
  rw [← run_marker, attributeMarker_eq]
  rfl

/-- Without the zeros that begin it, a segment spells the token no more than with them. -/
theorem fresh_of_zeros {z later : Text} (letters : ∀ c ∈ z, isNumeralLetter c = true)
    (fresh : s.Fresh (before ++ segment :: (z ++ later) :: rest)) :
    s.Fresh (before ++ segment :: later :: rest) := by
  have returns : ∀ c ∈ z, c ≠ '\r' := fun c member =>
    (ne_of_isNumeralLetter (letters c member)).1 _ (by simp)
  have short : s.Unspelled (normalizeNewlines (z ++ later)) := fresh _ (by simp)
  rw [normalizeNewlines_inert returns] at short
  intro other member
  simp only [List.mem_append, List.mem_cons] at member
  rcases member with member | rfl | rfl | member
  · exact fresh other (by simp [member])
  · exact fresh other (by simp)
  · exact short.suffix
  · exact fresh other (by simp [member])

/-! ## In quotation marks of its own -/

theorem run_quoted_marker (s : Sentinel) (slot : Nat) (tag : Tag) (name text : Text) :
    (State.beforeValue tag name).run ('"' :: (s.attributeMarker slot ++ '"' :: text)) =
      (State.afterValue (tag.withAttribute name (s.attributeMarker slot))).run text := by
  have opens : (State.beforeValue tag name).run ('"' :: (s.attributeMarker slot ++ '"' :: text)) =
      (State.value tag name .double []).run (s.attributeMarker slot ++ '"' :: text) := rfl
  rw [opens, run_marker]
  rfl

/-- A blank after a complete value does not matter. -/
theorem run_afterValue_blank (tag : Tag) (text : Text) :
    (State.afterValue tag).run (' ' :: text) = (State.afterValue tag).run text := by
  cases text <;> rfl

section Quoted

variable (inside : stateBefore s before segment = .beforeValue tag name)
  (place : (s.scanAt before segment).place = .beforeValue)

include inside place

/-- The tokens of a skeleton with a slot right after an equals sign. -/
theorem read_quoted (next : Text) (rest : List Text) :
    Token.read (s.join (before ++ segment :: next :: rest)) =
      State.data.emitted (markupBefore s before segment) ++
        (State.afterValue (tag.withAttribute name (s.attributeMarker before.length))).run
          (normalizeNewlines (s.joinFrom (s.scanAfter (s.scanAt before segment) segment)
            (before.length + 1) (next :: rest))) := by
  rw [read_join, inside, leadOf, beyond_eq, edges_of_beforeValue place, List.singleton_append,
    List.singleton_append, normalizeNewlines_cons (by decide), run_quoted_marker]

/-- A skeleton with a slot right after an equals sign is compiled as if a blank came after the
slot. -/
theorem compile_blank (options : Options) (next : Text) (rest : List Text) :
    compile s options Event.source (before ++ segment :: next :: rest) =
      compile s options Event.source (before ++ segment :: (' ' :: next) :: rest) := by
  have settled := settled_scanAfter (s := s) (settled_scanAt s before segment) segment
  have tagPlace := place_scanAfter s place segment
  have moved : s.joinFrom (s.scanAfter (s.scanAt before segment) segment) (before.length + 1)
      ((' ' :: next) :: rest) = ' ' :: s.joinFrom (s.scanAfter (s.scanAt before segment) segment)
        (before.length + 1) (next :: rest) :=
    joinFrom_prepend (z := [' ']) settled.skip (fun c member rest => by
        rw [List.mem_singleton.mp member]
        exact settled.step_of_inTag (.inl tagPlace) (by decide) (.inl tagPlace) rest)
      (List.all_iff_forall_prop.mp (by decide)) s (before.length + 1) next rest
  refine compile_congr options (by simp) (congrArg _ ?_)
  rw [read_quoted inside place, read_quoted inside place, moved,
    normalizeNewlines_cons (by decide), run_afterValue_blank]

end Quoted

/-- A text whose lines begin with a character that ends unquoted values begins with such a
character. -/
theorem exists_cons_of_head {later : Text} {mark : Char}
    (head : (normalizeNewlines later).head? = some mark) (ends : Quote.none.ends mark = true) :
    ∃ c after, later = c :: after ∧ Quote.none.ends c = true := by
  cases later with
  | nil => cases head
  | cons c after =>
    refine ⟨c, after, rfl, ?_⟩
    by_cases isReturn : c = '\r'
    · rw [isReturn]
      decide
    · rw [normalizeNewlines_cons isReturn] at head
      rw [Option.some.inj head]
      exact ends

/-! ## Main results -/

/-- A slot in a quoted attribute value that has company there, before it or after it, makes a
skeleton that does not compile, except that zeros after the slot 0, up to the closing mark, are
lost: then the skeleton is compiled as it is without them. -/
theorem compile_inQuoted (fresh : s.Fresh (before ++ segment :: next :: rest))
    (inside : stateBefore s before segment = State.inValue tag name quote v position)
    (quoted : quote ≠ .none)
    (company : v ≠ [] ∨ position ≠ none ∨
      ∀ mark after, next = mark :: after → quote.ends mark = false) :
    (compile s options Event.source (before ++ segment :: next :: rest)).result = .ok template ↔
      before = [] ∧ v = [] ∧ position = none ∧ ∃ z mark after count, next = z ++ mark :: after ∧
        Zeros s 0 tag name quote z mark count ∧
        (compile s options Event.source (segment :: (mark :: after) :: rest)).result =
          .ok template := by
  constructor
  · intro compiled
    obtain ⟨rfl, rfl, lead, z, mark, beyond, count, split, zeros, first⟩ :=
      alone_of_inValue compiled fresh inside (passes_of_compile compiled fresh inside quoted)
    obtain ⟨later, rfl, head⟩ := exists_next lead split zeros.isNumeralLetter zeros.ends
    have line : mark ≠ '\n' := by
      rintro rfl
      cases quote with
      | none => exact quoted rfl
      | double => exact absurd zeros.ends (by decide)
      | single => exact absurd zeros.ends (by decide)
    obtain ⟨normal, same⟩ := List.head?_eq_some_iff.mp head
    obtain ⟨after, rfl, _⟩ := normalizeNewlines_eq_append (u := [mark]) same
      (fun c member => by rw [List.mem_singleton.mp member]; exact line)
    have only : before = [] := by
      rcases first with rfl | only
      · -- Without zeros the slot has no company.
        exfalso
        rw [zeros.spelled.eq_nil_of_text_nil] at company
        rcases company with value | reference | other
        · exact value rfl
        · exact reference rfl
        · have passes := other mark after rfl
          rw [zeros.ends] at passes
          cases passes
      · exact only
    subst only
    refine ⟨rfl, rfl, rfl, z, mark, after, count, rfl, zeros, ?_⟩
    have dropped := compile_zeros lead
      (fun text => by rw [inside]; exact run_marker s 0 tag name quote text) options zeros head rest
    rw [List.singleton_append] at dropped
    rw [← dropped]
    exact compiled
  · rintro ⟨rfl, rfl, rfl, z, mark, after, count, rfl, zeros, compiled⟩
    have fresh' : s.Fresh ([] ++ segment :: (mark :: after) :: rest) :=
      fresh_of_zeros zeros.isNumeralLetter fresh
    have compiled' :
        (compile s options Event.source ([] ++ segment :: (mark :: after) :: rest)).result =
        .ok template := compiled
    obtain ⟨_, _, lead, _⟩ := alone_of_inValue compiled' fresh' inside
      (passes_of_compile compiled' fresh' inside quoted)
    have returns : mark ≠ '\r' := by
      rintro rfl
      cases quote with
      | none => exact quoted rfl
      | double => exact absurd zeros.ends (by decide)
      | single => exact absurd zeros.ends (by decide)
    have head : (normalizeNewlines (mark :: after)).head? = some mark := by
      rw [normalizeNewlines_cons returns]
      rfl
    have dropped := compile_zeros lead
      (fun text => by rw [inside]; exact run_marker s 0 tag name quote text) options zeros head rest
    rw [← dropped] at compiled
    exact compiled

/-- The sentinel of the simplest token. -/
def simplest : Sentinel := ⟨'h' :: 'w' :: List.replicate 32 '0', by decide⟩

/-- A zero after the slot in `<p class="…">x</p>` is lost. -/
theorem compile_inQuoted_zero : (compile simplest {} Event.source
      [['<', 'p', ' ', 'c', 'l', 'a', 's', 's', '=', '"'],
        ['0', '"', '>', 'x', '<', '/', 'p', '>']]).result =
    .ok ⟨[['<', 'p', ' ', 'c', 'l', 'a', 's', 's', '=', '"'],
      ['"', '>', 'x', '<', '/', 'p', '>']], [.generic], rfl⟩ := by
  have fresh : simplest.Fresh ([] ++ ['<', 'p', ' ', 'c', 'l', 'a', 's', 's', '=', '"'] ::
      ['0', '"', '>', 'x', '<', '/', 'p', '>'] :: []) := fresh_of_plain (by decide)
  have inside : stateBefore simplest [] ['<', 'p', ' ', 'c', 'l', 'a', 's', 's', '=', '"'] =
      State.inValue ⟨false, ['p'], []⟩ ['c', 'l', 'a', 's', 's'] .double [] none := rfl
  refine (compile_inQuoted fresh inside (by decide) (.inr (.inr ?_))).mpr
    ⟨rfl, rfl, rfl, ['0'], '"', ['>', 'x', '<', '/', 'p', '>'], 1, rfl, .literal rfl 1, rfl⟩
  rintro mark after same
  rw [← (List.cons.inj same).1]
  rfl

/-- What follows a slot right after an equals sign never is a part of its value. Where the segments
are known to be before a value, the marker is put in quotation marks, and the skeleton is compiled
as if a blank followed. Elsewhere the skeleton does not compile if the value goes on, except that
zeros after the slot 0 are lost. -/
theorem compile_afterEquals (inside : stateBefore s before segment = .beforeValue tag name) :
    ((s.scanAt before segment).place = .beforeValue →
      compile s options Event.source (before ++ segment :: next :: rest) =
        compile s options Event.source (before ++ segment :: (' ' :: next) :: rest)) ∧
    ((s.scanAt before segment).place ≠ .beforeValue →
      s.Fresh (before ++ segment :: next :: rest) →
      (∀ mark after, next = mark :: after → Quote.none.ends mark = false) → ∀ template,
      ((compile s options Event.source (before ++ segment :: next :: rest)).result = .ok template ↔
        before = [] ∧ ∃ z mark later count, next = z ++ later ∧
          (normalizeNewlines later).head? = some mark ∧ Zeros s 0 tag name .none z mark count ∧
          (compile s options Event.source (segment :: later :: rest)).result = .ok template)) := by
  refine ⟨fun place => compile_blank inside place options next rest,
    fun place fresh goesOn template => ?_⟩
  have quotes : leadOf s before segment ≠ ['"'] := fun same => place (place_of_edges same)
  constructor
  · intro compiled
    obtain ⟨lead, z, mark, beyond, count, split, zeros, first⟩ :=
      alone_of_beforeValue compiled fresh inside quotes
    obtain ⟨later, rfl, head⟩ := exists_next lead split zeros.isNumeralLetter zeros.ends
    have only : before = [] := by
      rcases first with rfl | only
      · -- Without zeros the value does not go on.
        exfalso
        rw [zeros.spelled.eq_nil_of_text_nil, List.nil_append] at goesOn
        obtain ⟨c, after, rfl, ends⟩ := exists_cons_of_head head zeros.ends
        have passes := goesOn c after rfl
        rw [ends] at passes
        cases passes
      · exact only
    subst only
    refine ⟨rfl, z, mark, later, count, rfl, head, zeros, ?_⟩
    rw [← compile_zeros lead
      (fun text => by rw [inside]; exact run_marker_beforeValue s 0 tag name text)
      options zeros head rest]
    exact compiled
  · rintro ⟨rfl, z, mark, later, count, rfl, head, zeros, compiled⟩
    have fresh' : s.Fresh ([] ++ segment :: later :: rest) :=
      fresh_of_zeros zeros.isNumeralLetter fresh
    have compiled' : (compile s options Event.source ([] ++ segment :: later :: rest)).result =
        .ok template := compiled
    obtain ⟨lead, _⟩ := alone_of_beforeValue compiled' fresh' inside quotes
    have dropped := compile_zeros lead
      (fun text => by rw [inside]; exact run_marker_beforeValue s 0 tag name text)
      options zeros head rest
    rw [← dropped] at compiled
    exact compiled

/-- What follows the slot in `<a href=…/path>x</a>` becomes other attributes; in `<a ==…0 b>`, where
the place of the slot is lost, a zero after it is lost. -/
theorem compile_afterEquals_path : (compile simplest {} Event.source
      [['<', 'a', ' ', 'h', 'r', 'e', 'f', '='],
        ['/', 'p', 'a', 't', 'h', '>', 'x', '<', '/', 'a', '>']]).result =
      .ok ⟨[['<', 'a', ' ', 'p', 'a', 't', 'h', '=', '"', '"', ' ', 'h', 'r', 'e', 'f', '=', '"'],
        ['"', '>', 'x', '<', '/', 'a', '>']], [.generic], rfl⟩ ∧
    (compile simplest {} Event.source [['<', 'a', ' ', '=', '='], ['0', ' ', 'b', '>']]).result =
      .ok ⟨[['<', 'a', ' ', 'b', '=', '"', '"', ' ', '=', '=', '"'], ['"', '>']],
        [.generic], rfl⟩ := by
  constructor
  · have inside : stateBefore simplest [] ['<', 'a', ' ', 'h', 'r', 'e', 'f', '='] =
        .beforeValue ⟨false, ['a'], []⟩ ['h', 'r', 'e', 'f'] := rfl
    have spaced : compile simplest {} Event.source ([] ++ _ :: _ :: []) =
        compile simplest {} Event.source
          ([] ++ _ :: (' ' :: ['/', 'p', 'a', 't', 'h', '>', 'x', '<', '/', 'a', '>']) :: []) :=
      (compile_afterEquals inside).1 rfl
    exact (congrArg Noted.result spaced).trans rfl
  · have inside : stateBefore simplest [] ['<', 'a', ' ', '=', '='] =
        .beforeValue ⟨false, ['a'], []⟩ ['='] := rfl
    have fresh : simplest.Fresh ([] ++ ['<', 'a', ' ', '=', '='] :: ['0', ' ', 'b', '>'] :: []) :=
      fresh_of_plain (by decide)
    refine ((compile_afterEquals inside).2 (by decide) fresh ?_ _).mpr
      ⟨rfl, ['0'], ' ', [' ', 'b', '>'], 1, rfl, rfl, .literal rfl 1, rfl⟩
    rintro mark after same
    rw [← (List.cons.inj same).1]
    rfl

end Template

end HtmlTemplate

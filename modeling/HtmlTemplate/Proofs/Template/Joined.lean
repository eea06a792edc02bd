import HtmlTemplate.Markup.Tokenizer
import HtmlTemplate.Proofs.Template.Layout
import Mathlib.Data.List.Infix

/-!
# Joined segments

The joined text of a skeleton is cut at any of its markers into what comes up to the marker and what
comes beyond it (`join_eq`). As far as markers go, it is laid out as it was joined (`laid_join`).
-/

namespace HtmlTemplate

/-! ## Line ends -/

theorem normalizeNewlines_cons {c : Char} (other : c ≠ '\r') (text : Text) :
    normalizeNewlines (c :: text) = c :: normalizeNewlines text := by
  rw [normalizeNewlines]
  · rintro _ rfl _
    exact other rfl
  · rintro rfl
    exact other rfl

theorem normalizeNewlines_return {text : Text} (other : ∀ rest, text = '\n' :: rest → False) :
    normalizeNewlines ('\r' :: text) = '\n' :: normalizeNewlines text := by
  rw [normalizeNewlines]
  exact other

/-- Lines before a character that is no line feed do not depend on what follows. -/
theorem normalizeNewlines_append (before : Text) {c : Char} (other : c ≠ '\n') (after : Text) :
    normalizeNewlines (before ++ c :: after) =
      normalizeNewlines before ++ normalizeNewlines (c :: after) := by
  induction before using normalizeNewlines.induct with
  | case1 before ih =>
    rw [List.cons_append, List.cons_append, normalizeNewlines, normalizeNewlines, ih]
    rfl
  | case2 before none ih =>
    rw [List.cons_append, normalizeNewlines_return none, normalizeNewlines_return, ih]
    · rfl
    · intro text same
      cases before with
      | nil => exact other (List.cons.inj same).1
      | cons d before => exact none before (by rw [(List.cons.inj same).1])
  | case3 d before _ notReturn ih =>
    rw [List.cons_append, normalizeNewlines_cons notReturn, normalizeNewlines_cons notReturn, ih]
    rfl
  | case4 => rfl

/-- What a normalized text begins with is there literally, up to its first line feed. -/
theorem normalizeNewlines_eq_append {text u rest : Text} (h : normalizeNewlines text = u ++ rest)
    (other : ∀ c ∈ u, c ≠ '\n') : ∃ after, text = u ++ after ∧ normalizeNewlines after = rest := by
  induction u generalizing text with
  | nil => exact ⟨text, rfl, h⟩
  | cons c u ih =>
    have first := other c List.mem_cons_self
    induction text using normalizeNewlines.induct with
    | case1 text _ =>
      rw [normalizeNewlines] at h
      exact absurd (List.cons.inj h).1.symm first
    | case2 text none _ =>
      rw [normalizeNewlines_return none] at h
      exact absurd (List.cons.inj h).1.symm first
    | case3 d text _ notReturn _ =>
      rw [normalizeNewlines_cons notReturn] at h
      obtain ⟨rfl, later⟩ := List.cons.inj h
      obtain ⟨after, rfl, same⟩ := ih later fun e member => other e (List.mem_cons_of_mem d member)
      exact ⟨after, rfl, same⟩
    | case4 => cases h

theorem normalizeNewlines_eq_nil {text : Text} (h : normalizeNewlines text = []) : text = [] := by
  induction text using normalizeNewlines.induct with
  | case1 text _ =>
    rw [normalizeNewlines] at h
    cases h
  | case2 text none _ =>
    rw [normalizeNewlines_return none] at h
    cases h
  | case3 c text _ notReturn _ =>
    rw [normalizeNewlines_cons notReturn] at h
    cases h
  | case4 => rfl

/-- Text without carriage returns stays as it is. -/
theorem normalizeNewlines_inert {u : Text} (inert : ∀ c ∈ u, c ≠ '\r') (text : Text) :
    normalizeNewlines (u ++ text) = u ++ normalizeNewlines text := by
  induction u with
  | nil => rfl
  | cons c u ih =>
    rw [List.cons_append, normalizeNewlines_cons (inert c List.mem_cons_self),
      ih fun d member => inert d (List.mem_cons_of_mem c member)]
    rfl

namespace Sentinel

variable {s : Sentinel}

/-! ## Around markers -/

/-- What stands right before and right after the marker of a slot. -/
def edges (scan : Scan) (segment : Text) : Text × Text :=
  match scan.place with
  | .beforeValue => (['"'], ['"'])
  | .content => if opensTag segment then ([], []) else (['<', '!', '-', '-'], ['-', '-', '>'])
  | .comment => (['<', '!', '-', '-'], ['-', '-', '>'])
  | .rawText _ => (['<', '!', '-', '-'], ['-', '-', '>'])
  | _ => ([], [])

/-- How far the segments have been followed after a slot. -/
def scanAfter (s : Sentinel) (scan : Scan) (segment : Text) : Scan := (s.hold scan 0 segment).2

theorem hold_eq (s : Sentinel) (scan : Scan) (slot : Nat) (segment : Text) :
    s.hold scan slot segment =
      ((edges scan segment).1 ++ (s.attributeMarker slot ++ (edges scan segment).2),
        s.scanAfter scan segment) := by
  unfold scanAfter hold edges
  cases scan.place with
  | content => by_cases opens : opensTag segment = true <;> simp [opens, commentMarker]
  | _ => simp [commentMarker]

/-- The edges of a marker are nothing, quotation marks or the marks of a comment. -/
theorem edges_cases (scan : Scan) (segment : Text) :
    edges scan segment = ([], []) ∨ edges scan segment = (['"'], ['"']) ∨
      edges scan segment = (['<', '!', '-', '-'], ['-', '-', '>']) := by
  unfold edges
  cases scan.place with
  | content => by_cases opens : opensTag segment = true <;> simp [opens]
  | _ => simp

/-- Something that may stand after a marker. -/
def IsEdge (edge : Text) : Prop := edge = [] ∨ edge = ['"'] ∨ edge = ['-', '-', '>']

theorem isEdge_edges (scan : Scan) (segment : Text) : IsEdge (edges scan segment).2 := by
  rcases edges_cases scan segment with same | same | same <;> rw [same]
  · exact .inl rfl
  · exact .inr (.inl rfl)
  · exact .inr (.inr rfl)

theorem IsEdge.inert {edge : Text} (h : IsEdge edge) :
    ∀ c ∈ edge, c ≠ 'h' ∧ c ≠ '&' ∧ c ≠ '\r' := by
  rcases h with rfl | rfl | rfl <;> exact List.all_iff_forall_prop.mp (by decide)

/-! ## Up to a marker and beyond -/

/-- The joined text up to the marker of the slot after so many others. -/
def upToFrom (s : Sentinel) (scan : Scan) (slot : Nat) : List Text → Nat → Text
  | [], _ => []
  | segment :: _, 0 => segment ++ (edges (scan.feed segment) segment).1
  | segment :: rest, k + 1 =>
    segment ++ (s.hold (scan.feed segment) slot segment).1 ++
      s.upToFrom (s.scanAfter (scan.feed segment) segment) (slot + 1) rest k

/-- The joined text beyond the marker of the slot after so many others. -/
def beyondFrom (s : Sentinel) (scan : Scan) (slot : Nat) : List Text → Nat → Text
  | [], _ => []
  | segment :: rest, 0 =>
    (edges (scan.feed segment) segment).2 ++
      s.joinFrom (s.scanAfter (scan.feed segment) segment) (slot + 1) rest
  | segment :: rest, k + 1 =>
    s.beyondFrom (s.scanAfter (scan.feed segment) segment) (slot + 1) rest k

theorem joinFrom_cons (s : Sentinel) (scan : Scan) (slot : Nat) (segment : Text)
    {rest : List Text} (more : rest ≠ []) :
    s.joinFrom scan slot (segment :: rest) =
      segment ++ (s.hold (scan.feed segment) slot segment).1 ++
        s.joinFrom (s.scanAfter (scan.feed segment) segment) (slot + 1) rest := by
  cases rest with
  | nil => exact absurd rfl more
  | cons next rest =>
    rw [joinFrom, hold_eq]

theorem joinFrom_eq (scan : Scan) (slot : Nat) {k : Nat} {segments : List Text}
    (bound : k + 1 < segments.length) :
    s.joinFrom scan slot segments = s.upToFrom scan slot segments k ++
      (s.attributeMarker (slot + k) ++ s.beyondFrom scan slot segments k) := by
  induction k generalizing scan slot segments with
  | zero =>
    match segments, bound with
    | segment :: next :: rest, _ =>
      rw [joinFrom_cons s scan slot segment (List.cons_ne_nil _ _), hold_eq, upToFrom, beyondFrom]
      simp only [List.append_assoc, Nat.add_zero]
  | succ k ih =>
    match segments, bound with
    | segment :: next :: rest, bound =>
      rw [joinFrom_cons s scan slot segment (List.cons_ne_nil _ _),
        ih _ _ (Nat.lt_of_succ_lt_succ bound), upToFrom, beyondFrom, Nat.add_right_comm slot 1 k]
      simp only [List.append_assoc]
      rfl

/-- The joined text up to the marker of a slot. -/
def upTo (s : Sentinel) (segments : List Text) (slot : Nat) : Text :=
  s.upToFrom Scan.start 0 segments slot

/-- The joined text beyond the marker of a slot. -/
def beyond (s : Sentinel) (segments : List Text) (slot : Nat) : Text :=
  s.beyondFrom Scan.start 0 segments slot

theorem join_eq {segments : List Text} {slot : Nat} (bound : slot + 1 < segments.length) :
    s.join segments = s.upTo segments slot ++
      (s.attributeMarker slot ++ s.beyond segments slot) := by
  have whole := joinFrom_eq (s := s) Scan.start 0 bound
  rw [Nat.zero_add] at whole
  exact whole

theorem normalizeNewlines_join {segments : List Text} {slot : Nat}
    (bound : slot + 1 < segments.length) :
    normalizeNewlines (s.join segments) = normalizeNewlines (s.upTo segments slot) ++
      (s.attributeMarker slot ++ normalizeNewlines (s.beyond segments slot)) := by
  rw [join_eq bound, attributeMarker_eq, List.cons_append,
    normalizeNewlines_append _ (by decide), ← List.cons_append, ← attributeMarker_eq,
    normalizeNewlines_inert fun c member => (inert_of_mem member).ne.2.2.2.1]

/-! ## Layout -/

theorem beyondFrom_eq (scan : Scan) (slot : Nat) {k : Nat} {segments : List Text}
    (bound : k + 1 < segments.length) :
    ∃ edge next, IsEdge edge ∧ s.beyondFrom scan slot segments k =
      edge ++ s.joinFrom next (slot + k + 1) (segments.drop (k + 1)) := by
  induction k generalizing scan slot segments with
  | zero =>
    match segments, bound with
    | segment :: next :: rest, _ => exact ⟨_, _, isEdge_edges _ _, rfl⟩
  | succ k ih =>
    match segments, bound with
    | segment :: next :: rest, bound =>
      obtain ⟨edge, later, isEdge, same⟩ := ih _ _ (Nat.lt_of_succ_lt_succ bound)
      refine ⟨edge, later, isEdge, ?_⟩
      rw [beyondFrom, same, Nat.add_right_comm slot 1 k]
      rfl

/-- Two quotation marks at the end, which end whatever goes on there. -/
def ending : Text := ['"', '"']

theorem laid_ending : s.Laid ending [] := by
  have whole : s.Laid (ending ++ []) [] :=
    Laid.nil.prepend (List.all_iff_forall_prop.mp (by decide))
  exact whole

theorem barrier_lead (scan : Scan) (segment : Text) (slot : Nat) (text : Text) :
    Barrier ((edges scan segment).1 ++ (s.attributeMarker slot ++ text)) ∧
      ∃ c rest, c ≠ '\n' ∧
        (edges scan segment).1 ++ (s.attributeMarker slot ++ text) = c :: rest := by
  rcases edges_cases scan segment with same | same | same <;> rw [same, attributeMarker_eq]
  · exact ⟨.inr (.inl ⟨_, rfl⟩), _, _, by decide, rfl⟩
  · exact ⟨.inr (.inr (.inl ⟨_, rfl⟩)), _, _, by decide, rfl⟩
  · exact ⟨.inr (.inr (.inr ⟨_, rfl⟩)), _, _, by decide, rfl⟩

theorem normalizeNewlines_joinFrom (s : Sentinel) (scan : Scan) (slot : Nat) (segment : Text)
    {rest : List Text} (more : rest ≠ []) :
    normalizeNewlines (s.joinFrom scan slot (segment :: rest)) = normalizeNewlines segment ++
      ((edges (scan.feed segment) segment).1 ++ (s.attributeMarker slot ++
        ((edges (scan.feed segment) segment).2 ++ normalizeNewlines
          (s.joinFrom (s.scanAfter (scan.feed segment) segment) (slot + 1) rest)))) := by
  have leads : ∀ c ∈ (edges (scan.feed segment) segment).1, c ≠ '\r' := by
    rcases edges_cases (scan.feed segment) segment with same | same | same <;> rw [same] <;>
      exact List.all_iff_forall_prop.mp (by decide)
  rw [joinFrom_cons s scan slot segment more, hold_eq]
  simp only [List.append_assoc]
  obtain ⟨_, c, after, other, same⟩ := barrier_lead (s := s) (scan.feed segment) segment slot
    ((edges (scan.feed segment) segment).2 ++
      s.joinFrom (s.scanAfter (scan.feed segment) segment) (slot + 1) rest)
  rw [same, normalizeNewlines_append _ other, ← same, normalizeNewlines_inert leads,
    normalizeNewlines_inert fun c member => (inert_of_mem member).ne.2.2.2.1,
    normalizeNewlines_inert fun c member => ((isEdge_edges _ _).inert c member).2.2]

/-- No segment spells the token, whatever the tokenizer makes of line ends. -/
def Fresh (s : Sentinel) (segments : List Text) : Prop :=
  ∀ segment ∈ segments, s.Unspelled (normalizeNewlines segment)

/-- A text without references, nulls and empty end tags. -/
structure Plain (text : Text) : Prop where
  references : '&' ∉ text
  nulls : State.null ∉ text
  gaps : ¬ ['<', '/', '>'] <:+: text

instance (text : Text) : Decidable (Plain text) :=
  decidable_of_iff ('&' ∉ text ∧ State.null ∉ text ∧ ¬ ['<', '/', '>'] <:+: text)
    ⟨fun h => ⟨h.1, h.2.1, h.2.2⟩, fun h => ⟨h.references, h.nulls, h.gaps⟩⟩

theorem Plain.part {w text : Text} (h : Plain text) (part : w <:+: text) : Plain w :=
  ⟨fun member => h.references (part.subset member), fun member => h.nulls (part.subset member),
    fun gap => h.gaps (gap.trans part)⟩

/-- A plain text can be read in one way only. -/
theorem Plain.eq_of_spells {gaps : Bool} {w v : Text} (plain : Plain w) (h : Spells gaps w v) :
    v = w := by
  induction h with
  | nil => rfl
  | @cons r t w v piece _ ih =>
    rw [ih (plain.part (List.suffix_append r w).isInfix)]
    cases piece with
    | plain c => rfl
    | null => exact absurd (by simp) plain.nulls
    | numeral _ _ => exact absurd (by simp) plain.references
    | named _ => exact absurd (by simp) plain.references
    | gap _ => exact absurd (List.prefix_append _ w).isInfix plain.gaps

/-- Plain segments that do not contain the token do not spell it in any other way. -/
theorem fresh_of_plain {segments : List Text} (plain : ∀ segment ∈ segments,
      Plain (normalizeNewlines segment) ∧ ¬ s.token <:+: normalizeNewlines segment) :
    s.Fresh segments := by
  intro segment member x w y v split spelled token
  obtain ⟨plain, none⟩ := plain segment member
  have part : w <:+: normalizeNewlines segment := ⟨x, y, by rw [split, List.append_assoc]⟩
  rw [(plain.part part).eq_of_spells spelled] at token
  exact none (token.trans part)

theorem laid_joinFrom {segments : List Text} (fresh : s.Fresh segments) (some : segments ≠ [])
    (scan : Scan) (slot : Nat) {edge : Text} (isEdge : IsEdge edge) :
    s.Laid (edge ++ normalizeNewlines (s.joinFrom scan slot segments) ++ ending)
      (List.range' slot (segments.length - 1)) := by
  have front : ∀ {text slots}, s.Laid text slots → s.Laid (edge ++ text) slots :=
    fun laid => laid.prepend fun c member =>
      ⟨(isEdge.inert c member).1, (isEdge.inert c member).2.1⟩
  rw [List.append_assoc]
  refine front ?_
  clear front
  induction segments generalizing scan slot edge with
  | nil => exact absurd rfl some
  | cons segment rest ih =>
    have here : s.Unspelled (normalizeNewlines segment) := fresh segment List.mem_cons_self
    cases rest with
    | nil => exact laid_ending.segment here (.inr (.inr (.inl ⟨_, rfl⟩)))
    | cons next rest =>
      have later := ih (fun other member => fresh other (List.mem_cons_of_mem segment member))
        (List.cons_ne_nil _ _) (s.scanAfter (scan.feed segment) segment) (slot + 1)
        (isEdge_edges (scan.feed segment) segment)
      have trail := later.prepend (u := (edges (scan.feed segment) segment).2)
        fun c member => ⟨((isEdge_edges _ _).inert c member).1,
          ((isEdge_edges _ _).inert c member).2.1⟩
      have leads : ∀ c ∈ (edges (scan.feed segment) segment).1, c ≠ 'h' ∧ c ≠ '&' := by
        rcases edges_cases (scan.feed segment) segment with same | same | same <;> rw [same] <;>
          exact List.all_iff_forall_prop.mp (by decide)
      rw [normalizeNewlines_joinFrom s scan slot segment (List.cons_ne_nil _ _)]
      simp only [List.append_assoc] at trail ⊢
      exact ((trail.marked slot).prepend leads).segment here (barrier_lead _ _ _ _).1

/-- In the joined text of segments that do not spell the token, it is found in the markers only. -/
theorem laid_join {segments : List Text} (fresh : s.Fresh segments) (some : segments ≠ []) :
    s.Laid (normalizeNewlines (s.join segments) ++ ending) (List.range (segments.length - 1)) := by
  rw [List.range_eq_range']
  exact laid_joinFrom fresh some Scan.start 0 (.inl rfl)

theorem laid_beyond {segments : List Text} (fresh : s.Fresh segments) {slot : Nat}
    (bound : slot + 1 < segments.length) :
    s.Laid (normalizeNewlines (s.beyond segments slot) ++ ending)
      (List.range' (slot + 1) (segments.length - 1 - (slot + 1))) := by
  obtain ⟨edge, next, isEdge, same⟩ := beyondFrom_eq (s := s) Scan.start 0 bound
  have later : s.Fresh (segments.drop (slot + 1)) := fun segment member =>
    fresh segment (List.mem_of_mem_drop member)
  have some : segments.drop (slot + 1) ≠ [] := by
    rw [← List.length_pos_iff, List.length_drop]
    omega
  have laid := laid_joinFrom later some next (slot + 1) isEdge
  rw [List.length_drop] at laid
  rw [beyond, same, normalizeNewlines_inert fun c member => (isEdge.inert c member).2.2,
    Nat.zero_add, show segments.length - 1 - (slot + 1) = segments.length - (slot + 1) - 1 by omega]
  exact laid

end Sentinel

end HtmlTemplate

import HtmlTemplate.Proofs.Template.Weighing

/-!
# Segments without the token

A segment does not contain the token if no reading of it does, and if it cannot be gathered from
texts that only end tags of elements without content keep apart, since these leave nothing in a
template (`Sentinel.Absent`). Then no token is found on account of the segment, wherever the
tokenizer is when it begins (`Gauge.holds_segment`), and in joined segments there are no more tokens
than markers (`total_join_le`).
-/

namespace HtmlTemplate

namespace Token

/-- The character that a token is, if it is one. -/
def char? : Token → Option Char
  | character c => some c
  | _ => none

/-- The text of tokens. -/
def text (tokens : List Token) : Text := tokens.filterMap char?

/-- Whether a token leaves the texts around it next to each other. -/
def joins : Token → Bool
  | character _ => true
  | endTag name => Vocabulary.isVoid name
  | _ => false

/-- The text up to the first token that leaves something else in a template. -/
def leading (tokens : List Token) : Text := text (tokens.takeWhile joins)

theorem text_append (tokens others : List Token) :
    text (tokens ++ others) = text tokens ++ text others := List.filterMap_append

theorem text_characters (u : Text) : text (characters u) = u := by
  induction u with
  | nil => rfl
  | cons c u ih =>
    show c :: text (characters u) = _
    rw [ih]

theorem joins_characters (u : Text) : ∀ token ∈ characters u, token.joins = true := by
  intro token member
  obtain ⟨c, _, rfl⟩ := List.mem_map.mp member
  rfl

theorem leading_append {tokens : List Token} (all : ∀ token ∈ tokens, token.joins = true)
    (others : List Token) : leading (tokens ++ others) = text tokens ++ leading others := by
  rw [leading, List.takeWhile_append_of_pos all, text_append]
  rfl

theorem leading_characters (u : Text) : leading (characters u) = u := by
  have whole := leading_append (joins_characters u) []
  rw [List.append_nil, text_characters] at whole
  rw [whole]
  exact List.append_nil u

end Token

namespace Sentinel

variable {s : Sentinel} {segment before w rest : Text}

/-- A text may begin: at the very beginning, or after a mark. -/
def Starts (before : Text) : Prop := before = [] ∨ before.getLast? = some '>'

/-- A segment without the token. -/
structure Absent (s : Sentinel) (segment : Text) : Prop where
  /-- It is not there, however the segment is read. -/
  readings (r : Reading) : ¬ s.token <:+: r.textOf segment
  /-- It is not there when the end tags that leave nothing are left out. -/
  gathered {before w : Text} : segment = before ++ w → Starts before →
    ¬ s.token <:+: Token.leading (State.data.run w)

instance : DecidablePred Starts := fun _ => inferInstanceAs (Decidable (_ ∨ _))

theorem absent_iff : s.Absent segment ↔
    (∀ r ∈ [Reading.verbatim, .lowered, .decoded false, .decoded true],
      ¬ s.token <:+: r.textOf segment) ∧
    ∀ k < segment.length + 1, Starts (segment.take k) →
      ¬ s.token <:+: Token.leading (State.data.run (segment.drop k)) := by
  constructor
  · exact fun h => ⟨fun r _ => h.readings r, fun k _ =>
      h.gathered (List.take_append_drop k segment).symm⟩
  · rintro ⟨readings, gathered⟩
    refine ⟨fun r => readings r ?_, ?_⟩
    · cases r with
      | decoded inAttribute => cases inAttribute <;> simp
      | _ => simp
    · intro before w split starts
      have here := gathered before.length
      rw [split, List.take_left, List.drop_left, List.length_append] at here
      exact here (by omega) starts

instance (s : Sentinel) (segment : Text) : Decidable (s.Absent segment) :=
  decidable_of_iff _ absent_iff.symm

theorem kept_of_isTokenLetter {c : Char} (h : isTokenLetter c = true) : State.kept c = c := by
  refine State.kept_of_ne ?_
  rintro rfl
  exact absurd h (by decide)

theorem map_kept_token (s : Sentinel) : s.token.map State.kept = s.token := by
  have same : s.token.map State.kept = s.token.map id :=
    List.map_congr_left fun c member => kept_of_isTokenLetter (isTokenLetter_of_mem member)
  rw [same, List.map_id]

namespace Absent

variable (absent : s.Absent segment)

include absent

theorem count_literal {u : Text} (h : u <:+: segment) : s.count u = 0 := by
  refine count_eq_zero fun inside => absent.readings .verbatim ?_
  have kept := (inside.trans h).map State.kept
  rw [map_kept_token] at kept
  rw [Reading.textOf_verbatim]
  exact kept

theorem count_gathered (split : segment = before ++ (w ++ rest)) (starts : Starts before)
    (joins : ∀ token ∈ State.data.emitted w, token.joins = true) :
    s.count (Token.text (State.data.emitted w) ++
      Token.leading ((State.data.after w).run rest)) = 0 := by
  have none := count_eq_zero (absent.gathered split starts)
  rw [State.run_append, Token.leading_append joins] at none
  exact none

theorem count_read {r : Reading} (split : segment = before ++ (w ++ rest))
    (apart : (r.read none before).2 = none) : s.count (r.read none w).1 = 0 := by
  refine count_eq_zero fun inside => absent.readings r ?_
  rw [split]
  exact inside.trans (Reading.read_infix apart rest)

end Absent

end Sentinel

namespace Gauge

open Sentinel

variable {s : Sentinel} {l : Ledger} {bound m : Nat} {state next : State} {c : Char}
  {segment seen run u : Text} {pending : Option Reference}

/-! ## What is known within a segment -/

/-- A name that is being read as a reference is literally there. -/
def Literal (seen : Text) (pending : Option Reference) : Prop :=
  ∀ name, pending = some (.named name) → '&' :: name <:+ seen ∧ ';' ∉ name

/-- The text is what it was before the segment or before a mark in it, and what the segment adds to
it from there on. -/
def Gathers (s : Sentinel) (seen : Text) (state : State) (run : Text) (m : Nat) : Prop :=
  ∃ before w earlier, seen = before ++ w ∧ Starts before ∧ state = State.data.after w ∧
    (∀ token ∈ State.data.emitted w, token.joins = true) ∧
    run = earlier ++ Token.text (State.data.emitted w) ∧ s.worth earlier ≤ m

/-- Texts are known by the part of the segment that has been seen. -/
def seeing (s : Sentinel) (seen : Text) : Gauge where
  text state run m := Literal seen state.reference? ∧ Gathers s seen state run m
  ending state run m := Gathers s seen state run m ∨ s.worth run ≤ m
  part r pending u m := Literal seen pending ∧ ∃ before w earlier v, seen = before ++ w ∧
    (r.read none before).2 = none ∧ r.read none w = (v, pending) ∧ u = earlier ++ v ∧
    s.worth earlier ≤ m
  clean := ∀ r : Reading, (r.read none seen).2 = none

theorem literal_none (seen : Text) : Literal seen none := fun _ same => by cases same

theorem Literal.take (h : Literal seen pending) (r : Reading) (c : Char) :
    Literal (seen ++ [c]) (r.take pending c).2 := by
  intro name same
  rcases Reading.take_eq_named same with ⟨rfl, rfl⟩ | ⟨before, rfl, rfl, letter⟩
  · exact ⟨List.suffix_append seen ['&'], List.not_mem_nil⟩
  · obtain ⟨⟨front, rfl⟩, open'⟩ := h before rfl
    refine ⟨⟨front, by simp⟩, fun member => ?_⟩
    rcases List.mem_append.mp member with member | member
    · exact open' member
    · rw [← List.mem_singleton.mp member] at letter
      exact absurd letter (by decide)

theorem Gathers.count (absent : s.Absent segment) (within : seen <+: segment)
    (h : Gathers s seen state run m) : s.count run ≤ m := by
  obtain ⟨before, w, earlier, rfl, starts, _, joins, rfl, light⟩ := h
  obtain ⟨rest, rfl⟩ := within
  have none := absent.count_gathered (List.append_assoc _ _ _) starts joins
  have part := s.count_le_append (Token.text (State.data.emitted w))
    (Token.leading ((State.data.after w).run rest))
  have whole := s.count_append_le earlier (Token.text (State.data.emitted w))
  omega

/-- Nothing of the segment belongs to a text that begins with a mark. -/
theorem gathers_begin (starts : Starts seen) (light : s.worth run ≤ m) :
    Gathers s seen .data run m :=
  ⟨seen, [], run, (List.append_nil _).symm, starts, rfl,
    fun _ member => absurd member List.not_mem_nil, (List.append_nil _).symm, light⟩

/-- A character that completes nothing but tokens that join. -/
theorem Gathers.step {tokens : List Token} (h : Gathers s seen state run m)
    (step : state.step c = (next, tokens)) (joins : ∀ token ∈ tokens, token.joins = true) :
    Gathers s (seen ++ [c]) next (run ++ Token.text tokens) m := by
  obtain ⟨before, w, earlier, rfl, starts, rfl, others, rfl, light⟩ := h
  have after : State.data.after (w ++ [c]) = next := by
    rw [State.after_append]
    show ((State.data.after w).step c).1 = next
    rw [step]
  have emitted : State.data.emitted (w ++ [c]) = State.data.emitted w ++ tokens := by
    rw [State.emitted_append, State.emitted, step]
    simp [State.emitted]
  refine ⟨before, w ++ [c], earlier, List.append_assoc _ _ _, starts, after.symm, ?_, ?_, light⟩
  · rw [emitted]
    intro token member
    rcases List.mem_append.mp member with member | member
    · exact others token member
    · exact joins token member
  · rw [emitted, Token.text_append, List.append_assoc]

theorem Gathers.step_nil (h : Gathers s seen state run m) (step : state.step c = (next, [])) :
    Gathers s (seen ++ [c]) next run m := by
  have later := h.step step fun _ member => absurd member List.not_mem_nil
  rw [show Token.text [] = [] from rfl, List.append_nil] at later
  exact later

theorem sound_seeing (absent : s.Absent segment) (within : seen <+: segment) :
    (seeing s seen).Sound s where
  text known := known.2.count absent within
  ending known := known.elim (·.count absent within) fun light =>
    Nat.le_trans (s.count_le_worth _) light
  part {r pending u m} known := by
    obtain ⟨_, before, w, earlier, v, rfl, apart, read, rfl, light⟩ := known
    obtain ⟨rest, rfl⟩ := within
    have none := absent.count_read (List.append_assoc _ _ _) apart
    simp only [read] at none
    have whole := s.count_append_le earlier v
    omega
  begins {r} known := by
    have apart : (r.read none seen).2 = none := by
      rcases known with rfl | rfl | clean
      · rw [Reading.read_verbatim]
      · rw [Reading.read_lowered]
      · exact clean r
    exact ⟨literal_none _, seen, [], [], [], (List.append_nil _).symm, apart, rfl, rfl,
      Nat.le_of_eq s.worth_nil⟩

theorem starts_append_mark (seen : Text) : Starts (seen ++ ['>']) := by
  refine .inr ?_
  rw [List.getLast?_append]
  rfl

/-- A character more of the segment is seen. -/
theorem passes_seeing (absent : s.Absent segment) (within : seen ++ [c] <+: segment) :
    Passes s (seeing s seen) (seeing s (seen ++ [c])) c 0 where
  before := sound_seeing absent ((List.prefix_append _ _).trans within)
  after := sound_seeing absent within
  text {state next run u m} isText known step isText' := by
    have reference := State.reference?_step isText (c := c) (by rw [step]; exact isText')
    have later := known.2.step step (Token.joins_characters u)
    rw [Token.text_characters] at later
    rw [step] at reference
    refine ⟨?_, later⟩
    rw [show next.reference? = _ from reference]
    exact known.1.take _ c
  opens _ known step := .inl (known.2.step_nil step)
  ending known step := known.imp (·.step_nil step) id
  closes name last isVoid known step := by
    refine ⟨literal_none _, ?_⟩
    rcases known with gathers | light
    · have joins : ∀ token ∈ [Token.endTag name], token.joins = true := by
        intro token member
        rw [List.mem_singleton.mp member]
        exact isVoid
      have later := gathers.step step joins
      rw [show Token.text [.endTag name] = [] from rfl, List.append_nil] at later
      exact later
    · rw [last]
      exact gathers_begin (starts_append_mark seen) light
  begins last := by
    rw [last]
    exact ⟨literal_none _, gathers_begin (starts_append_mark seen) (Nat.le_of_eq s.worth_nil)⟩
  part {r pending u m} known := by
    obtain ⟨literal, before, w, earlier, v, rfl, apart, read, rfl, light⟩ := known
    refine ⟨literal.take r c, before, w ++ [c], earlier, v ++ (r.take pending c).1,
      List.append_assoc _ _ _, apart, ?_, List.append_assoc _ _ _, light⟩
    rw [Reading.read_singleton, read]
  clean mark r := by
    rw [Reading.read_singleton]
    exact (Reading.Breaks.of_mark mark).take r _

/-! ## Through a segment -/

theorem holds_seen (absent : s.Absent segment) {more : Text} (within : seen ++ more <+: segment)
    (h : Holds s (seeing s seen) l bound state) :
    Holds s (seeing s (seen ++ more)) (l.addAll s (state.emitted more)) bound
      (state.after more) := by
  induction more generalizing seen l state with
  | nil =>
    rw [List.append_nil]
    exact h
  | cons c more ih =>
    rw [List.append_cons] at within ⊢
    have first := holds_step (passes_seeing absent ((List.prefix_append _ _).trans within)) h
    have later := ih within first
    rw [← Ledger.addAll_append] at later
    exact later

/-- Where nothing of the segment has been seen, texts are what they were before. -/
theorem seeing_of_resting (h : Holds s (weighing s.worth .resting) l bound state) :
    Holds s (seeing s []) l bound state := by
  refine h.imp ?_ .inr ?_ fun _ _ => rfl
  · intro state run m isText known
    obtain ⟨_, rests, light⟩ := known
    obtain rfl := rests rfl
    exact ⟨literal_none _, gathers_begin (.inl rfl) light⟩
  · intro r pending u m known
    cases pending with
    | none =>
      exact ⟨literal_none _, [], [], u, [], rfl, rfl, rfl, (List.append_nil _).symm, known.2⟩
    | some ref => exact known.1.elim

/-- At the end of the segment, a text that goes on weighs what it did before. -/
theorem weigh_count_le (absent : s.Absent segment) (literal : Literal segment pending)
    {earlier v : Text} {r : Reading} (none : s.count (v ++ r.flush pending) = 0)
    (light : s.worth earlier ≤ m) :
    Level.any.Allows pending ∧ weigh s.count (earlier ++ v) pending ≤ m := by
  have part := s.count_le_append v (r.flush pending)
  have plain := s.count_append_le earlier v
  cases pending with
  | none =>
    refine ⟨Level.allows_none _, ?_⟩
    show s.count (earlier ++ v) ≤ m
    omega
  | some ref =>
    have whole := s.count_append_le earlier (v ++ ref.finish r.inAttribute)
    have flush : s.count (v ++ ref.finish r.inAttribute) = 0 := none
    rw [← List.append_assoc] at whole
    cases ref with
    | named name =>
      obtain ⟨written, open'⟩ := literal name rfl
      have name := absent.count_literal ((List.suffix_cons '&' name).trans written).isInfix
      refine ⟨open', ?_⟩
      rw [weigh, s.count_other _ (by decide)]
      omega
    | _ =>
      refine ⟨trivial, Nat.le_trans whole ?_⟩
      omega

theorem weighing_of_seen (absent : s.Absent segment)
    (h : Holds s (seeing s segment) l bound state) :
    Holds s (weighing s.count .any) l bound state := by
  have sound := sound_seeing absent (List.prefix_refl segment)
  refine h.imp ?_ sound.ending ?_ fun _ => trivial
  · intro state run m isText known
    obtain ⟨literal, before, w, earlier, rfl, starts, rfl, joins, rfl, light⟩ := known
    have flushed : s.count (Token.text (State.data.emitted w) ++
        (Reading.decoded false).flush (State.data.after w).reference?) = 0 := by
      have cut : before ++ w = before ++ (w ++ []) := by rw [List.append_nil]
      have none := absent.count_gathered cut starts joins
      have part := s.count_le_append (Token.text (State.data.emitted w))
        (Token.leading ((State.data.after w).run []))
      rw [none] at part
      generalize State.data.after w = state at isText none
      cases state with
      | reference target ref =>
        cases target with
        | data =>
          rw [State.run, State.finish, if_neg (by decide), Token.leading_characters] at none
          exact none
        | _ => exact isText.elim
      | _ =>
        rw [show Reading.flush _ (State.reference? _) = [] from rfl, List.append_nil]
        exact Nat.le_zero.mp part
    obtain ⟨allowed, bound⟩ := weigh_count_le absent literal flushed light
    exact ⟨allowed, fun same => (by cases same), bound⟩
  · intro r pending u m known
    obtain ⟨literal, before, w, earlier, v, rfl, apart, read, rfl, light⟩ := known
    have flushed : s.count (v ++ r.flush pending) = 0 := by
      refine count_eq_zero fun inside => absent.readings r ?_
      have suffix := Reading.textOf_suffix apart w
      rw [show r.textOf w = v ++ r.flush pending by rw [Reading.textOf, read]] at suffix
      exact inside.trans suffix.isInfix
    exact weigh_count_le absent literal flushed light

/-- Wherever the tokenizer is, a segment without the token adds none. -/
theorem holds_segment (absent : s.Absent segment)
    (h : Holds s (weighing s.worth .resting) l bound state) :
    Holds s (weighing s.count .any) (l.addAll s (state.emitted segment)) bound
      (state.after segment) := by
  have seen : Holds s (seeing s ([] ++ segment)) _ _ _ :=
    holds_seen absent (List.prefix_refl _) (seeing_of_resting h)
  exact weighing_of_seen absent seen

end Gauge

/-! ## Joined segments -/

namespace Sentinel

open Gauge

variable {s : Sentinel} {l : Ledger} {bound : Nat} {state : State} {segments : List Text}

/-- In joined segments without the token, no more tokens are found than there are markers. -/
theorem total_joinFrom_le (absent : ∀ segment ∈ segments, s.Absent (normalizeNewlines segment))
    (some : segments ≠ []) (scan : Scan) (slot : Nat)
    (h : Holds s (weighing s.worth .resting) l bound state) :
    (l.addAll s (state.run (normalizeNewlines (s.joinFrom scan slot segments)))).total s ≤
      bound + (segments.length - 1) := by
  induction segments generalizing scan slot l bound state with
  | nil => exact absurd rfl some
  | cons segment rest ih =>
    have through := holds_segment (absent segment List.mem_cons_self) h
    cases rest with
    | nil =>
      have ends := total_finish_le through
      rw [← Ledger.addAll_append] at ends
      have run := State.run_append state (normalizeNewlines segment) []
      rw [List.append_nil] at run
      rw [joinFrom, run]
      exact ends
    | cons next rest =>
      have isLead : IsLead (edges (scan.feed segment) segment).1 := by
        rcases edges_cases (scan.feed segment) segment with same | same | same <;> rw [same]
        · exact .inl rfl
        · exact .inr (.inl rfl)
        · exact .inr (.inr rfl)
      have marked := holds_marker slot isLead (isEdge_edges (scan.feed segment) segment) through
      have later := ih (fun other member => absent other (List.mem_cons_of_mem segment member))
        (List.cons_ne_nil _ _) (s.scanAfter (scan.feed segment) segment) (slot + 1) marked
      rw [normalizeNewlines_joinFrom s scan slot segment (List.cons_ne_nil _ _)]
      simp only [← List.append_assoc] at later ⊢
      simp only [State.run_append, Ledger.addAll_append, State.emitted_append, State.after_append]
        at later ⊢
      simp only [List.length_cons] at later ⊢
      omega

theorem total_join_le (absent : ∀ segment ∈ segments, s.Absent (normalizeNewlines segment))
    (some : segments ≠ []) :
    ((⟨0, []⟩ : Ledger).addAll s (Token.read (s.join segments))).total s ≤ segments.length - 1 := by
  have start : Holds s (weighing s.worth .resting) ⟨0, []⟩ 0 .data :=
    .text (m := 0) trivial ⟨Level.allows_none _, fun _ => rfl, Nat.le_of_eq s.worth_nil⟩
      (Nat.le_refl 0)
  have whole := total_joinFrom_le absent some Scan.start 0 start
  rw [Nat.zero_add] at whole
  exact whole

end Sentinel

end HtmlTemplate

import HtmlTemplate.Proofs.Template.Absent
import HtmlTemplate.Proofs.Template.Written

/-!
# Segments whose end tags all leave something

Where no end tag is dropped, the texts of a template are those that the markup is read as. So a
segment that is read as no text with the token does not contain it (`Sentinel.absent_of_readings`).
-/

namespace HtmlTemplate

open Sentinel

variable {s : Sentinel} {state next : State} {tag : Tag} {c : Char} {u w : Text}

/-! ## Marks -/

namespace State

/-- What of ordinary text has been read but is not told of yet. -/
def held : State → Text
  | tagOpen => ['<']
  | endTagOpen => ['<', '/']
  | _ => []

/-- In a tag, a comment or a document type. -/
inductive InMark : State → Prop
  | tag {state : State} {tag : Tag} : state.tag? = some tag → InMark state
  | remark {state : State} {u : Text} : state.Remark u → InMark state
  | doctype (phase : DoctypePhase) (name : Text) : InMark (doctype phase name)

/-- The token that a mark is told of as. -/
inductive IsMark : Token → Prop
  | tag (tag : Tag) (closesItself : Bool) : IsMark (tag.token closesItself)
  | comment (data : Text) : IsMark (.comment data)
  | doctype (name : Text) : IsMark (.doctype name)

/-- A mark goes on, or it is told of. -/
theorem step_inMark (h : state.InMark) (c : Char) :
    (∃ next, state.step c = (next, []) ∧ next.InMark) ∨
      ∃ next token, state.step c = (next, [token]) ∧ IsMark token := by
  have closes : ∀ (tag : Tag) closesItself,
      ∃ next token, closeTag tag closesItself = (next, [token]) ∧ IsMark token :=
    fun tag closesItself => ⟨_, _, rfl, .tag tag closesItself⟩
  have value : ∀ {tag name v position}, ValueMove tag name v position c (state.step c) →
      (∃ next, state.step c = (next, []) ∧ next.InMark) ∨
        ∃ next token, state.step c = (next, [token]) ∧ IsMark token := by
    intro tag name v position move
    generalize state.step c = after at move
    cases move with
    | on quote => exact .inl ⟨_, rfl, .tag (tag?_inValue _ _ _ _ _)⟩
    | ends _ outside _ _ => exact .inl ⟨_, rfl, .tag outside.tag?⟩
    | closes _ _ => exact .inr (closes _ _)
  cases h with
  | @tag _ tag reading =>
    rcases tag?_cases reading with outside | ⟨name, quote, v, position, rfl⟩
    · have move := step_outside outside c
      generalize state.step c = after at move value
      cases move with
      | on outside' _ _ _ _ => exact .inl ⟨_, rfl, .tag outside'.tag?⟩
      | closes closesItself _ _ _ => exact .inr (closes _ _)
      | quoted name quote _ _ => exact .inl ⟨_, rfl, .tag rfl⟩
      | unquoted name _ => exact value (valueMove_stepValue tag name .none [] c)
    · exact value (step_inValue tag name quote v position c)
  | remark isRemark =>
    have move := step_remark isRemark c
    generalize state.step c = after at move
    cases move with
    | on isRemark' => exact .inl ⟨_, rfl, .remark isRemark'⟩
    | comment => exact .inl ⟨_, rfl, .remark (.comment .start [])⟩
    | doctype => exact .inl ⟨_, rfl, .doctype _ _⟩
    | closes _ _ => exact .inr ⟨_, _, rfl, .comment _⟩
  | doctype phase name =>
    have move := step_doctype phase name c
    generalize step (.doctype phase name) c = after at move
    cases move with
    | closes _ => exact .inr ⟨_, _, rfl, .doctype name⟩
    | _ => exact .inl ⟨_, rfl, .doctype _ _⟩

theorem finish_inMark (h : state.InMark) :
    state.finish = [] ∨ ∃ token, state.finish = [token] ∧ IsMark token := by
  cases h with
  | tag reading => exact .inl (Gauge.finish_of_tag? reading)
  | remark isRemark => cases isRemark <;> exact .inr ⟨_, rfl, .comment _⟩
  | doctype phase name => exact .inr ⟨_, rfl, .doctype name⟩

/-- What is told of first in a mark is the mark. -/
theorem run_inMark (h : state.InMark) (text : Text) : state.run text = [] ∨
    ∃ token tokens, state.run text = token :: tokens ∧ IsMark token := by
  induction text generalizing state with
  | nil =>
    rcases finish_inMark h with none | ⟨token, one, isMark⟩
    · exact .inl none
    · exact .inr ⟨token, [], one, isMark⟩
  | cons c text ih =>
    rw [run]
    rcases step_inMark h c with ⟨next, step, inMark⟩ | ⟨next, token, step, isMark⟩
    · rw [step]
      exact ih inMark
    · rw [step]
      exact .inr ⟨token, _, rfl, isMark⟩

theorem run_inMark_ne_character (h : state.InMark) (text : Text) (c : Char) (tokens : List Token) :
    state.run text ≠ .character c :: tokens := by
  intro same
  rcases run_inMark h text with none | ⟨token, others, first, isMark⟩
  · rw [none] at same
    cases same
  · rw [first] at same
    rw [(List.cons.inj same).1] at isMark
    generalize character : Token.character c = token at isMark
    cases isMark with
    | tag tag closesItself =>
      unfold Tag.token at character
      split at character <;> cases character
    | _ => cases character

end State

/-- A mark parts texts, unless it is the end tag of an element without content. -/
theorem Token.joins_mark {token : Token} (h : State.IsMark token)
    (ends : ∀ name, token = .endTag name → Vocabulary.isVoid name = false) :
    token.joins = false := by
  cases h with
  | tag tag closesItself =>
    unfold Tag.token at ends ⊢
    split
    · rename_i closing
      rw [if_pos closing] at ends
      exact ends _ rfl
    · rfl
  | _ => rfl

/-- No text goes on after what may be a mark, until it has been told of. -/
theorem leading_inMark (h : state.InMark)
    (ends : ∀ name, .endTag name ∈ state.run w → Vocabulary.isVoid name = false) :
    Token.leading (state.run w) = [] := by
  have mark : ∀ {token tokens}, State.IsMark token →
      (∀ name, .endTag name ∈ token :: tokens → Vocabulary.isVoid name = false) →
      Token.leading (token :: tokens) = [] := by
    intro token tokens isMark ends
    have parts := Token.joins_mark isMark fun name same => ends name (same ▸ List.mem_cons_self)
    rw [Token.leading, List.takeWhile_cons_of_neg (by rw [parts]; decide)]
    rfl
  induction w generalizing state with
  | nil =>
    rw [State.run] at ends ⊢
    rcases State.finish_inMark h with none | ⟨token, one, isMark⟩
    · rw [none]
      rfl
    · rw [one] at ends ⊢
      exact mark isMark ends
  | cons c w ih =>
    rw [State.run] at ends ⊢
    rcases State.step_inMark h c with ⟨next, step, inMark⟩ | ⟨next, token, step, isMark⟩
    · rw [step] at ends ⊢
      exact ih inMark ends
    · rw [step] at ends ⊢
      exact mark isMark ends

/-! ## Ordinary text -/

namespace State

theorem covers_kept (c : Char) : s.Covers [kept c] [c] := by
  by_cases same : c = null
  · rw [same]
    exact covers_mark (by decide) (by decide) List.not_mem_nil
  · rw [kept_of_ne same]
    exact .refl [c]

/-- Ordinary text goes on with a character, after a text that is told of. -/
theorem emitting_covers {before : Text}
    (step : emitting (Token.characters before) (stepData c) = (next, Token.characters u)) :
    ∃ x, u = before ++ x ∧ s.Covers ((Reading.decoded false).first c).1 (x ++ next.held) ∧
      next.held <:+ [c] := by
  have first : (Reading.decoded false).first c =
      if c = '&' then ([], some .start) else ([kept c], none) := rfl
  have told : ∀ {x}, Token.characters before ++ Token.characters x = Token.characters u →
      u = before ++ x := by
    intro x same
    refine Token.characters_inj ?_
    rw [← same]
    simp [Token.characters]
  unfold stepData at step
  rw [first]
  split at step
  · rename_i ampersand
    obtain ⟨rfl, same⟩ := Prod.mk.inj step
    rw [if_pos ampersand]
    exact ⟨[], told same, .refl [], List.nil_suffix⟩
  · rename_i literal
    rw [if_neg literal]
    split at step
    · rename_i less
      subst less
      obtain ⟨rfl, same⟩ := Prod.mk.inj step
      exact ⟨[], told same, .refl ['<'], List.suffix_refl _⟩
    · obtain ⟨rfl, same⟩ := Prod.mk.inj step
      exact ⟨[c], told same, covers_kept c, List.nil_suffix⟩

/-- What is told of, and what is held back then, is what was held back and a text that is covered by
what the character is read as. -/
structure Tells (s : Sentinel) (state : State) (c : Char) (next : State) (u : Text) : Prop where
  covers : ∃ x, u ++ next.held = state.held ++ x ∧
    s.Covers ((Reading.decoded false).take state.reference? c).1 x
  held : next.held <:+ state.held ++ [c]

theorem tells_emitting (text : Text) (read : ((Reading.decoded false).take state.reference? c).1 =
      text ++ ((Reading.decoded false).first c).1)
    (step : emitting (Token.characters (state.held ++ text)) (stepData c) =
      (next, Token.characters u)) : Tells s state c next u := by
  obtain ⟨x, rfl, covers, held⟩ := emitting_covers (s := s) step
  refine ⟨⟨text ++ (x ++ next.held), by simp only [List.append_assoc], ?_⟩,
    held.trans (List.suffix_append _ _)⟩
  rw [read]
  exact (Covers.refl text).append covers

theorem tells_stepTagOpen (step : stepTagOpen c = (next, Token.characters u))
    (isText : next.IsText) : Tells s .tagOpen c next u := by
  unfold stepTagOpen at step
  split at step
  · exact (isText.of_step step).elim
  · split at step
    · rename_i slash
      subst slash
      obtain ⟨rfl, same⟩ := Prod.mk.inj step
      obtain rfl : u = [] := List.map_eq_nil_iff.mp same.symm
      exact ⟨⟨['/'], rfl, .refl ['/']⟩, List.suffix_refl _⟩
    · split at step
      · exact (isText.of_step step).elim
      · split at step
        · exact (isText.of_step step).elim
        · exact tells_emitting [] rfl step

theorem tells_stepReference {ref : Reference}
    (step : stepReference .data ref c = (next, Token.characters u)) :
    Tells s (.reference .data ref) c next u := by
  unfold stepReference at step
  simp only [ReferenceTarget.inAttribute] at step
  cases outcome : ref.step false c with
  | more ref' =>
    rw [outcome] at step
    obtain ⟨rfl, same⟩ := Prod.mk.inj step
    obtain rfl : u = [] := List.map_eq_nil_iff.mp same.symm
    refine ⟨⟨[], rfl, ?_⟩, List.nil_suffix⟩
    rw [reference?, Reading.take_more (r := .decoded false) outcome]
    exact .refl []
  | done text =>
    rw [outcome] at step
    obtain ⟨rfl, same⟩ := Prod.mk.inj step
    obtain rfl : text = u := Token.characters_inj same
    refine ⟨⟨text, List.append_nil text, ?_⟩, List.nil_suffix⟩
    rw [reference?, Reading.take_done (r := .decoded false) outcome]
    exact .refl text
  | before text =>
    rw [outcome] at step
    refine tells_emitting text ?_ step
    rw [reference?, Reading.take_before (r := .decoded false) outcome]
    rfl

/-- Nothing of ordinary text is lost, except for an end tag without a name. -/
theorem tells_step (isText : state.IsText) (step : state.step c = (next, Token.characters u))
    (isText' : next.IsText) (gap : ¬ (state = .endTagOpen ∧ c = '>')) : Tells s state c next u := by
  cases state with
  | data => exact tells_emitting [] rfl step
  | tagOpen => exact tells_stepTagOpen step isText'
  | endTagOpen =>
    replace step : stepEndTagOpen c = (next, Token.characters u) := step
    unfold stepEndTagOpen at step
    split at step
    · exact (isText'.of_step step).elim
    · split at step
      · rename_i last
        exact absurd ⟨rfl, last⟩ gap
      · rename_i other
        rw [stepBogusComment, if_neg other] at step
        exact (isText'.of_step step).elim
  | reference target ref =>
    cases target with
    | data => exact tells_stepReference step
    | _ => exact isText.elim
  | _ => exact isText.elim

theorem leading_finish (isText : state.IsText) :
    Token.leading state.finish = state.held ++ (Reading.decoded false).flush state.reference? := by
  cases state with
  | data => rfl
  | tagOpen => rfl
  | endTagOpen => rfl
  | reference target ref =>
    cases target with
    | data =>
      rw [finish, if_neg (by decide), Token.leading_characters]
      rfl
    | _ => exact isText.elim
  | _ => exact isText.elim

end State

/-- Where no end tag is dropped, ordinary text tells of no more tokens than it is read with. -/
theorem count_leading_le (told read : Text) (isText : state.IsText)
    (gap : ¬ ['<', '/', '>'] <:+: state.held ++ w)
    (ends : ∀ name, .endTag name ∈ state.run w → Vocabulary.isVoid name = false)
    (behind : s.Behind (s.tally s.token (told ++ state.held)) (s.tally s.token read)) :
    s.count (told ++ Token.leading (state.run w)) ≤
      s.count (read ++ (((Reading.decoded false).read state.reference? w).1 ++
        (Reading.decoded false).flush ((Reading.decoded false).read state.reference? w).2)) := by
  induction w generalizing state told read with
  | nil =>
    have both :=
      behind.further (s.due_token.tally read) ((Reading.decoded false).flush state.reference?)
    rw [← tally_further, ← tally_further] at both
    rw [State.run, State.leading_finish isText, ← List.append_assoc]
    exact both.found
  | cons c w ih =>
    have stops : ∀ {next}, state.step c = (next, []) → next.InMark →
        s.count (told ++ Token.leading (state.run (c :: w))) ≤ s.count (read ++
          (((Reading.decoded false).read state.reference? (c :: w)).1 ++
            (Reading.decoded false).flush
              ((Reading.decoded false).read state.reference? (c :: w)).2)) := by
      intro next step inMark
      have run : state.run (c :: w) = next.run w := by
        rw [State.run, step]
        rfl
      rw [run] at ends
      have mine := s.count_le_append told state.held
      have theirs :=
        s.count_le_append read (((Reading.decoded false).read state.reference? (c :: w)).1 ++
        (Reading.decoded false).flush ((Reading.decoded false).read state.reference? (c :: w)).2)
      rw [run, leading_inMark inMark ends, List.append_nil]
      exact Nat.le_trans mine (Nat.le_trans behind.found theirs)
    have move := State.step_text isText c
    generalize step : state.step c = after at move
    cases move with
    | @text next u isText' reference =>
      have run : state.run (c :: w) = Token.characters u ++ next.run w := by rw [State.run, step]
      have apart : ¬ (state = .endTagOpen ∧ c = '>') := by
        rintro ⟨rfl, rfl⟩
        exact gap (List.prefix_append _ w).isInfix
      obtain ⟨⟨x, split, covers⟩, held⟩ := State.tells_step (s := s) isText step isText' apart
      have behind' : s.Behind (s.tally s.token (told ++ u ++ next.held))
          (s.tally s.token (read ++ ((Reading.decoded false).take state.reference? c).1)) := by
        rw [List.append_assoc, split, ← List.append_assoc, tally_further (told ++ state.held),
          tally_further read]
        exact covers _ _ (s.due_token.tally read) behind
      have gap' : ¬ ['<', '/', '>'] <:+: next.held ++ w := by
        intro inside
        obtain ⟨front, same⟩ := held
        refine gap (inside.trans ⟨front, [], ?_⟩)
        rw [List.append_nil, ← List.append_assoc, same, List.append_assoc]
        rfl
      have ends' : ∀ name, .endTag name ∈ next.run w → Vocabulary.isVoid name = false := by
        intro name member
        refine ends name ?_
        rw [run]
        exact List.mem_append_right _ member
      have later := ih _ _ isText' gap' ends' behind'
      rw [run, Token.leading_append (Token.joins_characters u), Token.text_characters, Reading.read,
        ← reference, ← List.append_assoc]
      simp only [List.append_assoc] at later ⊢
      exact later
    | declaration => exact stops step (.remark (.declaration []))
    | bogus => exact stops step (.remark (.bogus _))
    | startTag name => exact stops step (.tag rfl)
    | endTag name _ => exact stops step (.tag rfl)

/-- A segment does not contain the token if no reading of it does, and if all of its end tags leave
something in a template. -/
theorem Sentinel.absent_of_readings {segment : Text}
    (readings : ∀ r : Reading, ¬ s.token <:+: r.textOf segment)
    (gap : ¬ ['<', '/', '>'] <:+: segment)
    (ends : ∀ before w, segment = before ++ w → Starts before →
      ∀ name, .endTag name ∈ State.data.run w → Vocabulary.isVoid name = false) :
    s.Absent segment := by
  refine ⟨readings, fun {before w} split starts => ?_⟩
  have apart : ((Reading.decoded false).read none before).2 = none := by
    rcases starts with rfl | last
    · rfl
    · obtain ⟨front, rfl⟩ := List.getLast?_eq_some_iff.mp last
      rw [Reading.read_singleton]
      exact (Reading.Breaks.of_mark (.inl rfl)).take _ _
  have gap' : ¬ ['<', '/', '>'] <:+: State.data.held ++ w := fun inside =>
    gap (inside.trans (split ▸ (List.suffix_append before w).isInfix))
  have isText : State.IsText .data := trivial
  have le := count_leading_le (s := s) [] [] isText gap'
    (ends before w split starts) (.refl _)
  have suffix := Reading.textOf_suffix apart w
  rw [← split] at suffix
  have none : s.count ((Reading.decoded false).textOf w) = 0 :=
    count_eq_zero fun inside => readings (.decoded false) (inside.trans suffix.isInfix)
  exact not_infix_of_count (Nat.le_zero.mp (Nat.le_trans le (Nat.le_of_eq none)))

end HtmlTemplate

import HtmlTemplate.Markup.Vocabulary
import HtmlTemplate.Proofs.Markup.Flow

/-!
# Tags and end tags from both sides

What a character does that both the scanner and the tokenizer look at: in content without tags it
may begin the end tag (`State.OpenMove`), in an attribute value it may end the value, and at the end
of a tag the content that begins is known from the name.
-/

namespace HtmlTemplate

namespace Text

/-! ## Characters -/

theorem facts_of_isLetter {c : Char} (letter : isLetter c = true) :
    c ≠ '<' ∧ c ≠ '>' ∧ c ≠ '/' ∧ c ≠ '=' ∧ c ≠ '&' ∧ c ≠ '-' ∧ c ≠ '"' ∧ c ≠ '\'' ∧
      isBlank c = false := by
  have marks : ∀ d ∈ ['<', '>', '/', '=', '&', '-', '"', '\'', ' ', '\t', '\n', '\x0c', '\r'],
      isLetter d = false := List.all_iff_forall_prop.mp (by decide)
  have none : ∀ d ∈ ['<', '>', '/', '=', '&', '-', '"', '\'', ' ', '\t', '\n', '\x0c', '\r'],
      c ≠ d := by
    rintro d member rfl
    rw [marks c member] at letter
    cases letter
  simp only [List.mem_cons, List.not_mem_nil, or_false, forall_eq_or_imp, forall_eq] at none
  obtain ⟨less, greater, slash, equals, ampersand, dash, double, single, blanks⟩ := none
  exact ⟨less, greater, slash, equals, ampersand, dash, double, single, by simp [isBlank, blanks]⟩

theorem lowerChar_of_ne {c d : Char} (h : lowerChar c = d) (other : isSmall d = false) : c = d := by
  unfold lowerChar at h
  split at h
  · rename_i capital
    have small : ∀ n < 26, isSmall (Char.ofNat (65 + n + 32)) = true := by decide
    rw [isCapital, Bool.and_eq_true, decide_eq_true_iff, decide_eq_true_iff] at capital
    have low : 65 ≤ c.toNat := capital.1
    have high : c.toNat ≤ 90 := capital.2
    have here := small (c.toNat - 65) (by omega)
    rw [Nat.add_sub_cancel' low, h, other] at here
    cases here
  · exact h

/-- Only letters have small letters. -/
theorem isLetter_of_lowerChar {c : Char} (small : isSmall (lowerChar c) = true) :
    isLetter c = true := by
  unfold isLetter
  unfold lowerChar at small
  split at small
  · rename_i capital
    rw [capital]
    rfl
  · rw [small, Bool.or_true]

end Text

/-- The names of elements with raw text are made of small letters. -/
theorem Vocabulary.isSmall_of_isRawText {name : Text} (h : isRawText name = true) {c : Char}
    (member : c ∈ name) : Text.isSmall c = true := by
  have small : rawTextElements.all (·.all Text.isSmall) = true := by decide
  rw [isRawText, List.contains_eq_mem, decide_eq_true_iff] at h
  exact List.all_eq_true.mp (List.all_eq_true.mp small name h) c member

/-! ## Content without tags -/

/-- In no nested script. -/
def ScriptPhase.Shallow : ScriptPhase → Prop
  | .nested _ => False
  | .nestedLess => False
  | .leaving _ => False
  | _ => True

namespace RawContent

/-- Content in which an end tag is read as one. -/
def Open : RawContent → Prop
  | .plain _ => True
  | .script _ phase => phase.Shallow

/-- Content as it is while something is held back that may be an end tag. -/
inductive Held : RawContent → Prop
  | plain (element : Text) : Held (.plain element)
  | outside (element : Text) : Held (.script element .plain)
  | inside (element : Text) (dashes : Nat) : Held (.script element (.escaped dashes))

theorem Held.isOpen {content : RawContent} (h : Held content) : Open content := by
  cases h <;> trivial

end RawContent

/-- No reference goes on where a mark or another reference begins. -/
theorem Reference.step_of_mark {c : Char} (mark : c = '<' ∨ c = '&') (inAttribute : Bool)
    (ref : Reference) : ∃ text, ref.step inAttribute c = .before text := by
  rcases mark with rfl | rfl
  · cases ref with
    | named run =>
      have letter : Text.isAlphanumeric '<' = false := by decide
      simp [step, letter]
    | hash => exact ⟨_, rfl⟩
    | hexMark mark => exact ⟨_, rfl⟩
    | hex value => exact ⟨_, rfl⟩
    | decimal value => exact ⟨_, rfl⟩
  · cases ref with
    | named run =>
      have letter : Text.isAlphanumeric '&' = false := by decide
      simp [step, letter]
    | hash => exact ⟨_, rfl⟩
    | hexMark mark => exact ⟨_, rfl⟩
    | hex value => exact ⟨_, rfl⟩
    | decimal value => exact ⟨_, rfl⟩

namespace State

open RawContent

/-- What a character does in content where no end tag has begun. -/
inductive OpenMove (element : Text) (c : Char) : State → Prop
  | content {content : RawContent} : c ≠ '<' → Open content → content.element = element →
      OpenMove element c (raw content)
  | reference (ref : Reference) : c ≠ '<' → OpenMove element c (reference (.raw element) ref)
  | less {content : RawContent} : c = '<' → Held content → content.element = element →
      OpenMove element c (rawLess content)

theorem openMove_stepScript {element : Text} {phase : ScriptPhase} {c : Char}
    (shallow : phase.Shallow) (stays : ¬ (phase = .entering scriptWord ∧ endsWord c = true)) :
    OpenMove element c (stepScript element phase c).1 := by
  have goesOn : ∀ {phase : ScriptPhase}, c ≠ '<' → phase.Shallow →
      OpenMove element c (raw (.script element phase)) :=
    fun other shallow => .content other (show RawContent.Open (.script element _) from shallow) rfl
  have plain : OpenMove element c (stepScriptPlain element c).1 := by
    unfold stepScriptPlain
    split
    · rename_i less
      exact .less less (.outside element) rfl
    · rename_i other
      exact goesOn other trivial
  have escaped : ∀ dashes, OpenMove element c (stepScriptEscaped element dashes c).1 := by
    intro dashes
    unfold stepScriptEscaped
    split
    · rename_i dash
      exact goesOn (by rw [dash]; decide) trivial
    · split
      · rename_i less
        exact .less less (.inside element 0) rfl
      · rename_i other
        split
        · exact goesOn other trivial
        · exact goesOn other trivial
  unfold stepScript
  cases phase with
  | plain => exact plain
  | opening dashes =>
    simp only
    split
    · rename_i dash
      refine goesOn (by rw [dash]; decide) ?_
      split <;> trivial
    · exact plain
  | escaped dashes => exact escaped dashes
  | entering word =>
    simp only
    split
    · rename_i ends
      have other : word ≠ scriptWord := fun same => stays ⟨by rw [same], ends⟩
      rw [if_neg other]
      refine goesOn ?_ trivial
      rintro rfl
      exact absurd ends (by decide)
    · split
      · rename_i letter
        exact goesOn (Text.facts_of_isLetter letter).1 trivial
      · exact escaped 0
  | nested dashes => exact shallow.elim
  | nestedLess => exact shallow.elim
  | leaving word => exact shallow.elim

theorem openMove_stepRaw {content : RawContent} {c : Char} (isOpen : Open content)
    (stays : ∀ element, content = .script element (.entering scriptWord) → endsWord c = false) :
    OpenMove content.element c (stepRaw content c).1 := by
  cases content with
  | plain element =>
    show OpenMove element c (stepRaw (.plain element) c).1
    unfold stepRaw
    simp only
    split
    · rename_i ampersand
      exact .reference .start (by rw [ampersand]; decide)
    · split
      · rename_i less
        exact .less less (.plain element) rfl
      · rename_i other
        exact .content other (trivial : RawContent.Open (.plain element)) rfl
  | script element phase =>
    refine openMove_stepScript isOpen fun both => ?_
    have none := stays element (by rw [both.1])
    rw [both.2] at none
    cases none

theorem openMove_held {content : RawContent} {c : Char} (held : Held content) :
    OpenMove content.element c (stepRaw content c).1 :=
  openMove_stepRaw held.isOpen fun element same => by cases held <;> cases same

theorem openMove_stepRawLess {content : RawContent} {c : Char} (held : Held content)
    (other : c ≠ '/') :
    OpenMove content.element c (stepRawLess content c).1 := by
  unfold stepRawLess
  rw [if_neg other]
  cases held with
  | plain element => exact openMove_held (.plain element)
  | outside element =>
    simp only
    split
    · rename_i mark
      exact .content (by rw [mark]; decide)
        (trivial : RawContent.Open (.script element (.opening 0))) rfl
    · exact openMove_held (.outside element)
  | inside element dashes =>
    simp only
    split
    · exact openMove_stepScript (trivial : (ScriptPhase.entering []).Shallow) fun both => by
        cases both.1
    · exact openMove_held (.inside element dashes)

theorem openMove_stepReference (element : Text) (ref : Reference) (c : Char) :
    OpenMove element c (stepReference (.raw element) ref c).1 := by
  unfold stepReference
  split
  · rename_i ref' more
    refine .reference ref' ?_
    rintro rfl
    obtain ⟨text, before⟩ := ref.step_of_mark (.inl rfl) false
    rw [show ReferenceTarget.inAttribute (.raw element) = false from rfl, before] at more
    cases more
  · rename_i text done
    refine .content ?_ (trivial : RawContent.Open (.plain element)) rfl
    rintro rfl
    obtain ⟨text, before⟩ := ref.step_of_mark (.inl rfl) false
    rw [show ReferenceTarget.inAttribute (.raw element) = false from rfl, before] at done
    cases done
  · exact openMove_held (.plain element)

/-! ## Attribute values -/

theorem stepValue_ends {quote : Quote} {c : Char} (ends : quote.ends c = true) (tag : Tag)
    (name v : Text) :
    stepValue tag name quote v c = leaveValue (tag.withAttribute name v) quote c := by
  have literal : c ≠ '&' := by
    rintro rfl
    exact absurd (Quote.mem_marks ends) (by decide)
  rw [stepValue_eq tag name quote v literal, if_pos ends]

theorem stepValue_goesOn {quote : Quote} {c : Char} (other : quote.ends c = false) (tag : Tag)
    (name v : Text) : ∃ v' position', stepValue tag name quote v c =
      (inValue tag name quote v' position', []) := by
  by_cases literal : c = '&'
  · refine ⟨v, some .start, ?_⟩
    unfold stepValue
    rw [if_pos literal]
    rfl
  · refine ⟨v ++ [kept c], none, ?_⟩
    rw [stepValue_eq tag name quote v literal, other]
    rfl

/-- A value ends at a character that ends it, whatever has been read of a reference. -/
theorem step_inValue_ends {quote : Quote} {c : Char} (ends : quote.ends c = true) (tag : Tag)
    (name v : Text) (position : Option Reference) : ∃ w,
      (inValue tag name quote v position).step c =
        leaveValue (tag.withAttribute name w) quote c := by
  cases position with
  | none => exact ⟨v, stepValue_ends ends tag name v⟩
  | some ref =>
    obtain ⟨text, before⟩ := ref.step_of_ends ends
    refine ⟨v ++ text, ?_⟩
    rw [step_inValue_before before]
    exact stepValue_ends ends tag name (v ++ text)

/-- A value goes on with any other character. -/
theorem step_inValue_goesOn {quote : Quote} {c : Char} (other : quote.ends c = false) (tag : Tag)
    (name v : Text) (position : Option Reference) : ∃ v' position',
      (inValue tag name quote v position).step c = (inValue tag name quote v' position', []) := by
  cases position with
  | none => exact stepValue_goesOn other tag name v
  | some ref =>
    show ∃ v' position', stepReference (.value tag name quote v) ref c = _
    unfold stepReference
    split
    · exact ⟨v, some _, rfl⟩
    · exact ⟨_, none, rfl⟩
    · exact stepValue_goesOn other tag name _

/-! ## The end of a tag -/

theorem content_cases (name : Text) :
    (Vocabulary.isRawText name = true ∧
      ∃ content, State.content name = raw content ∧ Open content ∧ content.element = name) ∨
    (Vocabulary.isRawText name = false ∧ State.content name = data) := by
  unfold State.content
  split
  · rename_i script
    refine .inl ⟨?_, _, rfl, trivial, rfl⟩
    rcases script with rfl | rfl <;> decide
  · rename_i script
    split
    · rename_i title
      refine .inl ⟨?_, _, rfl, trivial, rfl⟩
      rcases title with rfl | rfl <;> decide
    · rename_i title
      refine .inr ⟨?_, rfl⟩
      rw [not_or] at script title
      rw [Vocabulary.isRawText, List.contains_eq_mem, decide_eq_false_iff_not]
      intro member
      have names : Vocabulary.rawTextElements = [['s', 'c', 'r', 'i', 'p', 't'],
          ['s', 't', 'y', 'l', 'e'], ['t', 'e', 'x', 't', 'a', 'r', 'e', 'a'],
          ['t', 'i', 't', 'l', 'e']] := by decide
      rw [names] at member
      simp [script, title] at member

end State

end HtmlTemplate

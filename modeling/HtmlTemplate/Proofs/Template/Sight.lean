import HtmlTemplate.Proofs.Template.Joined
import HtmlTemplate.Proofs.Template.Misled

/-!
# What the scanner sees

The scanner that places the markers follows a segment with a few kinds of places, while the
tokenizer has a state for each of its rules. `Scan.Sees` relates the two: the scanner is in the
right kind of place, and where it has looked ahead, what it found is there. A character that does
not mislead the scanner keeps them related (`Scan.Sees.step`), and so does a segment without such
characters (`Scan.Sees.feed`).
-/

namespace HtmlTemplate

namespace Scan

/-! ## What the scanner sees -/

/-- Where the dashes of a comment have been looked at: the comment does not end here. -/
def Looked (phase : CommentPhase) (rest : Text) : Prop :=
  match phase with
  | .startDash => Text.startsWith ['-', '>'] rest = false
  | .dash => Text.startsWith ['-', '>'] rest = false
  | .dashes => Text.startsWith ['-', '>'] rest = false ∧ Text.startsWith ['>'] rest = false
  | _ => True

/-- In a tag, outside its name and its attribute values. -/
inductive Inside : State → Tag → Prop
  | beforeName (tag : Tag) : Inside (.beforeName tag) tag
  | attributeName (tag : Tag) (name : Text) : Inside (.attributeName tag name) tag
  | afterName (tag : Tag) (name : Text) : Inside (.afterName tag name) tag
  | afterValue (tag : Tag) : Inside (.afterValue tag) tag
  | selfClosing (tag : Tag) : Inside (.selfClosing tag) tag

/-- The scanner knows what kind of content a tag begins. -/
structure Knows (name : Text) (closing : Bool) (tag : Tag) : Prop where
  side : closing = tag.closing
  kind : closing = false →
    name = tag.name ∨ Vocabulary.isRawText name = false ∧ Vocabulary.isRawText tag.name = false

/-- A name with a character that is no small letter, as no element with raw text has. -/
def Odd (name : Text) : Prop := ∃ c ∈ name, Text.isSmall c = false

/-- The quotation mark of a value. -/
inductive Encloses : Quote → Char → Prop
  | double : Encloses .double '"'
  | single : Encloses .single '\''

/-- The scanner is in the kind of place that the tokenizer is in, and what it has looked at comes
next. -/
inductive Sees (rest : Text) : Scan → State → Prop
  | data {name closing} : Sees rest ⟨.content, name, closing, 0⟩ .data
  | reference {name closing} (ref : Reference) :
      Sees rest ⟨.content, name, closing, 0⟩ (.reference .data ref)
  | less {name closing} : begins rest = false → Sees rest ⟨.content, name, closing, 0⟩ .tagOpen
  | slash {name closing} : startsWithLetter rest = false →
      Sees rest ⟨.content, name, closing, 0⟩ .endTagOpen
  | declaration {name closing} (seen : Text) : Text.startsWith ['-', '-'] (seen ++ rest) = false →
      Sees rest ⟨.content, name, closing, 0⟩ (.declaration seen)
  | bogusComment {name closing} (data : Text) :
      Sees rest ⟨.content, name, closing, 0⟩ (.bogusComment data)
  | doctype {name closing} (phase : DoctypePhase) (word : Text) :
      Sees rest ⟨.content, name, closing, 0⟩ (.doctype phase word)
  -- Comments: the scanner has looked ahead at `!--` and at `->`.
  | commentLess {name closing after} : rest = '!' :: '-' :: '-' :: after →
      Sees rest ⟨.comment, name, closing, 3⟩ .tagOpen
  | commentMark {name closing after} : rest = '-' :: '-' :: after →
      Sees rest ⟨.comment, name, closing, 2⟩ (.declaration [])
  | commentDash {name closing after} : rest = '-' :: after →
      Sees rest ⟨.comment, name, closing, 1⟩ (.declaration ['-'])
  | comment {name closing} (phase : CommentPhase) (data : Text) : Looked phase rest →
      Sees rest ⟨.comment, name, closing, 0⟩ (.comment phase data)
  | lastDash {name closing after} {phase : CommentPhase} (data : Text) :
      rest = '-' :: '>' :: after →
      phase = .startDash ∨ phase = .dash ∨ phase = .dashes →
      Sees rest ⟨.content, name, closing, 2⟩ (.comment phase data)
  | lastMark {name closing after} (data : Text) : rest = '>' :: after →
      Sees rest ⟨.content, name, closing, 1⟩ (.comment .dashes data)
  -- Tags: the scanner has looked ahead at the first letter of the name.
  | startTag : startsWithLetter rest = true → Sees rest ⟨.tagName, [], false, 0⟩ .tagOpen
  | endTagLess {after} : rest = '/' :: after → startsWithLetter after = true →
      Sees rest ⟨.tagName, [], true, 1⟩ .tagOpen
  | endTag : startsWithLetter rest = true → Sees rest ⟨.tagName, [], true, 0⟩ .endTagOpen
  | tagName (tag : Tag) : Sees rest ⟨.tagName, tag.name, tag.closing, 0⟩ (.tagName tag)
  | oddName {name closing} {tag : Tag} : closing = tag.closing →
      (closing = false → Vocabulary.isRawText name = false ∧ Odd tag.name) →
      Sees rest ⟨.tag, name, closing, 0⟩ (.tagName tag)
  | tag {name closing} {tag : Tag} {state : State} : Inside state tag → Knows name closing tag →
      Sees rest ⟨.tag, name, closing, 0⟩ state
  | beforeValue {name closing} {tag : Tag} (key : Text) : Knows name closing tag →
      Sees rest ⟨.beforeValue, name, closing, 0⟩ (.beforeValue tag key)
  | quoted {name closing} {tag : Tag} {quote : Quote} {mark : Char} (key value : Text)
      (position : Option Reference) : Encloses quote mark → Knows name closing tag →
      Sees rest ⟨.quoted mark, name, closing, 0⟩ (.inValue tag key quote value position)
  | unquoted {name closing} {tag : Tag} (key value : Text) (position : Option Reference) :
      Knows name closing tag →
      Sees rest ⟨.unquoted, name, closing, 0⟩ (.inValue tag key .none value position)
  -- Content without tags: the scanner has looked ahead at the whole name of the end tag.
  | raw {name closing} {content : RawContent} : content.Open →
      Vocabulary.isRawText content.element = true →
      Sees rest ⟨.rawText content.element, name, closing, 0⟩ (.raw content)
  | rawReference {name closing} {element : Text} (ref : Reference) :
      Vocabulary.isRawText element = true →
      Sees rest ⟨.rawText element, name, closing, 0⟩ (.reference (.raw element) ref)
  | rawLess {name closing} {content : RawContent} : content.Held →
      Vocabulary.isRawText content.element = true → closes content.element rest = false →
      Sees rest ⟨.rawText content.element, name, closing, 0⟩ (.rawLess content)
  | rawEndOpen {name closing} {content : RawContent} : content.Held →
      Vocabulary.isRawText content.element = true → ¬ Spelled content.element [] rest →
      Sees rest ⟨.rawText content.element, name, closing, 0⟩ (.rawEndOpen content)
  | rawEndName {name closing} {content : RawContent} (letters : Text) : content.Held →
      Vocabulary.isRawText content.element = true → ¬ Spelled content.element letters rest →
      Sees rest ⟨.rawText content.element, name, closing, 0⟩ (.rawEndName content letters)
  | closingLess {content : RawContent} : Vocabulary.isRawText content.element = true →
      closes content.element rest = true → Sees rest ⟨.tagName, [], true, 1⟩ (.rawLess content)
  | closingOpen {content : RawContent} : Vocabulary.isRawText content.element = true →
      Spelled content.element [] rest → Sees rest ⟨.tagName, [], true, 0⟩ (.rawEndOpen content)
  | closingName {name} {content : RawContent} (letters : Text) :
      Vocabulary.isRawText content.element = true → Spelled content.element letters rest →
      Sees rest ⟨.tagName, name, true, 0⟩ (.rawEndName content letters)

variable {rest name : Text} {closing : Bool} {c : Char} {scan : Scan} {state : State} {tag : Tag}

/-- Reads one character, or skips it. -/
def advance (scan : Scan) (c : Char) (rest : Text) : Scan :=
  if scan.skip = 0 then scan.step c rest else { scan with skip := scan.skip - 1 }

theorem feed_cons (scan : Scan) (c : Char) (rest : Text) :
    scan.feed (c :: rest) = (scan.advance c rest).feed rest := by
  rw [feed, advance]
  split <;> rfl

/-! ### Content -/

theorem stepContent_of_ne (other : c ≠ '<') (scan : Scan) (rest : Text) :
    scan.stepContent c rest = scan := if_pos other

theorem stepContent_of_not_begins (none : begins rest = false) (scan : Scan) (c : Char) :
    scan.stepContent c rest = scan := by
  unfold begins at none
  rw [Bool.or_eq_false_iff, Bool.or_eq_false_iff] at none
  obtain ⟨⟨comment, start⟩, ends⟩ := none
  unfold stepContent
  split
  · rfl
  · rw [if_neg (by rw [comment]; decide)]
    cases rest with
    | nil => rfl
    | cons d rest =>
      by_cases slash : d = '/'
      · subst slash
        have none : startsWithLetter rest = false := ends
        simp [none]
      · simp [slash, start]

/-- What a less-than sign in content begins for the scanner, it begins for the tokenizer. -/
theorem sees_less (name : Text) (closing : Bool) (rest : Text) :
    Sees rest (stepContent ⟨.content, name, closing, 0⟩ '<' rest) .tagOpen := by
  cases found : begins rest with
  | false =>
    rw [stepContent_of_not_begins found]
    exact .less found
  | true =>
    cases begins_of_eq_true found with
    | comment after => exact .commentLess rfl
    | @start d after letter =>
      obtain ⟨_, _, slash, _⟩ := Text.facts_of_isLetter letter
      have mark : d ≠ '!' := by
        rintro rfl
        cases letter
      have same : stepContent ⟨.content, name, closing, 0⟩ '<' (d :: after) =
          ⟨.tagName, [], false, 0⟩ := by
        simp [stepContent, Text.startsWith, Text.strip?, mark.symm, slash, startsWithLetter, letter,
          startTag]
      rw [same]
      exact .startTag letter
    | @ends d after letter =>
      have same : stepContent ⟨.content, name, closing, 0⟩ '<' ('/' :: d :: after) =
          ⟨.tagName, [], true, 1⟩ := by
        simp [stepContent, Text.startsWith, Text.strip?, startsWithLetter, letter, startTag]
      rw [same]
      exact .endTagLess rfl letter

theorem sees_stepData (name : Text) (closing : Bool) (c : Char) (rest : Text) :
    Sees rest (stepContent ⟨.content, name, closing, 0⟩ c rest) (State.stepData c).1 := by
  by_cases less : c = '<'
  · subst less
    exact sees_less name closing rest
  · rw [stepContent_of_ne less]
    unfold State.stepData
    split
    · exact .reference .start
    · exact .data

theorem sees_reference (name : Text) (closing : Bool) (ref : Reference) (c : Char) (rest : Text) :
    Sees rest (stepContent ⟨.content, name, closing, 0⟩ c rest)
      (State.stepReference .data ref c).1 := by
  unfold State.stepReference
  by_cases less : c = '<'
  · subst less
    obtain ⟨text, before⟩ := ref.step_of_mark (.inl rfl) false
    rw [show ReferenceTarget.inAttribute .data = false from rfl, before]
    exact sees_less name closing rest
  · split
    · rw [stepContent_of_ne less]
      exact .reference _
    · rw [stepContent_of_ne less]
      exact .data
    · exact sees_stepData name closing c rest

theorem sees_stepTagOpen (none : begins (c :: rest) = false) :
    Sees rest (stepContent ⟨.content, name, closing, 0⟩ c rest) (State.stepTagOpen c).1 := by
  unfold begins at none
  rw [Bool.or_eq_false_iff, Bool.or_eq_false_iff] at none
  obtain ⟨⟨comment, start⟩, ends⟩ := none
  have letter : Text.isLetter c = false := start
  unfold State.stepTagOpen
  split
  · rename_i mark
    subst mark
    exact .declaration [] comment
  · split
    · rename_i slash
      subst slash
      exact .slash ends
    · rw [if_neg (by rw [letter]; decide)]
      split
      · rename_i question
        subst question
        exact .bogusComment ['?']
      · exact sees_stepData name closing c rest

/-- Where the tokenizer hears nothing of less-than signs, the scanner hears none that begins
anything. -/
theorem stepContent_of_deaf (deaf : state.Deaf) (fine : ¬ State.Misleads state c rest)
    (scan : Scan) :
    scan.stepContent c rest = scan := by
  by_cases less : c = '<'
  · subst less
    refine stepContent_of_not_begins ?_ scan _
    rw [Bool.eq_false_iff]
    exact fun begins => fine (.less deaf begins)
  · exact stepContent_of_ne less scan rest

theorem sees_stepBogusComment (data : Text) (c : Char) :
    Sees rest ⟨.content, name, closing, 0⟩ (State.stepBogusComment data c).1 := by
  unfold State.stepBogusComment
  split
  · exact .data
  · exact .bogusComment _

theorem sees_stepEndTagOpen (none : startsWithLetter (c :: rest) = false) :
    Sees rest ⟨.content, name, closing, 0⟩ (State.stepEndTagOpen c).1 := by
  have letter : Text.isLetter c = false := none
  unfold State.stepEndTagOpen
  rw [if_neg (by rw [letter]; decide)]
  split
  · exact .data
  · exact sees_stepBogusComment [] c

theorem sees_stepDeclaration {seen : Text}
    (none : Text.startsWith ['-', '-'] (seen ++ c :: rest) = false) :
    Sees rest ⟨.content, name, closing, 0⟩ (State.stepDeclaration seen c).1 := by
  have whole : seen ++ c :: rest = (seen ++ [c]) ++ rest := by simp
  rw [whole] at none
  unfold State.stepDeclaration
  split
  · rename_i dash
    rw [dash] at none
    exact .declaration ['-'] none
  · split
    · rename_i dashes
      rw [dashes] at none
      cases none
    · split
      · exact .doctype .before []
      · split
        · exact .declaration _ none
        · exact sees_stepBogusComment seen c

theorem sees_stepDoctype (phase : DoctypePhase) (word : Text) (c : Char) :
    Sees rest ⟨.content, name, closing, 0⟩ (State.stepDoctype phase word c).1 := by
  unfold State.stepDoctype
  split
  · exact .data
  · cases phase with
    | before =>
      simp only
      split <;> exact .doctype _ _
    | name =>
      simp only
      split <;> exact .doctype _ _
    | after => exact .doctype _ _

/-! ### Comments -/

/-- The scanner at a character of a comment. -/
def stepComment (scan : Scan) (c : Char) (rest : Text) : Scan :=
  if c = '-' ∧ Text.startsWith ['-', '>'] rest then { scan with place := .content, skip := 2 }
  else scan

theorem sees_dash {phase : CommentPhase} (data : Text)
    (dash : phase = .startDash ∨ phase = .dash ∨
      phase = .dashes ∧ Text.startsWith ['>'] rest = false) :
    Sees rest (stepComment ⟨.comment, name, closing, 0⟩ '-' rest) (.comment phase data) := by
  unfold stepComment
  cases found : Text.startsWith ['-', '>'] rest with
  | true =>
    obtain ⟨after, rfl⟩ := Text.startsWith_eq_true.mp found
    exact .lastDash data rfl (dash.imp_right (Or.imp_right And.left))
  | false =>
    refine .comment phase data ?_
    rcases dash with rfl | rfl | ⟨rfl, none⟩
    · exact found
    · exact found
    · exact ⟨found, none⟩

theorem stepComment_of_ne (other : c ≠ '-') (scan : Scan) (rest : Text) :
    scan.stepComment c rest = scan := if_neg fun both => other both.1

theorem sees_stepCommentBody (data : Text) (c : Char) (rest : Text) :
    Sees rest (stepComment ⟨.comment, name, closing, 0⟩ c rest)
      (State.stepCommentBody data c).1 := by
  unfold State.stepCommentBody
  split
  · rename_i dash
    subst dash
    exact sees_dash data (.inr (.inl rfl))
  · rename_i other
    rw [stepComment_of_ne other]
    exact .comment .body _ trivial

theorem not_startsWith_mark (h : Text.startsWith ['-', '>'] ('-' :: rest) = false) :
    Text.startsWith ['>'] rest = false := by
  rw [Bool.eq_false_iff] at h ⊢
  intro found
  obtain ⟨after, rfl⟩ := Text.startsWith_eq_true.mp found
  exact h rfl

theorem sees_comment {phase : CommentPhase} {data : Text} (looked : Looked phase (c :: rest))
    (fine : ¬ State.Misleads (.comment phase data) c rest) :
    Sees rest (stepComment ⟨.comment, name, closing, 0⟩ c rest)
      (State.stepComment phase data c).1 := by
  have early : phase = .start ∨ phase = .startDash ∨ phase = .bang → c ≠ '>' := by
    rintro early rfl
    exact fine (.comment early)
  have body : ∀ data, Sees rest (stepComment ⟨.comment, name, closing, 0⟩ c rest)
      (State.stepCommentBody data c).1 := fun data => sees_stepCommentBody data c rest
  cases phase with
  | start =>
    unfold State.stepComment
    simp only [early (.inl rfl), if_false]
    split
    · rename_i dash
      subst dash
      exact sees_dash data (.inl rfl)
    · exact body _
  | startDash =>
    unfold State.stepComment
    simp only [early (.inr (.inl rfl)), if_false]
    split
    · rename_i dash
      subst dash
      exact sees_dash data (.inr (.inr ⟨rfl, not_startsWith_mark looked⟩))
    · exact body _
  | body => exact body _
  | dash =>
    unfold State.stepComment
    simp only
    split
    · rename_i dash
      subst dash
      exact sees_dash data (.inr (.inr ⟨rfl, not_startsWith_mark looked⟩))
    · exact body _
  | dashes =>
    unfold State.stepComment
    simp only
    split
    · rename_i mark
      subst mark
      cases looked.2
    · split
      · rename_i bang
        subst bang
        exact .comment .bang data trivial
      · split
        · rename_i dash
          subst dash
          exact sees_dash _ (.inr (.inr ⟨rfl, not_startsWith_mark looked.1⟩))
        · exact body _
  | bang =>
    unfold State.stepComment
    simp only [early (.inr (.inr rfl)), if_false]
    split
    · rename_i dash
      subst dash
      exact sees_dash _ (.inr (.inl rfl))
    · exact body _

theorem sees_lastDash {phase : CommentPhase} {after : Text} (data : Text)
    (dash : phase = .startDash ∨ phase = .dash ∨ phase = .dashes) :
    Sees ('>' :: after) ⟨.content, name, closing, 1⟩ (State.stepComment phase data '-').1 := by
  rcases dash with rfl | rfl | rfl <;> exact .lastMark _ rfl

/-! ### Tags -/

theorem Odd.not_raw {name : Text} (h : Odd name) : Vocabulary.isRawText name = false := by
  obtain ⟨c, member, other⟩ := h
  rw [Bool.eq_false_iff]
  intro isRaw
  rw [Vocabulary.isSmall_of_isRawText isRaw member] at other
  cases other

theorem Knows.refl (tag : Tag) : Knows tag.name tag.closing tag := ⟨rfl, fun _ => .inl rfl⟩

theorem Knows.withAttribute (h : Knows name closing tag) (key value : Text) :
    Knows name closing (tag.withAttribute key value) := ⟨h.side, h.kind⟩

theorem Knows.of_closing (name : Text) {tag : Tag} (closing : tag.closing = true) :
    Knows name true tag := ⟨closing.symm, fun none => by cases none⟩

/-- A tag ends in the same kind of content for both. -/
theorem sees_closeTag {place : Place} (knows : Knows name closing tag) {closesItself : Bool}
    (open' : closesItself = true → closing = false → Vocabulary.isRawText tag.name = false) :
    Sees rest (finishTag ⟨place, name, closing, 0⟩) (State.closeTag tag closesItself).1 := by
  obtain ⟨rfl, kind⟩ := knows
  unfold finishTag State.closeTag State.afterTag
  cases side : tag.closing with
  | true => exact .data
  | false =>
    have kind := kind side
    have same : Vocabulary.isRawText name = Vocabulary.isRawText tag.name := by
      rcases kind with rfl | ⟨none, none'⟩
      · rfl
      · rw [none, none']
    rcases State.content_cases tag.name with
      ⟨isRaw, content, after, isOpen, element⟩ | ⟨plain, after⟩
    · have stays : closesItself = false := by
        rw [Bool.eq_false_iff]
        intro itself
        rw [open' itself side] at isRaw
        cases isRaw
      rcases kind with rfl | ⟨_, none⟩
      · simp only [stays, isRaw, Bool.or_false, Bool.not_false, Bool.and_true, if_true]
        show Sees rest ⟨.rawText tag.name, _, _, _⟩ (State.content tag.name)
        rw [after, ← element]
        exact .raw isOpen (by rw [element]; exact isRaw)
      · rw [none] at isRaw
        cases isRaw
    · simp only [same, plain, Bool.and_false, Bool.false_or]
      show Sees rest ⟨.content, _, _, _⟩ (if closesItself = true then State.data else _)
      rw [after]
      split <;> exact .data

theorem sees_closeTag_of_greater {place : Place} (knows : Knows name closing tag) :
    Sees rest (finishTag ⟨place, name, closing, 0⟩) (State.closeTag tag false).1 :=
  sees_closeTag knows fun itself => by cases itself

theorem stepTag_eq {place : Place} (equals : c ≠ '=') (greater : c ≠ '>') :
    stepTag ⟨place, name, closing, 0⟩ c = ⟨.tag, name, closing, 0⟩ := by
  unfold stepTag
  rw [if_neg equals, if_neg greater]

theorem sees_stepBeforeName {place : Place} (knows : Knows name closing tag) (equals : c ≠ '=') :
    Sees rest (stepTag ⟨place, name, closing, 0⟩ c) (State.stepBeforeName tag c).1 := by
  unfold State.stepBeforeName
  by_cases greater : c = '>'
  · subst greater
    exact sees_closeTag_of_greater knows
  · rw [stepTag_eq equals greater]
    split
    · exact .tag (.beforeName tag) knows
    · split
      · exact .tag (.selfClosing tag) knows
      · exact .tag (.attributeName tag _) knows

theorem sees_stepAttributeName (knows : Knows name closing tag) (key : Text) (c : Char) :
    Sees rest (stepTag ⟨.tag, name, closing, 0⟩ c) (State.stepAttributeName tag key c).1 := by
  unfold State.stepAttributeName
  by_cases greater : c = '>'
  · subst greater
    exact sees_closeTag_of_greater (knows.withAttribute key [])
  · by_cases equals : c = '='
    · subst equals
      exact .beforeValue key knows
    · rw [stepTag_eq equals greater]
      split
      · exact .tag (.afterName tag key) knows
      · split
        · exact .tag (.selfClosing _) (knows.withAttribute key [])
        · exact .tag (.attributeName tag _) knows

theorem sees_stepAfterName (knows : Knows name closing tag) (key : Text) (c : Char) :
    Sees rest (stepTag ⟨.tag, name, closing, 0⟩ c) (State.stepAfterName tag key c).1 := by
  unfold State.stepAfterName
  by_cases greater : c = '>'
  · subst greater
    exact sees_closeTag_of_greater (knows.withAttribute key [])
  · by_cases equals : c = '='
    · subst equals
      exact .beforeValue key knows
    · rw [stepTag_eq equals greater]
      split
      · exact .tag (.afterName tag key) knows
      · split
        · exact .tag (.selfClosing _) (knows.withAttribute key [])
        · exact .tag (.attributeName _ _) (knows.withAttribute key [])

theorem sees_inside (inside : Inside state tag) (knows : Knows name closing tag)
    (fine : ¬ State.Misleads state c rest) :
    Sees rest (stepTag ⟨.tag, name, closing, 0⟩ c) (state.step c).1 := by
  have unequal : state.Unequal → c ≠ '=' := by
    rintro unequal rfl
    exact fine (.equals unequal)
  cases inside with
  | beforeName => exact sees_stepBeforeName knows (unequal (.beforeName tag))
  | attributeName _ key => exact sees_stepAttributeName knows key c
  | afterName _ key => exact sees_stepAfterName knows key c
  | afterValue => exact sees_stepBeforeName knows (unequal (.afterValue tag))
  | selfClosing =>
    show Sees rest _ (State.stepSelfClosing tag c).1
    unfold State.stepSelfClosing
    split
    · rename_i greater
      subst greater
      refine sees_closeTag knows fun _ side => ?_
      rw [Bool.eq_false_iff]
      exact fun isRaw => fine (.closed (knows.side ▸ side) isRaw)
    · exact sees_stepBeforeName knows (unequal (.selfClosing tag))

/-! ### Names of tags -/

theorem facts_of_isNameCharacter (h : isNameCharacter c = true) :
    Text.isBlank c = false ∧ c ≠ '/' ∧ c ≠ '>' ∧ c ≠ State.null := by
  have marks : ∀ d ∈ [' ', '\t', '\n', '\x0c', '\r', '/', '>', State.null],
      isNameCharacter d = false := List.all_iff_forall_prop.mp (by decide)
  have none : ∀ d ∈ [' ', '\t', '\n', '\x0c', '\r', '/', '>', State.null], c ≠ d := by
    rintro d member rfl
    rw [marks c member] at h
    cases h
  simp only [List.mem_cons, List.not_mem_nil, or_false, forall_eq_or_imp, forall_eq] at none
  obtain ⟨space, tab, line, form, carriage, slash, greater, null⟩ := none
  exact ⟨by simp [Text.isBlank, space, tab, line, form, carriage], slash, greater, null⟩

theorem isNameCharacter_of_isLetter (letter : Text.isLetter c = true) :
    isNameCharacter c = true := by
  unfold isNameCharacter Text.isAlphanumeric
  rw [letter]
  rfl

/-- A character that goes on the name of a tag only for the tokenizer makes it an odd name. -/
theorem odd_of_not_isNameCharacter (other : isNameCharacter c = false) (name : Text) :
    Odd (name ++ [State.keptInName c]) := by
  refine ⟨State.keptInName c, by simp, ?_⟩
  unfold State.keptInName
  split
  · decide
  · rw [Bool.eq_false_iff]
    intro small
    rw [isNameCharacter_of_isLetter (Text.isLetter_of_lowerChar small)] at other
    cases other

theorem Odd.append (h : Odd name) (more : Text) : Odd (name ++ more) := by
  obtain ⟨c, member, other⟩ := h
  exact ⟨c, List.mem_append_left _ member, other⟩

/-- The scanner at a character of the name of a tag. -/
def stepName (scan : Scan) (c : Char) : Scan :=
  if isNameCharacter c then { scan with name := scan.name ++ [Text.lowerChar c] }
  else scan.stepTag c

theorem sees_stepTagName (fine : ¬ State.Misleads (.tagName tag) c rest) :
    Sees rest (stepName ⟨.tagName, tag.name, tag.closing, 0⟩ c) (State.stepTagName tag c).1 := by
  unfold stepName State.stepTagName
  split
  · rename_i word
    obtain ⟨blank, slash, greater, null⟩ := facts_of_isNameCharacter word
    simp only [blank, slash, greater, if_false, Bool.false_eq_true]
    rw [show State.keptInName c = Text.lowerChar c from if_neg null]
    exact .tagName { tag with name := tag.name ++ [Text.lowerChar c] }
  · rename_i other
    have equals : c ≠ '=' := by
      rintro rfl
      exact fine (.equals (.tagName tag))
    rw [Bool.not_eq_true] at other
    by_cases greater : c = '>'
    · subst greater
      exact sees_closeTag_of_greater (.refl tag)
    · rw [stepTag_eq equals greater]
      split
      · exact .tag (.beforeName tag) (.refl tag)
      · rename_i blank
        split
        · exact .tag (.selfClosing tag) (.refl tag)
        · rename_i slash
          refine @Sees.oddName _ _ _ { tag with name := tag.name ++ [State.keptInName c] } rfl
            fun side => ?_
          refine ⟨?_, odd_of_not_isNameCharacter other tag.name⟩
          rw [Bool.eq_false_iff]
          refine fun isRaw => fine (.name side isRaw other ?_)
          simp [State.endsWord, blank, slash, greater]

theorem sees_oddName (side : closing = tag.closing)
    (odd : closing = false → Vocabulary.isRawText name = false ∧ Odd tag.name)
    (fine : ¬ State.Misleads (.tagName tag) c rest) :
    Sees rest (stepTag ⟨.tag, name, closing, 0⟩ c) (State.stepTagName tag c).1 := by
  have knows : Knows name closing tag :=
    ⟨side, fun opening => .inr ⟨(odd opening).1, (odd opening).2.not_raw⟩⟩
  have equals : c ≠ '=' := by
    rintro rfl
    exact fine (.equals (.tagName tag))
  unfold State.stepTagName
  by_cases greater : c = '>'
  · subst greater
    exact sees_closeTag_of_greater knows
  · rw [stepTag_eq equals greater]
    split
    · exact .tag (.beforeName tag) knows
    · split
      · exact .tag (.selfClosing tag) knows
      · exact @Sees.oddName _ _ _ { tag with name := _ } side fun opening =>
          ⟨(odd opening).1, (odd opening).2.append _⟩

/-! ### Attribute values -/

theorem sees_leaveQuoted {quote : Quote} {mark : Char} (encloses : Encloses quote mark)
    (knows : Knows name closing tag) :
    Sees rest ⟨.tag, name, closing, 0⟩ (State.leaveValue tag quote mark).1 := by
  cases encloses <;> exact .tag (.afterValue tag) knows

theorem ends_of_encloses {quote : Quote} {mark : Char} (encloses : Encloses quote mark) :
    quote.ends c = (c == mark) := by
  cases encloses <;> rfl

theorem sees_quoted {quote : Quote} {mark : Char} (encloses : Encloses quote mark)
    (knows : Knows name closing tag) (key value : Text) (position : Option Reference) :
    Sees rest (step ⟨.quoted mark, name, closing, 0⟩ c rest)
      ((State.inValue tag key quote value position).step c).1 := by
  cases ends : quote.ends c with
  | true =>
    obtain ⟨w, leaves⟩ := State.step_inValue_ends ends tag key value position
    rw [ends_of_encloses encloses, beq_iff_eq] at ends
    subst ends
    rw [leaves]
    simp only [step, if_true]
    exact sees_leaveQuoted encloses (knows.withAttribute key w)
  | false =>
    obtain ⟨v, later, goesOn⟩ := State.step_inValue_goesOn ends tag key value position
    rw [ends_of_encloses encloses, beq_eq_false_iff_ne] at ends
    rw [goesOn]
    simp only [step, ends, if_false]
    exact .quoted key v later encloses knows

/-- The scanner at a character of a value without quotation marks. -/
def stepUnquoted (scan : Scan) (c : Char) : Scan :=
  if c = '>' then scan.finishTag
  else if Text.isBlank c then { scan with place := .tag }
  else scan

theorem sees_unquoted {next : State × List Token} (knows : Knows name closing tag) (key : Text)
    (ends : Quote.none.ends c = true →
      ∃ w, next = State.leaveValue (tag.withAttribute key w) .none c)
    (goesOn : Quote.none.ends c = false →
      ∃ v position, next = (State.inValue tag key .none v position, [])) :
    Sees rest (stepUnquoted ⟨.unquoted, name, closing, 0⟩ c) next.1 := by
  unfold stepUnquoted
  by_cases greater : c = '>'
  · subst greater
    obtain ⟨w, rfl⟩ := ends rfl
    exact sees_closeTag_of_greater (knows.withAttribute key w)
  · rw [if_neg greater]
    cases blank : Text.isBlank c with
    | true =>
      obtain ⟨w, rfl⟩ := ends (by simp [Quote.ends, blank])
      unfold State.leaveValue
      rw [if_neg greater]
      exact .tag (.beforeName _) (knows.withAttribute key w)
    | false =>
      obtain ⟨v, position, rfl⟩ := goesOn (by simp [Quote.ends, blank, greater])
      exact .unquoted key v position knows

theorem sees_stepBeforeValue (knows : Knows name closing tag) (key : Text) (c : Char) :
    Sees rest (step ⟨.beforeValue, name, closing, 0⟩ c rest)
      (State.stepBeforeValue tag key c).1 := by
  by_cases double : c = '"'
  · subst double
    exact .quoted key [] none .double knows
  by_cases single : c = '\''
  · subst single
    exact .quoted key [] none .single knows
  have marks : ¬ (c = '"' ∨ c = '\'') := not_or.mpr ⟨double, single⟩
  unfold State.stepBeforeValue
  by_cases greater : c = '>'
  · subst greater
    exact sees_closeTag_of_greater (knows.withAttribute key [])
  · simp only [step, marks, greater, if_false]
    split
    · exact .beforeValue key knows
    · rename_i blank
      have other : Quote.none.ends c = false := by simp [Quote.ends, blank, greater]
      obtain ⟨v, position, goesOn⟩ := State.stepValue_goesOn other tag key []
      rw [goesOn]
      exact .unquoted key v position knows

/-! ### Content without tags -/

/-- The scanner at a character of raw text. -/
def stepRawText (scan : Scan) (element : Text) (c : Char) (rest : Text) : Scan :=
  if c = '<' ∧ closes element rest = true then scan.startTag true 1 else scan

theorem sees_openMove {element : Text} (isRaw : Vocabulary.isRawText element = true)
    (move : State.OpenMove element c state) :
    Sees rest (stepRawText ⟨.rawText element, name, closing, 0⟩ element c rest) state := by
  unfold stepRawText
  cases move with
  | content other isOpen same =>
    subst same
    rw [if_neg fun both => other both.1]
    exact .raw isOpen isRaw
  | reference ref other =>
    rw [if_neg fun both => other both.1]
    exact .rawReference ref isRaw
  | less first held same =>
    subst same first
    cases found : closes _ rest with
    | true => exact .closingLess isRaw found
    | false => exact .rawLess held isRaw found

theorem stepRawText_of_ne (other : c ≠ '<') (scan : Scan) (element rest : Text) :
    scan.stepRawText element c rest = scan := if_neg fun both => other both.1

theorem sees_rawLess {content : RawContent} (held : content.Held)
    (isRaw : Vocabulary.isRawText content.element = true)
    (none : closes content.element (c :: rest) = false) :
    Sees rest (stepRawText ⟨.rawText content.element, name, closing, 0⟩ content.element c rest)
      (State.stepRawLess content c).1 := by
  by_cases slash : c = '/'
  · subst slash
    refine .rawEndOpen held isRaw fun spelled => ?_
    rw [closes_iff.mpr ⟨rest, rfl, spelled⟩] at none
    cases none
  · exact sees_openMove isRaw (State.openMove_stepRawLess held slash)

theorem sees_rawEndOpen {content : RawContent} (held : content.Held)
    (isRaw : Vocabulary.isRawText content.element = true)
    (none : ¬ Spelled content.element [] (c :: rest)) :
    Sees rest (stepRawText ⟨.rawText content.element, name, closing, 0⟩ content.element c rest)
      (State.stepRawEndOpen content c).1 := by
  unfold State.stepRawEndOpen
  split
  · rename_i letter
    rw [stepRawText_of_ne (Text.facts_of_isLetter letter).1]
    exact .rawEndName [c] held isRaw fun spelled => none (spelled_cons.mpr (.inr spelled))
  · exact sees_openMove isRaw (State.openMove_held held)

theorem sees_rawEndName {content : RawContent} {letters : Text} (held : content.Held)
    (isRaw : Vocabulary.isRawText content.element = true)
    (none : ¬ Spelled content.element letters (c :: rest)) :
    Sees rest (stepRawText ⟨.rawText content.element, name, closing, 0⟩ content.element c rest)
      (State.stepRawEndName content letters c).1 := by
  have other : Text.lower letters ≠ content.element :=
    fun same => none (spelled_cons.mpr (.inl same))
  unfold State.stepRawEndName
  simp only [other, false_and, if_false]
  split
  · rename_i letter
    rw [stepRawText_of_ne (Text.facts_of_isLetter letter).1]
    exact .rawEndName _ held isRaw fun spelled => none (spelled_cons.mpr (.inr spelled))
  · exact sees_openMove isRaw (State.openMove_held held)

/-- The names of elements with raw text are made of letters. -/
theorem isLetter_of_spelled {element letters : Text} (isRaw : Vocabulary.isRawText element = true)
    (spelled : Spelled element (letters ++ [c]) rest) : Text.isLetter c = true := by
  obtain ⟨more, after, _, rfl⟩ := spelled
  refine Text.isLetter_of_lowerChar (Vocabulary.isSmall_of_isRawText isRaw ?_)
  simp [Text.lower]

theorem sees_closingOpen {content : RawContent}
    (isRaw : Vocabulary.isRawText content.element = true)
    (spelled : Spelled content.element [] (c :: rest)) :
    Sees rest (stepName ⟨.tagName, [], true, 0⟩ c) (State.stepRawEndOpen content c).1 := by
  rcases spelled_cons.mp spelled with empty | later
  · rw [← empty] at isRaw
    cases isRaw
  · have letter := isLetter_of_spelled isRaw later
    unfold State.stepRawEndOpen stepName
    rw [if_pos letter, if_pos (isNameCharacter_of_isLetter letter)]
    exact .closingName [c] isRaw later

theorem sees_closingName {content : RawContent} {letters : Text}
    (isRaw : Vocabulary.isRawText content.element = true)
    (spelled : Spelled content.element letters (c :: rest))
    (fine : ¬ State.Misleads (.rawEndName content letters) c rest) :
    Sees rest (stepName ⟨.tagName, name, true, 0⟩ c)
      (State.stepRawEndName content letters c).1 := by
  unfold State.stepRawEndName stepName
  rcases spelled_cons.mp spelled with same | later
  · have ends : State.endsWord c = true := by
      rw [← Bool.not_eq_false]
      exact fun apart => fine (.endName same apart)
    have other : isNameCharacter c = false := by
      rw [Bool.eq_false_iff]
      intro word
      obtain ⟨blank, slash, greater, _⟩ := facts_of_isNameCharacter word
      simp [State.endsWord, blank, slash, greater] at ends
    have letter : Text.isLetter c = false := by
      rw [Bool.eq_false_iff]
      intro letter
      rw [isNameCharacter_of_isLetter letter] at other
      cases other
    have equals : c ≠ '=' := by
      rintro rfl
      exact absurd ends (by decide)
    simp only [letter, other, same, true_and, if_false, Bool.false_eq_true]
    by_cases greater : c = '>'
    · subst greater
      exact sees_closeTag_of_greater (.of_closing name rfl)
    · rw [stepTag_eq equals greater]
      split
      · exact .tag (.beforeName _) (.of_closing name rfl)
      · rename_i blank
        split
        · exact .tag (.selfClosing _) (.of_closing name rfl)
        · rename_i slash
          simp [State.endsWord, blank, slash, greater] at ends
  · have letter := isLetter_of_spelled isRaw later
    rw [if_pos letter, if_pos (isNameCharacter_of_isLetter letter)]
    exact .closingName _ isRaw later

/-! ### All places -/

theorem sees_startName (letter : Text.isLetter c = true) (closing : Bool)
    (attributes : List Attribute) :
    Sees rest (stepName ⟨.tagName, [], closing, 0⟩ c)
      (.tagName ⟨closing, [Text.lowerChar c], attributes⟩) := by
  unfold stepName
  rw [if_pos (isNameCharacter_of_isLetter letter)]
  exact .tagName ⟨closing, [Text.lowerChar c], attributes⟩

/-- The scanner goes on seeing what the tokenizer does, unless a character misleads it. -/
theorem Sees.step (h : Sees (c :: rest) scan state) (fine : ¬ State.Misleads state c rest) :
    Sees rest (scan.advance c rest) (state.step c).1 := by
  cases h with
  | data => exact sees_stepData _ _ c rest
  | reference ref => exact sees_reference _ _ ref c rest
  | less none => exact sees_stepTagOpen none
  | @slash name closing none =>
    show Sees rest (stepContent ⟨.content, name, closing, 0⟩ c rest) (State.stepEndTagOpen c).1
    rw [stepContent_of_deaf .endTagOpen fine]
    exact sees_stepEndTagOpen none
  | @declaration name closing seen none =>
    show Sees rest (stepContent ⟨.content, name, closing, 0⟩ c rest)
      (State.stepDeclaration seen c).1
    rw [stepContent_of_deaf (.declaration seen) fine]
    exact sees_stepDeclaration none
  | @bogusComment name closing data =>
    show Sees rest (stepContent ⟨.content, name, closing, 0⟩ c rest)
      (State.stepBogusComment data c).1
    rw [stepContent_of_deaf (.bogusComment data) fine]
    exact sees_stepBogusComment data c
  | @doctype name closing phase word =>
    show Sees rest (stepContent ⟨.content, name, closing, 0⟩ c rest)
      (State.stepDoctype phase word c).1
    rw [stepContent_of_deaf (.doctype phase word) fine]
    exact sees_stepDoctype phase word c
  | commentLess same =>
    obtain ⟨rfl, rfl⟩ := List.cons.inj same
    exact .commentMark rfl
  | commentMark same =>
    obtain ⟨rfl, rfl⟩ := List.cons.inj same
    exact .commentDash rfl
  | commentDash same =>
    obtain ⟨rfl, rfl⟩ := List.cons.inj same
    exact .comment .start [] trivial
  | comment phase data looked => exact sees_comment looked fine
  | lastDash data same dash =>
    obtain ⟨rfl, rfl⟩ := List.cons.inj same
    exact sees_lastDash data dash
  | lastMark data same =>
    obtain ⟨rfl, rfl⟩ := List.cons.inj same
    exact .data
  | startTag first =>
    have letter : Text.isLetter c = true := first
    obtain ⟨_, _, slash, _⟩ := Text.facts_of_isLetter letter
    have mark : c ≠ '!' := by
      rintro rfl
      cases letter
    show Sees rest (stepName ⟨.tagName, [], false, 0⟩ c) (State.stepTagOpen c).1
    simp only [State.stepTagOpen, mark, slash, letter, if_true, if_false]
    exact sees_startName letter false []
  | endTagLess same letter =>
    obtain ⟨rfl, rfl⟩ := List.cons.inj same
    exact .endTag letter
  | endTag first =>
    have letter : Text.isLetter c = true := first
    show Sees rest (stepName ⟨.tagName, [], true, 0⟩ c) (State.stepEndTagOpen c).1
    simp only [State.stepEndTagOpen, letter, if_true]
    exact sees_startName letter true []
  | tagName tag => exact sees_stepTagName fine
  | oddName side odd => exact sees_oddName side odd fine
  | tag inside knows => exact sees_inside inside knows fine
  | beforeValue key knows => exact sees_stepBeforeValue knows key c
  | quoted key value position encloses knows => exact sees_quoted encloses knows key value position
  | @unquoted name closing tag key value position knows =>
    exact sees_unquoted knows key (fun ends => State.step_inValue_ends ends tag key value position)
      (fun other => State.step_inValue_goesOn other tag key value position)
  | @raw name closing content isOpen isRaw =>
    refine sees_openMove isRaw (State.openMove_stepRaw isOpen ?_)
    rintro element rfl
    rw [Bool.eq_false_iff]
    exact fun ends => fine (.nested ends)
  | @rawReference name closing element ref isRaw =>
    exact sees_openMove isRaw (State.openMove_stepReference element ref c)
  | rawLess held isRaw none => exact sees_rawLess held isRaw none
  | rawEndOpen held isRaw none => exact sees_rawEndOpen held isRaw none
  | rawEndName letters held isRaw none => exact sees_rawEndName held isRaw none
  | @closingLess content isRaw found =>
    obtain ⟨after, same, spelled⟩ := closes_iff.mp found
    obtain ⟨rfl, rfl⟩ := List.cons.inj same
    exact .closingOpen isRaw spelled
  | closingOpen isRaw spelled => exact sees_closingOpen isRaw spelled
  | closingName letters isRaw spelled => exact sees_closingName isRaw spelled fine

/-! ### Line ends -/

/-- What the scanner skips, remembers and waits for has no line ends. -/
structure Plain (scan : Scan) (rest : Text) : Prop where
  skip : scan.skip = 0 ∨ ∃ c after, rest = c :: after ∧ c ∈ ['!', '-', '>', '/']
  element : ∀ element, scan.place = .rawText element → Vocabulary.isRawText element = true
  mark : ∀ mark, scan.place = .quoted mark → mark = '"' ∨ mark = '\''

theorem Sees.plain (h : Sees rest scan state) : Plain scan rest := by
  have elsewhere : ∀ {place : Place} {name closing}, (∀ element, place ≠ .rawText element) →
      (∀ mark, place ≠ .quoted mark) → Plain ⟨place, name, closing, 0⟩ rest :=
    fun notRaw notQuoted => ⟨.inl rfl, fun element same => absurd same (notRaw element),
      fun mark same => absurd same (notQuoted mark)⟩
  have skips : ∀ {place : Place} {name closing skip}, (∀ element, place ≠ .rawText element) →
      (∀ mark, place ≠ .quoted mark) → (∃ c after, rest = c :: after ∧ c ∈ ['!', '-', '>', '/']) →
      Plain ⟨place, name, closing, skip⟩ rest :=
    fun notRaw notQuoted first => ⟨.inr first, fun element same => absurd same (notRaw element),
      fun mark same => absurd same (notQuoted mark)⟩
  have inRaw : ∀ {name closing} {element : Text}, Vocabulary.isRawText element = true →
      Plain ⟨.rawText element, name, closing, 0⟩ rest := by
    intro name closing element isRaw
    refine ⟨.inl rfl, fun other same => ?_, fun mark same => by cases same⟩
    cases same
    exact isRaw
  cases h with
  | commentLess same => exact skips (by simp) (by simp) ⟨_, _, same, by simp⟩
  | commentMark same => exact skips (by simp) (by simp) ⟨_, _, same, by simp⟩
  | commentDash same => exact skips (by simp) (by simp) ⟨_, _, same, by simp⟩
  | lastDash data same dash => exact skips (by simp) (by simp) ⟨_, _, same, by simp⟩
  | lastMark data same => exact skips (by simp) (by simp) ⟨_, _, same, by simp⟩
  | endTagLess same letter => exact skips (by simp) (by simp) ⟨_, _, same, by simp⟩
  | closingLess isRaw found =>
    obtain ⟨after, same, _⟩ := closes_iff.mp found
    exact skips (by simp) (by simp) ⟨_, _, same, by simp⟩
  | quoted key value position encloses knows =>
    refine ⟨.inl rfl, fun element same => (by cases same), fun mark same => ?_⟩
    cases same
    cases encloses
    · exact .inl rfl
    · exact .inr rfl
  | raw isOpen isRaw => exact inRaw isRaw
  | rawReference ref isRaw => exact inRaw isRaw
  | rawLess held isRaw none => exact inRaw isRaw
  | rawEndOpen held isRaw none => exact inRaw isRaw
  | rawEndName letters held isRaw none => exact inRaw isRaw
  | _ => exact elsewhere (by simp) (by simp)

theorem startsWith_normalizeNewlines {phrase : Text} (plain : ∀ c ∈ phrase, c ≠ '\r' ∧ c ≠ '\n')
    (text : Text) :
    Text.startsWith phrase (normalizeNewlines text) = Text.startsWith phrase text := by
  rw [Bool.eq_iff_iff, Text.startsWith_eq_true, Text.startsWith_eq_true]
  constructor
  · rintro ⟨after, same⟩
    obtain ⟨later, split, _⟩ := normalizeNewlines_eq_append same fun c member => (plain c member).2
    exact ⟨later, split⟩
  · rintro ⟨after, rfl⟩
    exact ⟨_, normalizeNewlines_inert (fun c member => (plain c member).1) after⟩

theorem startsWithLetter_normalizeNewlines (text : Text) :
    startsWithLetter (normalizeNewlines text) = startsWithLetter text := by
  induction text using normalizeNewlines.induct with
  | case1 text _ => rw [normalizeNewlines]; rfl
  | case2 text none _ => rw [normalizeNewlines_return none]; rfl
  | case3 c text _ notReturn _ => rw [normalizeNewlines_cons notReturn]; rfl
  | case4 => rfl

theorem closes_normalizeNewlines {element : Text} (isRaw : Vocabulary.isRawText element = true)
    (text : Text) : closes element (normalizeNewlines text) = closes element text := by
  have letters : ∀ more : Text, Text.lower more = element →
      ∀ c ∈ '/' :: more, c ≠ '\r' ∧ c ≠ '\n' := by
    rintro more rfl c member
    rcases List.mem_cons.mp member with rfl | member
    · decide
    · have small : Text.isSmall (Text.lowerChar c) = true :=
        Vocabulary.isSmall_of_isRawText isRaw (List.mem_map_of_mem member)
      have letter := Text.isLetter_of_lowerChar small
      refine ⟨?_, ?_⟩ <;> rintro rfl <;> cases letter
  rw [Bool.eq_iff_iff, closes_iff, closes_iff]
  constructor
  · rintro ⟨after, same, more, last, rfl, spelled⟩
    rw [← List.cons_append] at same
    obtain ⟨later, split, _⟩ := normalizeNewlines_eq_append same
      fun c member => (letters more spelled c member).2
    exact ⟨_, split, more, later, rfl, spelled⟩
  · rintro ⟨after, rfl, more, last, rfl, spelled⟩
    refine ⟨more ++ normalizeNewlines last, ?_, more, _, rfl, spelled⟩
    have whole := normalizeNewlines_inert (fun c member => (letters more spelled c member).1) last
    exact whole

theorem stepContent_normalizeNewlines (scan : Scan) (c : Char) (text : Text) :
    scan.stepContent c (normalizeNewlines text) = scan.stepContent c text := by
  have opening : ∀ c ∈ ['!', '-', '-'], c ≠ '\r' ∧ c ≠ '\n' :=
    List.all_iff_forall_prop.mp (by decide)
  unfold stepContent
  rw [startsWith_normalizeNewlines opening, startsWithLetter_normalizeNewlines]
  split
  · rfl
  · split
    · rfl
    · induction text using normalizeNewlines.induct with
      | case1 text _ =>
        rw [normalizeNewlines]
        rfl
      | case2 text apart _ =>
        rw [normalizeNewlines_return apart]
        rfl
      | case3 d text _ notReturn _ =>
        rw [normalizeNewlines_cons notReturn]
        by_cases slash : d = '/'
        · subst slash
          simp only [startsWithLetter_normalizeNewlines]
        · simp [slash]
      | case4 => rfl

/-- The scanner does not look at line ends. -/
theorem advance_normalizeNewlines (plain : Plain scan rest) (c : Char) (text : Text) :
    scan.advance c (normalizeNewlines text) = scan.advance c text := by
  unfold advance
  split
  · unfold step
    cases place : scan.place with
    | content => exact stepContent_normalizeNewlines scan c text
    | comment =>
      have ending : ∀ c ∈ ['-', '>'], c ≠ '\r' ∧ c ≠ '\n' := List.all_iff_forall_prop.mp (by decide)
      simp only [startsWith_normalizeNewlines ending]
    | rawText element =>
      have same := closes_normalizeNewlines (plain.element element place) text
      unfold closes at same
      simp only [same]
    | _ => rfl
  · rfl

/-- All line ends are the same for the scanner, and two of them are no more than one. -/
theorem advance_line (plain : Plain scan ('\n' :: rest)) (text more other : Text) :
    scan.advance '\r' text = scan.advance '\n' other ∧
      (scan.advance '\n' other).advance '\n' more = scan.advance '\n' other := by
  obtain ⟨place, name, closing, skip⟩ := scan
  obtain rfl : skip = 0 := by
    refine plain.skip.resolve_right ?_
    rintro ⟨c, after, same, member⟩
    obtain ⟨rfl, rfl⟩ := List.cons.inj same
    exact absurd member (by decide)
  cases place with
  | quoted mark =>
    rcases plain.mark mark rfl with rfl | rfl <;> exact ⟨rfl, rfl⟩
  | _ => exact ⟨rfl, rfl⟩

/-! ## Segments -/

/-- The scanner sees where the tokenizer is after a segment in which nothing misleads it. -/
theorem Sees.feed {segment : Text} (h : Sees (normalizeNewlines segment) scan state)
    (leads : ∀ before c after, normalizeNewlines segment = before ++ c :: after →
      ¬ State.Misleads (state.after before) c after) :
    Sees [] (scan.feed segment) (state.after (normalizeNewlines segment)) := by
  induction segment using normalizeNewlines.induct generalizing scan state with
  | case1 text ih =>
    rw [normalizeNewlines] at h leads ⊢
    obtain ⟨line, again⟩ := advance_line h.plain ('\n' :: text) text (normalizeNewlines text)
    rw [feed_cons, feed_cons, line, again]
    exact ih (h.step (leads [] _ _ rfl)) fun before d after split =>
      leads ('\n' :: before) d after (congrArg ('\n' :: ·) split)
  | case2 text none ih =>
    rw [normalizeNewlines_return none] at h leads ⊢
    rw [feed_cons, (advance_line h.plain text [] (normalizeNewlines text)).1]
    exact ih (h.step (leads [] _ _ rfl)) fun before d after split =>
      leads ('\n' :: before) d after (congrArg ('\n' :: ·) split)
  | case3 c text _ notReturn ih =>
    rw [normalizeNewlines_cons notReturn] at h leads ⊢
    rw [feed_cons, ← advance_normalizeNewlines h.plain]
    exact ih (h.step (leads [] _ _ rfl)) fun before d after split =>
      leads (c :: before) d after (congrArg (c :: ·) split)
  | case4 => exact h

end Scan

end HtmlTemplate

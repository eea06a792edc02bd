import HtmlTemplate.Proofs.Markup.Reading
import HtmlTemplate.Proofs.Markup.Value
import HtmlTemplate.Proofs.Text

/-!
# What one character does

The states of the tokenizer are of seven kinds: ordinary text, the content of an element without
tags, end tags, start tags outside attribute values, attribute values, comments and document types.
For each kind one lemma says all that a character can do there (`step_text` and its likes): which
text goes on, by which reading, and what may begin or end. What is to be shown of a step of the
tokenizer follows from these lemmas, without another look at its transitions.
-/

namespace HtmlTemplate

theorem Token.characters_inj {u v : Text} (h : characters u = characters v) : u = v :=
  List.map_injective_iff.mpr (fun _ _ same => Token.character.inj same) h

/-- How content without tags is read. -/
def RawContent.reading : RawContent → Reading
  | plain _ => .decoded false
  | script _ _ => .verbatim

namespace State

variable {state : State} {c : Char}

/-! ## Ordinary text -/

/-- In ordinary text, and maybe where a mark may begin. -/
def IsText : State → Prop
  | data => True
  | tagOpen => True
  | endTagOpen => True
  | reference .data _ => True
  | _ => False

theorem IsText.of_step {after next : State} {tokens others : List Token} (h : next.IsText)
    (step : (after, tokens) = (next, others)) : after.IsText := (Prod.mk.inj step).1 ▸ h

/-- The reference that is being read in ordinary text. -/
def reference? : State → Option Reference
  | reference .data ref => some ref
  | _ => none

/-- What a character of ordinary text does. -/
inductive TextMove (state : State) (c : Char) : State × List Token → Prop
  | text {next : State} {u : Text} : next.IsText →
      next.reference? = ((Reading.decoded false).take state.reference? c).2 →
      TextMove state c (next, Token.characters u)
  | declaration : TextMove state c (.declaration [], [])
  | bogus : TextMove state c (.bogusComment [kept c], [])
  | startTag (name : Text) : TextMove state c (.tagName ⟨false, name, []⟩, [])
  | endTag (name : Text) : state = .endTagOpen → TextMove state c (.tagName ⟨true, name, []⟩, [])

theorem stepData_text (c : Char) : ∃ next u, stepData c = (next, Token.characters u) ∧
    next.IsText ∧ next.reference? = ((Reading.decoded false).first c).2 := by
  have first : (Reading.decoded false).first c =
      if c = '&' then ([], some .start) else ([kept c], none) := rfl
  unfold stepData
  rw [first]
  split
  · exact ⟨.reference .data .start, [], rfl, trivial, rfl⟩
  · split
    · exact ⟨.tagOpen, [], rfl, trivial, rfl⟩
    · exact ⟨.data, [c], rfl, trivial, rfl⟩

theorem emitting_text (c : Char) (before : Text) : ∃ next u,
    emitting (Token.characters before) (stepData c) = (next, Token.characters u) ∧ next.IsText ∧
      next.reference? = ((Reading.decoded false).first c).2 := by
  obtain ⟨next, u, same, isText, reference⟩ := stepData_text c
  refine ⟨next, before ++ u, ?_, isText, reference⟩
  rw [same, emitting]
  simp [Token.characters]

theorem textMove_stepTagOpen (c : Char) : TextMove .tagOpen c (stepTagOpen c) := by
  unfold stepTagOpen
  split
  · exact .declaration
  · split
    · rename_i slash
      subst slash
      exact .text (u := []) trivial rfl
    · split
      · exact .startTag _
      · split
        · rename_i question
          subst question
          exact .bogus
        · obtain ⟨next, u, same, isText, reference⟩ := emitting_text c ['<']
          rw [show [Token.character '<'] = Token.characters ['<'] from rfl, same]
          exact .text isText reference

theorem textMove_stepEndTagOpen (c : Char) : TextMove .endTagOpen c (stepEndTagOpen c) := by
  unfold stepEndTagOpen
  split
  · exact .endTag _ rfl
  · split
    · rename_i last
      subst last
      exact .text (u := []) trivial rfl
    · rename_i other
      rw [stepBogusComment, if_neg other]
      exact .bogus

theorem textMove_stepReference (ref : Reference) (c : Char) :
    TextMove (.reference .data ref) c (stepReference .data ref c) := by
  unfold stepReference
  simp only [ReferenceTarget.inAttribute]
  cases outcome : ref.step false c with
  | more ref' =>
    have read := Reading.take_more (r := .decoded false) outcome
    exact .text (u := []) trivial (congrArg Prod.snd read).symm
  | done text =>
    have read := Reading.take_done (r := .decoded false) outcome
    have isText : IsText .data := trivial
    exact .text isText (congrArg Prod.snd read).symm
  | before text =>
    have read := Reading.take_before (r := .decoded false) outcome
    obtain ⟨next, u, same, isText, reference⟩ := emitting_text c text
    show TextMove _ _ (emitting (Token.characters text) (stepData c))
    rw [same]
    exact .text isText (reference.trans (congrArg Prod.snd read).symm)

theorem step_text (h : state.IsText) (c : Char) : TextMove state c (state.step c) := by
  cases state with
  | data =>
    obtain ⟨next, u, same, isText, reference⟩ := stepData_text c
    show TextMove _ _ (stepData c)
    rw [same]
    exact .text isText reference
  | tagOpen => exact textMove_stepTagOpen c
  | endTagOpen => exact textMove_stepEndTagOpen c
  | reference target ref =>
    cases target with
    | data => exact textMove_stepReference ref c
    | _ => exact h.elim
  | _ => exact h.elim

/-- Ordinary text reads references like every content does. -/
theorem reference?_step (h : state.IsText) (next : (state.step c).1.IsText) :
    (state.step c).1.reference? = ((Reading.decoded false).take state.reference? c).2 := by
  have move := step_text h c
  generalize state.step c = after at move next
  cases move with
  | text _ reference => exact reference
  | _ => exact next.elim

/-! ## Content without tags -/

/-- In content without tags: what is read as a reference, and what is held back since it may begin
the end tag. -/
inductive Raw : State → RawContent → Option Reference → Text → Prop
  | plain (content : RawContent) : Raw (raw content) content none []
  | less (content : RawContent) : Raw (rawLess content) content none ['<']
  | endOpen (content : RawContent) : Raw (rawEndOpen content) content none ['<', '/']
  | endName (content : RawContent) (letters : Text) :
      Raw (rawEndName content letters) content none ('<' :: '/' :: letters)
  | reference (element : Text) (ref : Reference) :
      Raw (reference (.raw element) ref) (.plain element) (some ref) []

/-- Content goes on with a character: `u` is told of, and what was held back and what the character
is read as is either told of or held back. -/
structure RawOn (content : RawContent) (pending : Option Reference) (held : Text) (c : Char)
    (next : State) (u : Text) : Prop where
  goes : ∃ content' held', next.Raw content' (content.reading.take pending c).2 held' ∧
    content'.element = content.element ∧ content'.reading = content.reading ∧
    held ++ (content.reading.take pending c).1 = u ++ held'

/-- What a character of content without tags does. -/
inductive RawMove (content : RawContent) (pending : Option Reference) (held : Text) (c : Char) :
    State × List Token → Prop
  | on {next : State} {u : Text} : RawOn content pending held c next u →
      RawMove content pending held c (next, Token.characters u)
  | attributes : RawMove content pending held c (.beforeName ⟨true, content.element, []⟩, [])
  | slash : RawMove content pending held c (.selfClosing ⟨true, content.element, []⟩, [])
  | closes : c = '>' → RawMove content pending held c (.data, [.endTag content.element])

theorem kept_of_ne {c : Char} (other : c ≠ null) : kept c = c := if_neg other

theorem ne_null_of_isLetter {c : Char} (h : Text.isLetter c = true) : c ≠ null := by
  rintro rfl
  exact absurd h (by decide)

/-- A step in a script that tells of the character as it is kept. -/
def ToldOf (element : Text) (c : Char) (next : State × List Token) : Prop :=
  ∃ phase, next = (raw (.script element phase), [.character (kept c)])

/-- A step in a script that holds a `<` back. -/
def HeldBack (element : Text) (c : Char) (next : State × List Token) : Prop :=
  c = '<' ∧ ∃ phase, next = (rawLess (.script element phase), [])

section Script

variable {element : Text}

/-- A character that is told of as it is. -/
theorem toldOf_itself (phase : ScriptPhase) (ne : c ≠ null) :
    ToldOf element c (raw (.script element phase), [.character c]) := by
  refine ⟨phase, ?_⟩
  rw [kept_of_ne ne]

theorem ne_null_of_endsWord (h : endsWord c = true) : c ≠ null := by
  rintro rfl
  exact absurd h (by decide)

theorem stepScriptPlain_cases (element : Text) (c : Char) :
    ToldOf element c (stepScriptPlain element c) ∨
    HeldBack element c (stepScriptPlain element c) := by
  unfold stepScriptPlain
  split
  · rename_i less
    exact .inr ⟨less, _, rfl⟩
  · exact .inl ⟨_, rfl⟩

theorem stepScriptEscaped_cases (element : Text) (dashes : Nat) (c : Char) :
    ToldOf element c (stepScriptEscaped element dashes c) ∨
      HeldBack element c (stepScriptEscaped element dashes c) := by
  unfold stepScriptEscaped
  split
  · rename_i dash
    exact .inl (toldOf_itself _ (by rw [dash]; decide))
  · split
    · rename_i less
      exact .inr ⟨less, _, rfl⟩
    · split
      · rename_i ends
        exact .inl (toldOf_itself _ (by rw [ends.1]; decide))
      · exact .inl ⟨_, rfl⟩

theorem toldOf_stepScriptNested (element : Text) (dashes : Nat) (c : Char) :
    ToldOf element c (stepScriptNested element dashes c) := by
  unfold stepScriptNested
  split
  · rename_i dash
    exact toldOf_itself _ (by rw [dash]; decide)
  · split
    · rename_i less
      exact toldOf_itself _ (by rw [less]; decide)
    · split
      · rename_i ends
        exact toldOf_itself _ (by rw [ends.1]; decide)
      · exact ⟨_, rfl⟩

/-- A character of a script is told of or held back. -/
theorem stepScript_cases (element : Text) (phase : ScriptPhase) (c : Char) :
    ToldOf element c (stepScript element phase c) ∨
    HeldBack element c (stepScript element phase c) := by
  unfold stepScript
  cases phase with
  | plain => exact stepScriptPlain_cases element c
  | opening dashes =>
    simp only
    split
    · rename_i dash
      exact .inl (toldOf_itself _ (by rw [dash]; decide))
    · exact stepScriptPlain_cases element c
  | escaped dashes => exact stepScriptEscaped_cases element dashes c
  | entering word =>
    simp only
    split
    · rename_i word
      exact .inl (toldOf_itself _ (ne_null_of_endsWord word))
    · split
      · rename_i letter
        exact .inl (toldOf_itself _ (ne_null_of_isLetter letter))
      · exact stepScriptEscaped_cases element 0 c
  | nested dashes => exact .inl (toldOf_stepScriptNested element dashes c)
  | nestedLess =>
    simp only
    split
    · rename_i slash
      exact .inl (toldOf_itself _ (by rw [slash]; decide))
    · exact .inl (toldOf_stepScriptNested element 0 c)
  | leaving word =>
    simp only
    split
    · rename_i word
      exact .inl (toldOf_itself _ (ne_null_of_endsWord word))
    · split
      · rename_i letter
        exact .inl (toldOf_itself _ (ne_null_of_isLetter letter))
      · exact .inl (toldOf_stepScriptNested element 0 c)

end Script

section Raw

variable {content : RawContent} {pending : Option Reference} {held before : Text}

/-- What was held back is told of, and the content goes on with the character. -/
theorem rawMove_stepScript (element : Text) (known phase : ScriptPhase) (held : Text) (c : Char) :
    RawMove (.script element known) none held c
      (emitting (Token.characters held) (stepScript element phase c)) := by
  rcases stepScript_cases element phase c with ⟨phase', same⟩ | ⟨rfl, phase', same⟩
  · rw [same, emitting, show [Token.character (kept c)] = Token.characters [kept c] from rfl,
      Token.characters, Token.characters, ← List.map_append]
    exact .on ⟨.script element phase', [], .plain _, rfl, rfl, (List.append_nil _).symm⟩
  · rw [same, emitting, List.append_nil]
    exact .on ⟨.script element phase', ['<'], .less _, rfl, rfl, rfl⟩

theorem rawMove_stepRaw (content : RawContent) (held : Text) (c : Char) :
    RawMove content none held c (emitting (Token.characters held) (stepRaw content c)) := by
  cases content with
  | script element phase => exact rawMove_stepScript element phase phase held c
  | plain element =>
    unfold stepRaw
    simp only
    split
    · rename_i ampersand
      subst ampersand
      rw [emitting, List.append_nil]
      exact .on ⟨.plain element, [], .reference element .start, rfl, rfl, rfl⟩
    · rename_i literal
      have read : (RawContent.plain element).reading.take none c = ([kept c], none) :=
        if_neg literal
      split
      · rename_i less
        subst less
        rw [emitting, List.append_nil]
        exact .on ⟨.plain element, ['<'], .less _, rfl, rfl, rfl⟩
      · rw [emitting, show [Token.character (kept c)] = Token.characters [kept c] from rfl,
          Token.characters, Token.characters, ← List.map_append]
        refine .on ⟨.plain element, [], ?_, rfl, rfl, ?_⟩
        · rw [read]
          exact .plain _
        · rw [read, List.append_nil]

/-- A letter or a slash that is held back. -/
theorem RawMove.hold {next : State} (ne : c ≠ null) (literal : c ≠ '&')
    (holds : next.Raw content none (held ++ [c])) : RawMove content none held c (next, []) := by
  have read : content.reading.take none c = ([c], none) := by
    have same := kept_of_ne ne
    cases content with
    | plain element =>
      show (if c = '&' then _ else _) = _
      rw [if_neg literal, same]
    | script element phase =>
      show ([kept c], none) = _
      rw [same]
  refine .on (u := []) ⟨content, held ++ [c], ?_, rfl, rfl, ?_⟩
  · rw [read]
    exact holds
  · rw [read]
    rfl

/-- A reference that ends before a character is told of, and the content goes on with the
character. -/
theorem RawMove.after {element text : Text} {ref : Reference} {next : State × List Token}
    (h : RawMove (.plain element) none text c next) (ends : ref.step false c = .before text) :
    RawMove (.plain element) (some ref) [] c next := by
  have read := Reading.take_before (r := (RawContent.plain element).reading) ends
  cases h with
  | on goes =>
    obtain ⟨content', held', isRaw, same, reading, split⟩ := goes.goes
    refine .on ⟨content', held', ?_, same, reading, ?_⟩
    · rw [read]
      exact isRaw
    · rw [read]
      exact split
  | attributes => exact .attributes
  | slash => exact .slash
  | closes last => exact .closes last

theorem rawMove_stepRawLess (content : RawContent) (c : Char) :
    RawMove content none ['<'] c (stepRawLess content c) := by
  unfold stepRawLess
  split
  · rename_i slash
    subst slash
    exact .hold (by decide) (by decide) (.endOpen content)
  · split
    · split
      · rename_i bang
        subst bang
        exact .on ⟨.script _ _, [], .plain _, rfl, rfl, rfl⟩
      · exact rawMove_stepRaw _ ['<'] c
    · split
      · exact rawMove_stepScript _ _ (.entering []) ['<'] c
      · exact rawMove_stepRaw _ ['<'] c
    · exact rawMove_stepRaw _ ['<'] c

/-- A letter of what may be the end tag. -/
theorem RawMove.letter {next : State} (letter : Text.isLetter c = true)
    (holds : next.Raw content none (held ++ [c])) : RawMove content none held c (next, []) := by
  refine .hold (ne_null_of_isLetter letter) ?_ holds
  rintro rfl
  exact absurd letter (by decide)

theorem rawMove_stepRawEndOpen (content : RawContent) (c : Char) :
    RawMove content none ['<', '/'] c (stepRawEndOpen content c) := by
  unfold stepRawEndOpen
  split
  · rename_i letter
    exact .letter letter (.endName content [c])
  · exact rawMove_stepRaw content ['<', '/'] c

theorem rawMove_stepRawEndName (content : RawContent) (letters : Text) (c : Char) :
    RawMove content none ('<' :: '/' :: letters) c (stepRawEndName content letters c) := by
  unfold stepRawEndName
  simp only
  split
  · rename_i letter
    exact .letter letter (.endName content (letters ++ [c]))
  · split
    · rename_i same
      rw [same.1]
      exact .attributes
    · split
      · rename_i same
        rw [same.1]
        exact .slash
      · split
        · rename_i same
          rw [same.1]
          exact .closes same.2
        · exact rawMove_stepRaw content ('<' :: '/' :: letters) c

theorem rawMove_stepReference (element : Text) (ref : Reference) (c : Char) :
    RawMove (.plain element) (some ref) [] c (stepReference (.raw element) ref c) := by
  unfold stepReference
  simp only [ReferenceTarget.inAttribute]
  cases outcome : ref.step false c with
  | more ref' =>
    have read := Reading.take_more (r := (RawContent.plain element).reading) outcome
    refine .on (u := []) ⟨.plain element, [], ?_, rfl, rfl, ?_⟩
    · rw [read]
      exact .reference element ref'
    · rw [read]
  | done text =>
    have read := Reading.take_done (r := (RawContent.plain element).reading) outcome
    refine .on ⟨.plain element, [], ?_, rfl, rfl, ?_⟩
    · rw [read]
      exact .plain _
    · rw [read, List.append_nil, List.nil_append]
  | before text => exact (rawMove_stepRaw (.plain element) text c).after outcome

theorem step_raw (h : state.Raw content pending held) (c : Char) :
    RawMove content pending held c (state.step c) := by
  cases h with
  | plain content =>
    have move := rawMove_stepRaw content [] c
    exact move
  | less content => exact rawMove_stepRawLess content c
  | endOpen content => exact rawMove_stepRawEndOpen content c
  | endName content letters => exact rawMove_stepRawEndName content letters c
  | reference element ref => exact rawMove_stepReference element ref c

end Raw

/-! ## Tags -/

/-- The tag that is being read. -/
def tag? : State → Option Tag
  | tagName tag => some tag
  | beforeName tag => some tag
  | attributeName tag _ => some tag
  | afterName tag _ => some tag
  | beforeValue tag _ => some tag
  | value tag _ _ _ => some tag
  | reference (.value tag _ _ _) _ => some tag
  | afterValue tag => some tag
  | selfClosing tag => some tag
  | _ => none

/-- In the name of a tag. -/
def InTagName : State → Prop
  | tagName _ => True
  | _ => False

section Tags

variable {tag tag' : Tag}

/-- The same tag, with one more attribute at most, which is empty. -/
structure Extends (tag tag' : Tag) : Prop where
  closing : tag'.closing = tag.closing
  attributes : tag'.attributes = tag.attributes ∨
    ∃ name, tag'.attributes = Attribute.insert ⟨name, []⟩ tag.attributes

theorem Extends.refl (tag : Tag) : Extends tag tag := ⟨rfl, .inl rfl⟩

theorem Extends.bare (tag : Tag) (name : Text) : Extends tag (tag.withAttribute name []) :=
  ⟨rfl, .inr ⟨name, rfl⟩⟩

/-- In a tag, outside attribute values. -/
inductive Outside : State → Tag → Prop
  | tagName (tag : Tag) : Outside (tagName tag) tag
  | beforeName (tag : Tag) : Outside (beforeName tag) tag
  | attributeName (tag : Tag) (name : Text) : Outside (attributeName tag name) tag
  | afterName (tag : Tag) (name : Text) : Outside (afterName tag name) tag
  | beforeValue (tag : Tag) (name : Text) : Outside (beforeValue tag name) tag
  | afterValue (tag : Tag) : Outside (afterValue tag) tag
  | selfClosing (tag : Tag) : Outside (selfClosing tag) tag

theorem Outside.tag? {state : State} (h : Outside state tag) : state.tag? = some tag := by
  cases h <;> rfl

/-- Before an attribute value. -/
def AtValue : State → Prop
  | beforeValue _ _ => True
  | _ => False

/-- What a character of a tag outside attribute values does. -/
inductive TagMove (state : State) (tag : Tag) (c : Char) : State × List Token → Prop
  | on {next : State} {tag' : Tag} : Outside next tag' → Extends tag tag' →
      (next.AtValue → c = '=' ∨ Text.isBlank c = true) →
      (next.InTagName → state.InTagName) → (state.InTagName ∨ tag'.name = tag.name) →
      TagMove state tag c (next, [])
  | closes {tag' : Tag} (closesItself : Bool) : c = '>' → Extends tag tag' →
      tag'.name = tag.name → TagMove state tag c (closeTag tag' closesItself)
  | quoted (name : Text) (quote : Quote) : state.AtValue → c = '"' ∨ c = '\'' →
      TagMove state tag c (.value tag name quote [], [])
  | unquoted (name : Text) : state.AtValue → TagMove state tag c (stepValue tag name .none [] c)

theorem tagMove_stepBeforeName (state : State) (tag : Tag) (c : Char) :
    TagMove state tag c (stepBeforeName tag c) := by
  unfold stepBeforeName
  split
  · exact .on (.beforeName tag) (.refl tag) False.elim False.elim (.inr rfl)
  · split
    · exact .on (.selfClosing tag) (.refl tag) False.elim False.elim (.inr rfl)
    · split
      · rename_i last
        exact .closes false last (.refl tag) rfl
      · exact .on (.attributeName tag _) (.refl tag) False.elim False.elim (.inr rfl)

theorem tagMove_stepTagName (tag : Tag) (c : Char) :
    TagMove (tagName tag) tag c (stepTagName tag c) := by
  unfold stepTagName
  split
  · exact .on (.beforeName tag) (.refl tag) False.elim False.elim (.inr rfl)
  · split
    · exact .on (.selfClosing tag) (.refl tag) False.elim False.elim (.inr rfl)
    · split
      · rename_i last
        exact .closes false last (.refl tag) rfl
      · exact .on (.tagName _) ⟨rfl, .inl rfl⟩ False.elim id (.inl trivial)

theorem tagMove_stepAttributeName (tag : Tag) (name : Text) (c : Char) :
    TagMove (attributeName tag name) tag c (stepAttributeName tag name c) := by
  unfold stepAttributeName
  split
  · exact .on (.afterName tag name) (.refl tag) False.elim False.elim (.inr rfl)
  · split
    · exact .on (.selfClosing _) (.bare tag name) False.elim False.elim (.inr rfl)
    · split
      · rename_i last
        exact .closes false last (.bare tag name) rfl
      · split
        · rename_i equals
          exact .on (.beforeValue tag name) (.refl tag) (fun _ => .inl equals) False.elim (.inr rfl)
        · exact .on (.attributeName tag _) (.refl tag) False.elim False.elim (.inr rfl)

theorem tagMove_stepAfterName (tag : Tag) (name : Text) (c : Char) :
    TagMove (afterName tag name) tag c (stepAfterName tag name c) := by
  unfold stepAfterName
  split
  · exact .on (.afterName tag name) (.refl tag) False.elim False.elim (.inr rfl)
  · split
    · exact .on (.selfClosing _) (.bare tag name) False.elim False.elim (.inr rfl)
    · split
      · rename_i last
        exact .closes false last (.bare tag name) rfl
      · split
        · rename_i equals
          exact .on (.beforeValue tag name) (.refl tag) (fun _ => .inl equals) False.elim (.inr rfl)
        · exact .on (.attributeName _ _) (.bare tag name) False.elim False.elim (.inr rfl)

theorem tagMove_stepBeforeValue (tag : Tag) (name : Text) (c : Char) :
    TagMove (beforeValue tag name) tag c (stepBeforeValue tag name c) := by
  unfold stepBeforeValue
  split
  · rename_i blank
    exact .on (.beforeValue tag name) (.refl tag) (fun _ => .inr blank) False.elim (.inr rfl)
  · split
    · rename_i mark
      exact .quoted name .double trivial (.inl mark)
    · split
      · rename_i mark
        exact .quoted name .single trivial (.inr mark)
      · split
        · rename_i last
          exact .closes false last (.bare tag name) rfl
        · exact .unquoted name trivial

theorem tagMove_stepSelfClosing (tag : Tag) (c : Char) :
    TagMove (selfClosing tag) tag c (stepSelfClosing tag c) := by
  unfold stepSelfClosing
  split
  · rename_i last
    exact .closes true last (.refl tag) rfl
  · exact tagMove_stepBeforeName _ tag c

theorem step_outside (h : Outside state tag) (c : Char) : TagMove state tag c (state.step c) := by
  cases h with
  | tagName tag => exact tagMove_stepTagName tag c
  | beforeName tag => exact tagMove_stepBeforeName _ tag c
  | attributeName tag name => exact tagMove_stepAttributeName tag name c
  | afterName tag name => exact tagMove_stepAfterName tag name c
  | beforeValue tag name => exact tagMove_stepBeforeValue tag name c
  | afterValue tag => exact tagMove_stepBeforeName _ tag c
  | selfClosing tag => exact tagMove_stepSelfClosing tag c

/-! ### Attribute values -/

/-- What a character of an attribute value does. -/
inductive ValueMove (tag : Tag) (name v : Text) (position : Option Reference) (c : Char) :
    State × List Token → Prop
  | on (quote : Quote) : ValueMove tag name v position c
      (inValue tag name quote (v ++ ((Reading.decoded true).take position c).1)
        ((Reading.decoded true).take position c).2, [])
  | ends {next : State} {w : Text} : v ++ ((Reading.decoded true).take position c).1 =
      w ++ [kept c] →
      Outside next (tag.withAttribute name w) → ¬ next.AtValue → ¬ next.InTagName →
      ValueMove tag name v position c (next, [])
  | closes {w : Text} : c = '>' →
      v ++ ((Reading.decoded true).take position c).1 = w ++ [kept c] →
      ValueMove tag name v position c (closeTag (tag.withAttribute name w) false)

theorem valueMove_stepValue (tag : Tag) (name : Text) (quote : Quote) (v : Text) (c : Char) :
    ValueMove tag name v none c (stepValue tag name quote v c) := by
  by_cases ampersand : c = '&'
  · subst ampersand
    have move : ValueMove tag name v none '&' _ := .on quote
    rw [show (Reading.decoded true).take none '&' = ([], some .start) from rfl,
      List.append_nil] at move
    exact move
  · have read : (Reading.decoded true).take none c = ([kept c], none) := if_neg ampersand
    rw [stepValue_eq tag name quote v ampersand]
    split
    · have split : v ++ ((Reading.decoded true).take none c).1 = v ++ [kept c] := by rw [read]
      unfold leaveValue
      split
      · split
        · rename_i last
          exact .closes last split
        · exact .ends split (.beforeName _) False.elim False.elim
      · exact .ends split (.afterValue _) False.elim False.elim
    · have move : ValueMove tag name v none c _ := .on quote
      rw [read] at move
      exact move

/-- A reference that ends before a character is part of the value, and the value goes on with the
character. -/
theorem ValueMove.after {name v text : Text} {ref : Reference} {next : State × List Token}
    (h : ValueMove tag name (v ++ text) none c next) (ends : ref.step true c = .before text) :
    ValueMove tag name v (some ref) c next := by
  have read := Reading.take_before (r := .decoded true) ends
  cases h with
  | on quote =>
    have later : ValueMove tag name v (some ref) c _ := .on quote
    rw [read, ← List.append_assoc] at later
    exact later
  | ends split outside notAtValue notName =>
    refine .ends ?_ outside notAtValue notName
    rw [read, ← List.append_assoc]
    exact split
  | closes last split =>
    refine .closes last ?_
    rw [read, ← List.append_assoc]
    exact split

theorem step_inValue (tag : Tag) (name : Text) (quote : Quote) (v : Text)
    (position : Option Reference) (c : Char) :
    ValueMove tag name v position c ((inValue tag name quote v position).step c) := by
  cases position with
  | none => exact valueMove_stepValue tag name quote v c
  | some ref =>
    show ValueMove _ _ _ _ _ (stepReference (.value tag name quote v) ref c)
    unfold stepReference
    simp only [ReferenceTarget.inAttribute]
    cases outcome : ref.step true c with
    | more ref' =>
      have read := Reading.take_more (r := .decoded true) outcome
      have move : ValueMove tag name v (some ref) c _ := .on quote
      rw [read, List.append_nil] at move
      exact move
    | done text =>
      have read := Reading.take_done (r := .decoded true) outcome
      have move : ValueMove tag name v (some ref) c _ := .on quote
      rw [read] at move
      exact move
    | before text => exact (valueMove_stepValue tag name quote (v ++ text) c).after outcome

/-! ### End tags -/

theorem tag?_inValue (tag : Tag) (name : Text) (quote : Quote) (v : Text)
    (position : Option Reference) : (inValue tag name quote v position).tag? = some tag := by
  cases position <;> rfl

theorem not_inTagName_inValue (tag : Tag) (name : Text) (quote : Quote) (v : Text)
    (position : Option Reference) : ¬ (inValue tag name quote v position).InTagName := by
  cases position <;> exact False.elim

/-- A state in a tag is outside attribute values or in one. -/
theorem tag?_cases (h : state.tag? = some tag) : Outside state tag ∨
    ∃ name quote v position, state = inValue tag name quote v position := by
  cases state with
  | tagName tag' => cases h; exact .inl (.tagName _)
  | beforeName tag' => cases h; exact .inl (.beforeName _)
  | attributeName tag' name => cases h; exact .inl (.attributeName _ _)
  | afterName tag' name => cases h; exact .inl (.afterName _ _)
  | beforeValue tag' name => cases h; exact .inl (.beforeValue _ _)
  | value tag' name quote v => cases h; exact .inr ⟨name, quote, v, none, rfl⟩
  | afterValue tag' => cases h; exact .inl (.afterValue _)
  | selfClosing tag' => cases h; exact .inl (.selfClosing _)
  | reference target ref =>
    cases target with
    | value tag' name quote v => cases h; exact .inr ⟨name, quote, v, some ref, rfl⟩
    | _ => cases h
  | _ => cases h

/-- What a character of an end tag does: nothing is told of before its end, and its name stays after
it has been read. -/
inductive EndTagMove (state : State) (tag : Tag) (c : Char) : State × List Token → Prop
  | on {next : State} {tag' : Tag} : next.tag? = some tag' → tag'.closing = true →
      (next.InTagName → state.InTagName) → (state.InTagName ∨ tag'.name = tag.name) →
      EndTagMove state tag c (next, [])
  | closes : c = '>' → EndTagMove state tag c (.data, [.endTag tag.name])

theorem closeTag_closing {tag : Tag} (closing : tag.closing = true) (closesItself : Bool) :
    closeTag tag closesItself = (.data, [.endTag tag.name]) := by
  simp [closeTag, afterTag, Tag.token, closing]

theorem ValueMove.endTag {name v : Text} {position : Option Reference} {next : State × List Token}
    (h : ValueMove tag name v position c next) (closing : tag.closing = true) :
    EndTagMove state tag c next := by
  cases h with
  | on quote =>
    exact .on (tag?_inValue _ _ _ _ _) closing
      (fun named => absurd named (not_inTagName_inValue _ _ _ _ _)) (.inr rfl)
  | ends _ outside _ notName =>
    exact .on outside.tag? closing (fun named => absurd named notName) (.inr rfl)
  | closes last _ =>
    rw [closeTag_closing (show (tag.withAttribute name _).closing = true from closing)]
    exact .closes last

theorem step_endTag (h : state.tag? = some tag) (closing : tag.closing = true) (c : Char) :
    EndTagMove state tag c (state.step c) := by
  rcases tag?_cases h with outside | ⟨name, quote, v, position, rfl⟩
  · have move := step_outside outside c
    generalize state.step c = next at move
    cases move with
    | on outside same _ named keeps =>
      exact .on outside.tag? (same.closing.trans closing) named keeps
    | closes closesItself last same name =>
      rw [closeTag_closing (same.closing.trans closing), name]
      exact .closes last
    | quoted name quote _ _ => exact .on rfl closing False.elim (.inr rfl)
    | unquoted name _ => exact (valueMove_stepValue tag name .none [] c).endTag closing
  · exact (step_inValue tag name quote v position c).endTag closing

end Tags

/-! ## Comments -/

/-- In a comment, or in what may turn out to be one: what it is read as so far. -/
inductive Remark : State → Text → Prop
  | declaration (seen : Text) : Remark (declaration seen) seen
  | comment (phase : CommentPhase) (v : Text) : Remark (comment phase v) (v ++ phase.pending)
  | bogus (v : Text) : Remark (bogusComment v) v

/-- What a character of a comment does. -/
inductive RemarkMove (u : Text) (c : Char) : State × List Token → Prop
  | on {next : State} : next.Remark (u ++ [kept c]) → RemarkMove u c (next, [])
  | comment : RemarkMove u c (.comment .start [], [])
  | doctype : RemarkMove u c (.doctype .before [], [])
  | closes {v rest : Text} : c = '>' → u = v ++ rest → RemarkMove u c (.data, [.comment v])

theorem remarkMove_stepBogusComment (v : Text) (c : Char) :
    RemarkMove v c (stepBogusComment v c) := by
  unfold stepBogusComment
  split
  · rename_i last
    exact .closes last (List.append_nil v).symm
  · exact .on (.bogus _)

theorem remarkMove_stepCommentBody (v : Text) (c : Char) :
    RemarkMove v c (stepCommentBody v c) := by
  unfold stepCommentBody
  split
  · rename_i dash
    subst dash
    exact .on (.comment .dash v)
  · have next := Remark.comment .body (v ++ [kept c])
    rw [CommentPhase.pending, List.append_nil] at next
    exact .on next

theorem remarkMove_stepDeclaration (seen : Text) (c : Char) :
    RemarkMove seen c (stepDeclaration seen c) := by
  have letter : ∀ phrase, Text.startsWith (Text.lower (seen ++ [c])) phrase = true →
      null ∉ phrase → kept c = c := by
    intro phrase begins none
    refine kept_of_ne ?_
    rintro rfl
    obtain ⟨rest, found⟩ := Option.isSome_iff_exists.mp begins
    refine none ?_
    rw [Text.strip?_eq_some.mp found]
    simp [Text.lower, show Text.lowerChar null = null by decide]
  unfold stepDeclaration
  split
  · rename_i same
    obtain ⟨rfl, dash⟩ := List.append_eq_singleton_iff.mp same |>.resolve_right (by simp)
    cases dash
    exact .on (.declaration ['-'])
  · split
    · exact .comment
    · split
      · exact .doctype
      · split
        · rename_i begins
          have next := Remark.declaration (seen ++ [c])
          refine .on ?_
          rw [letter _ begins (by decide)]
          exact next
        · exact remarkMove_stepBogusComment seen c

/-- A comment goes on with a character that is kept, in whatever phase it is in then. -/
theorem RemarkMove.keeps {u v : Text} (phase : CommentPhase) (ne : c ≠ null)
    (same : v ++ phase.pending = u ++ [c]) : RemarkMove u c (.comment phase v, []) := by
  have next := Remark.comment phase v
  rw [same, ← kept_of_ne ne] at next
  exact .on next

theorem remarkMove_stepComment (phase : CommentPhase) (v : Text) (c : Char) :
    RemarkMove (v ++ phase.pending) c (stepComment phase v c) := by
  have keeps : ∀ {b : Char} {phase' v'}, c = b → b ≠ null →
      v' ++ CommentPhase.pending phase' = v ++ phase.pending ++ [b] →
      RemarkMove (v ++ phase.pending) c (.comment phase' v', []) := by
    rintro b phase' v' rfl ne same
    exact .keeps phase' ne same
  unfold stepComment
  cases phase with
  | start =>
    have body := remarkMove_stepCommentBody v c
    simp only [CommentPhase.pending, List.append_nil] at body keeps ⊢
    split
    · rename_i dash
      exact keeps dash (by decide) rfl
    · split
      · rename_i last
        exact .closes last (List.append_nil v).symm
      · exact body
  | startDash =>
    simp only
    split
    · rename_i dash
      exact keeps dash (by decide) (by simp [CommentPhase.pending])
    · split
      · rename_i last
        exact .closes last rfl
      · exact remarkMove_stepCommentBody _ c
  | body =>
    have body := remarkMove_stepCommentBody v c
    simp only [CommentPhase.pending, List.append_nil] at body ⊢
    exact body
  | dash =>
    simp only
    split
    · rename_i dash
      exact keeps dash (by decide) (by simp [CommentPhase.pending])
    · exact remarkMove_stepCommentBody _ c
  | dashes =>
    simp only
    split
    · rename_i last
      exact .closes last rfl
    · split
      · rename_i bang
        exact keeps bang (by decide) (by simp [CommentPhase.pending])
      · split
        · rename_i dash
          exact keeps dash (by decide) (by simp [CommentPhase.pending])
        · exact remarkMove_stepCommentBody _ c
  | bang =>
    simp only
    split
    · rename_i dash
      exact keeps dash (by decide) (by simp [CommentPhase.pending])
    · split
      · rename_i last
        exact .closes last rfl
      · exact remarkMove_stepCommentBody _ c

theorem step_remark {u : Text} (h : state.Remark u) (c : Char) : RemarkMove u c (state.step c) := by
  cases h with
  | declaration => exact remarkMove_stepDeclaration u c
  | bogus => exact remarkMove_stepBogusComment u c
  | comment phase v => exact remarkMove_stepComment phase v c

/-! ## Document types -/

/-- What a character of a document type does. -/
inductive DoctypeMove (phase : DoctypePhase) (name : Text) (c : Char) : State × List Token → Prop
  | skips (phase' : DoctypePhase) : phase' ≠ .name →
      DoctypeMove phase name c (.doctype phase' name, [])
  | begins : phase = .before → DoctypeMove phase name c (.doctype .name [keptInName c], [])
  | on : phase = .name → DoctypeMove phase name c (.doctype .name (name ++ [keptInName c]), [])
  | closes : c = '>' → DoctypeMove phase name c (.data, [.doctype name])

theorem step_doctype (phase : DoctypePhase) (name : Text) (c : Char) :
    DoctypeMove phase name c (step (.doctype phase name) c) := by
  show DoctypeMove _ _ _ (stepDoctype phase name c)
  unfold stepDoctype
  split
  · rename_i last
    exact .closes last
  · cases phase with
    | before =>
      simp only
      split
      · exact .skips .before (by decide)
      · exact .begins rfl
    | name =>
      simp only
      split
      · exact .skips .after (by decide)
      · exact .on rfl
    | after => exact .skips .after (by decide)

end State

end HtmlTemplate

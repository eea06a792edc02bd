import HtmlTemplate.Proofs.Markup.Flow
import HtmlTemplate.Proofs.Markup.Mapped
import HtmlTemplate.Proofs.Markup.Names
import HtmlTemplate.Proofs.Template.Misled
import HtmlTemplate.Proofs.Template.Closing

/-!
# Two readings side by side

The tokenizer reads a skeleton with words in place of its slots, and with markers there. After a
slot the two readings go on side by side (`State.Beside`): in the same state, but for what
attributes have as their values, what of a reference or of an end tag the word has begun, and how
far a script is in a comment-like passage. They stay so where nothing misleads the scanner
(`Beside.after`), and what misleads it in one reading does so in the other (`Beside.misleads`).
-/

namespace HtmlTemplate

/-- Nothing of a value. -/
def Text.nothing (_ : Text) : Text := []

/-! ## Tags grow -/

theorem Attribute.mem_insert_of_mem {a b : Attribute} {l : List Attribute} (h : b ∈ l) :
    b ∈ a.insert l := by
  induction l with
  | nil => cases h
  | cons first rest ih =>
    rw [insert]
    split
    · exact h
    · split
      · exact List.mem_cons_of_mem _ h
      · rcases List.mem_cons.mp h with rfl | member
        · exact List.mem_cons_self
        · exact List.mem_cons_of_mem _ (ih member)

/-- A tag has all attributes of another. -/
structure Tag.Grows (tag tag' : Tag) : Prop where
  closing : tag'.closing = tag.closing
  attributes : ∀ a ∈ tag.attributes, a ∈ tag'.attributes

namespace Tag.Grows

variable {tag tag' tag'' : Tag}

theorem refl (tag : Tag) : Grows tag tag := ⟨rfl, fun _ member => member⟩

theorem trans (h : Grows tag tag') (h' : Grows tag' tag'') : Grows tag tag'' :=
  ⟨h'.closing.trans h.closing, fun a member => h'.attributes a (h.attributes a member)⟩

theorem withAttribute (tag : Tag) (name value : Text) : Grows tag (tag.withAttribute name value) :=
  ⟨rfl, fun _ => Attribute.mem_insert_of_mem⟩

theorem of_extends (h : State.Extends tag tag') : Grows tag tag' := by
  refine ⟨h.closing, fun a member => ?_⟩
  rcases h.attributes with same | ⟨name, more⟩
  · rw [same]
    exact member
  · rw [more]
    exact Attribute.mem_insert_of_mem member

end Tag.Grows

namespace State

/-- What a character of a tag does: the tag goes on, with all its attributes, or it ends. -/
inductive GrowMove (tag : Tag) : State × List Token → Prop
  | on {next : State} {tag' : Tag} : next.tag? = some tag' → tag.Grows tag' →
      GrowMove tag (next, [])
  | closes {tag' : Tag} (closesItself : Bool) : tag.Grows tag' →
      GrowMove tag (closeTag tag' closesItself)

variable {state : State} {tag : Tag}

theorem ValueMove.grow {name v : Text} {position : Option Reference} {c : Char}
    {next : State × List Token} (h : ValueMove tag name v position c next) : GrowMove tag next := by
  cases h with
  | on quote => exact .on (tag?_inValue _ _ _ _ _) (.refl tag)
  | ends _ outside _ _ => exact .on outside.tag? (.withAttribute tag name _)
  | closes _ _ => exact .closes false (.withAttribute tag name _)

theorem step_tag (h : state.tag? = some tag) (c : Char) : GrowMove tag (state.step c) := by
  rcases tag?_cases h with outside | ⟨name, quote, v, position, rfl⟩
  · have move := step_outside outside c
    generalize state.step c = next at move
    cases move with
    | on outside' extended _ _ _ => exact .on outside'.tag? (.of_extends extended)
    | closes closesItself _ extended _ => exact .closes closesItself (.of_extends extended)
    | quoted name quote _ _ => exact .on rfl (.refl tag)
    | unquoted name _ => exact (valueMove_stepValue tag name .none [] c).grow
  · exact (step_inValue tag name quote v position c).grow

/-- A text that goes on in a tag, or ends it. -/
theorem after_tag (h : state.tag? = some tag) (text : Text) :
    (state.emitted text = [] ∧ ∃ tag', (state.after text).tag? = some tag' ∧ tag.Grows tag') ∨
    ∃ tag' closesItself tokens, state.emitted text = tag'.token closesItself :: tokens ∧
      tag.Grows tag' := by
  induction text generalizing state tag with
  | nil => exact .inl ⟨rfl, tag, h, .refl tag⟩
  | cons c text ih =>
    have move := step_tag h c
    rw [emitted, after]
    generalize state.step c = next at move
    cases move with
    | on more grows =>
      rcases ih more with ⟨none, tag', later, grows'⟩ | ⟨tag', closesItself, tokens, same, grows'⟩
      · exact .inl ⟨none, tag', later, grows.trans grows'⟩
      · exact .inr ⟨tag', closesItself, tokens, same, grows.trans grows'⟩
    | closes closesItself grows => exact .inr ⟨_, closesItself, _, rfl, grows⟩

theorem finish_tag (h : state.tag? = some tag) : state.finish = [] := by
  rcases tag?_cases h with outside | ⟨name, quote, v, position, rfl⟩
  · cases outside <;> rfl
  · exact finish_inValue tag name quote v position

/-- What is told of first in a tag is the tag. -/
theorem run_tag (h : state.tag? = some tag) (text : Text) : state.run text = [] ∨
    ∃ tag' closesItself tokens, state.run text = tag'.token closesItself :: tokens ∧
      tag.Grows tag' := by
  rw [run_eq]
  rcases after_tag h text with ⟨none, tag', later, _⟩ | ⟨tag', closesItself, tokens, same, grows⟩
  · rw [none, finish_tag later]
    exact .inl rfl
  · rw [same]
    exact .inr ⟨tag', closesItself, _, rfl, grows⟩

/-! ## Side by side -/

/-- A script is further in a comment-like passage than another, and what is held back in both is the
same. -/
inductive Deeper (element : Text) : State → State → Prop
  | plain {phase : ScriptPhase} : phase.Shallow →
      Deeper element (raw (.script element phase)) (raw (.script element .plain))
  | opening (dashes : Nat) : Deeper element (raw (.script element (.escaped dashes)))
      (raw (.script element (.opening dashes)))
  | less (dashes : Nat) : Deeper element (rawLess (.script element (.escaped dashes)))
      (rawLess (.script element .plain))
  | endOpen (dashes : Nat) : Deeper element (rawEndOpen (.script element (.escaped dashes)))
      (rawEndOpen (.script element .plain))
  | endName (dashes : Nat) (letters : Text) :
      Deeper element (rawEndName (.script element (.escaped dashes)) letters)
        (rawEndName (.script element .plain) letters)

/-- What a less-than sign and letters have begun in one reading only. -/
inductive Drops : RawContent → RawContent → Prop
  | same (element : Text) : Drops (.plain element) (.plain element)
  | outside (element : Text) : Drops (.script element .plain) (.script element .plain)
  | inside (element : Text) (dashes : Nat) :
      Drops (.script element (.escaped dashes)) (.script element .plain)

/-- Two readings after a slot. The first goes on with the given text. -/
inductive Beside (rest : Text) : State → State → Prop
  | alike {state state' : State} : Alike Text.nothing state state' → Beside rest state state'
  | deeper {element : Text} {state state' : State} : Deeper element state state' →
      Beside rest state state'
  /-- A reference that the word goes on with. -/
  | reference (ref : Reference) : Beside rest (.reference .data ref) .data
  | rawReference (element : Text) (ref : Reference) :
      Beside rest (.reference (.raw element) ref) (.raw (.plain element))
  /-- An end tag that the word goes on with, and that turns out to be none. -/
  | stray {content content' : RawContent} (letters : Text) : Drops content content' →
      (∃ c tokens, (rawEndName content letters).run rest = .character c :: tokens) →
      Beside rest (rawEndName content letters) (raw content')
  /-- The word is a whole value. -/
  | value {tag tag' : Tag} {quote : Quote} {v v' : Text} (name : Text) :
      Tag.Alike Text.nothing tag tag' →
      (∃ c after, rest = c :: after ∧ quote.ends c = true) →
      Beside rest (.value tag name quote v) (.value tag' name quote v')
  | unquoted {tag tag' : Tag} {v v' : Text} (name : Text) : Tag.Alike Text.nothing tag tag' →
      (∃ c after, rest = c :: after ∧ Quote.none.ends c = true) →
      Beside rest (.value tag name .none v) (.afterValue (tag'.withAttribute name v'))

/-- Two steps side by side: in a tag, both tell of something or none does. -/
structure BesideStep (rest : Text) (state : State) (next next' : State × List Token) : Prop where
  states : Beside rest next.1 next'.1
  silent : ∀ tag, state.tag? = some tag → (next.2 = [] ↔ next'.2 = [])

theorem BesideStep.of_state {rest : Text} {next next' : State × List Token}
    (none : state.tag? = none) (h : Beside rest next.1 next'.1) :
    BesideStep rest state next next' :=
  ⟨h, fun tag same => by rw [none] at same; cases same⟩

theorem Beside.same (rest : Text) (state : State) : Beside rest state state := .alike (.same state)

variable {rest element : Text} {c : Char} {state' : State}

theorem besideStep_of_alikeStep {next next' : State × List Token}
    (h : AlikeStep Text.nothing next next') (state : State) : BesideStep rest state next next' := by
  refine ⟨.alike h.state, fun _ _ => ?_⟩
  have lengths := congrArg List.length h.tokens
  rw [List.length_map, List.length_map] at lengths
  rw [← List.length_eq_zero_iff, ← List.length_eq_zero_iff, lengths]

/-! ### Scripts -/

theorem beside_stepScript {phase : ScriptPhase} (shallow : phase.Shallow)
    (stays : ¬ (phase = .entering scriptWord ∧ endsWord c = true)) :
    Beside rest (stepScript element phase c).1 (stepScript element .plain c).1 := by
  have move : OpenMove element c (stepScript element phase c).1 := openMove_stepScript shallow stays
  rcases stepScript_cases element phase c with ⟨phase', told⟩ | ⟨rfl, phase', held⟩
  · rw [told] at move ⊢
    cases move with
    | content other isOpen same =>
      have plain : (stepScript element .plain c).1 = raw (.script element .plain) := by
        unfold stepScript stepScriptPlain
        rw [if_neg other]
      rw [plain]
      exact .deeper (.plain isOpen)
  · rw [held] at move ⊢
    have plain : (stepScript element .plain '<').1 = rawLess (.script element .plain) := rfl
    rw [plain]
    cases move with
    | less first held same =>
      cases held with
      | outside => exact .same _ _
      | inside _ dashes => exact .deeper (.less dashes)

theorem beside_stepScript_escaped (dashes : Nat) : Beside rest
    (stepScript element (.escaped dashes) c).1 (stepScript element .plain c).1 :=
  beside_stepScript trivial fun both => by cases both.1

theorem beside_opening (dashes : Nat) : Beside rest (stepScript element (.escaped dashes) c).1
    (stepScript element (.opening dashes) c).1 := by
  by_cases dash : c = '-'
  · subst dash
    cases dashes with
    | zero => exact .deeper (.opening 1)
    | succ dashes =>
      have two : min (dashes + 1 + 1) 2 = 2 := by omega
      have next : (stepScript element (.escaped (dashes + 1)) '-').1 =
          raw (.script element (.escaped 2)) := by
        show raw (.script element (.escaped (min (dashes + 1 + 1) 2))) = _
        rw [two]
      rw [next]
      exact .same _ _
  · have same : stepScript element (.opening dashes) c = stepScript element .plain c := by
      show (if c = '-' then _ else stepScriptPlain element c) = _
      rw [if_neg dash]
      rfl
    rw [same]
    exact beside_stepScript_escaped dashes

theorem beside_rawLess (dashes : Nat) : Beside rest
    (stepRawLess (.script element (.escaped dashes)) c).1
    (stepRawLess (.script element .plain) c).1 := by
  unfold stepRawLess
  by_cases slash : c = '/'
  · rw [if_pos slash, if_pos slash]
    exact .deeper (.endOpen dashes)
  · rw [if_neg slash, if_neg slash]
    simp only
    split
    · rename_i letter
      have mark : c ≠ '!' := by
        rintro rfl
        cases letter
      rw [if_neg mark]
      exact beside_stepScript (trivial : (ScriptPhase.entering []).Shallow) fun both => by
        cases both.1
    · split
      · rename_i mark
        subst mark
        exact .deeper (.opening 0)
      · exact beside_stepScript_escaped dashes

theorem beside_rawEndOpen (dashes : Nat) : Beside rest
    (stepRawEndOpen (.script element (.escaped dashes)) c).1
    (stepRawEndOpen (.script element .plain) c).1 := by
  unfold stepRawEndOpen
  split
  · exact .deeper (.endName dashes [c])
  · exact beside_stepScript_escaped dashes

/-- Letters that are not those of the element, or that go on, make no end tag. -/
theorem stepRawEndName_of_apart {content : RawContent} {letters : Text}
    (apart : ¬ (Text.lower letters = content.element ∧ endsWord c = true)) :
    stepRawEndName content letters c =
      if Text.isLetter c then (rawEndName content (letters ++ [c]), [])
      else emitting (Token.characters ('<' :: '/' :: letters)) (stepRaw content c) := by
  have blank : ¬ (Text.lower letters = content.element ∧ Text.isBlank c = true) := fun both =>
    apart ⟨both.1, by simp [endsWord, both.2]⟩
  have slash : ¬ (Text.lower letters = content.element ∧ c = '/') := fun both =>
    apart ⟨both.1, by simp [endsWord, both.2]⟩
  have greater : ¬ (Text.lower letters = content.element ∧ c = '>') := fun both =>
    apart ⟨both.1, by simp [endsWord, both.2]⟩
  simp only [stepRawEndName, blank, slash, greater, if_false]

/-- What follows the name of an end tag. -/
def afterRawName (element : Text) (c : Char) : State × List Token :=
  if Text.isBlank c then (beforeName ⟨true, element, []⟩, [])
  else if c = '/' then (selfClosing ⟨true, element, []⟩, [])
  else (data, [.endTag element])

/-- The end tag of the content is read as one. -/
theorem stepRawEndName_of_ends {content : RawContent} {letters : Text}
    (same : Text.lower letters = content.element) (ends : endsWord c = true) :
    stepRawEndName content letters c = afterRawName content.element c := by
  have letter : Text.isLetter c = false := by
    rw [Bool.eq_false_iff]
    intro letter
    obtain ⟨_, greater, slash, _, _, _, _, _, blank⟩ := Text.facts_of_isLetter letter
    simp [endsWord, greater, slash, blank] at ends
  simp only [stepRawEndName, afterRawName, letter, same, true_and, if_false, Bool.false_eq_true]
  split
  · rfl
  · rename_i blank
    split
    · rfl
    · rename_i slash
      have greater : c = '>' := by simpa [endsWord, blank, slash] using ends
      rw [if_pos greater]
      exact closeTag_closing rfl false

theorem beside_rawEndName (dashes : Nat) (letters : Text) : Beside rest
    (stepRawEndName (.script element (.escaped dashes)) letters c).1
    (stepRawEndName (.script element .plain) letters c).1 := by
  by_cases ends : Text.lower letters = element ∧ endsWord c = true
  · rw [stepRawEndName_of_ends ends.1 ends.2, stepRawEndName_of_ends ends.1 ends.2]
    exact .same _ _
  · rw [stepRawEndName_of_apart ends, stepRawEndName_of_apart ends]
    split
    · exact .deeper (.endName dashes _)
    · exact beside_stepScript_escaped dashes

/-- The beginning of a nested script. -/
def Nests (state : State) (c : Char) : Prop :=
  ∃ element, state = raw (.script element (.entering scriptWord)) ∧ endsWord c = true

theorem Nests.misleads (h : Nests state c) (more : Text) : Misleads state c more := by
  obtain ⟨element, rfl, ends⟩ := h
  exact .nested ends

theorem Deeper.step (h : Deeper element state state') (stays : ¬ Nests state c) :
    Beside rest (state.step c).1 (state'.step c).1 := by
  cases h with
  | @plain phase shallow =>
    refine beside_stepScript shallow ?_
    rintro ⟨rfl, ends⟩
    exact stays ⟨element, rfl, ends⟩
  | opening dashes => exact beside_opening dashes
  | less dashes => exact beside_rawLess dashes
  | endOpen dashes => exact beside_rawEndOpen dashes
  | endName dashes letters => exact beside_rawEndName dashes letters

/-! ### What the word goes on with -/

theorem unmarked_of_step {ref : Reference} {inAttribute : Bool}
    (goesOn : ∀ text, ref.step inAttribute c ≠ .before text) : c ≠ '<' ∧ c ≠ '&' := by
  refine not_or.mp fun mark => ?_
  obtain ⟨text, before⟩ := ref.step_of_mark mark inAttribute
  exact goesOn text before

theorem beside_reference (ref : Reference) :
    Beside rest (stepReference .data ref c).1 (stepData c).1 := by
  unfold stepReference
  cases outcome : ref.step (ReferenceTarget.inAttribute .data) c with
  | more ref' =>
    obtain ⟨less, ampersand⟩ :=
      unmarked_of_step fun text same => by rw [outcome] at same; cases same
    unfold stepData
    rw [if_neg ampersand, if_neg less]
    exact .reference ref'
  | done text =>
    obtain ⟨less, ampersand⟩ :=
      unmarked_of_step fun text same => by rw [outcome] at same; cases same
    unfold stepData
    rw [if_neg ampersand, if_neg less]
    exact .same _ _
  | before text => exact .same _ _

theorem beside_rawReference (element : Text) (ref : Reference) :
    Beside rest (stepReference (.raw element) ref c).1 (stepRaw (.plain element) c).1 := by
  unfold stepReference
  cases outcome : ref.step (ReferenceTarget.inAttribute (.raw element)) c with
  | more ref' =>
    obtain ⟨less, ampersand⟩ :=
      unmarked_of_step fun text same => by rw [outcome] at same; cases same
    unfold stepRaw
    simp only [less, ampersand, if_false]
    exact .rawReference element ref'
  | done text =>
    obtain ⟨less, ampersand⟩ :=
      unmarked_of_step fun text same => by rw [outcome] at same; cases same
    unfold stepRaw
    simp only [less, ampersand, if_false]
    exact .same _ _
  | before text => exact .same _ _

theorem Drops.held {content content' : RawContent} (h : Drops content content') :
    content.Held ∧ Beside rest (stepRaw content c).1 (stepRaw content' c).1 := by
  cases h with
  | same element => exact ⟨.plain element, .same _ _⟩
  | outside element => exact ⟨.outside element, .same _ _⟩
  | inside element dashes => exact ⟨.inside element dashes, beside_stepScript_escaped dashes⟩

theorem Drops.raw_step {content content' : RawContent} (h : Drops content content')
    (letter : Text.isLetter c = true) : (stepRaw content' c).1 = raw content' := by
  obtain ⟨less, _, _, _, ampersand, _⟩ := Text.facts_of_isLetter letter
  cases h with
  | same element => simp [stepRaw, less, ampersand]
  | outside element => simp [stepRaw, stepScript, stepScriptPlain, less]
  | inside element dashes => simp [stepRaw, stepScript, stepScriptPlain, less]

theorem beside_stray {content content' : RawContent} {letters : Text}
    (drops : Drops content content')
    (told : ∃ d tokens, (rawEndName content letters).run (c :: rest) = .character d :: tokens) :
    Beside rest (stepRawEndName content letters c).1 (stepRaw content' c).1 := by
  obtain ⟨d, tokens, told⟩ := told
  have first : (stepRawEndName content letters c).2 ++
      (stepRawEndName content letters c).1.run rest = .character d :: tokens := told
  have apart : ¬ (Text.lower letters = content.element ∧ endsWord c = true) := by
    rintro ⟨same, ends⟩
    rw [stepRawEndName_of_ends same ends, afterRawName] at first
    split at first
    · exact run_inMark_ne_character (.tag rfl) rest d tokens first
    · split at first
      · exact run_inMark_ne_character (.tag rfl) rest d tokens first
      · cases first
  rw [stepRawEndName_of_apart apart] at first ⊢
  split
  · rename_i letter
    rw [if_pos letter] at first
    rw [drops.raw_step letter]
    exact .stray _ drops ⟨d, tokens, first⟩
  · exact drops.held.2

theorem besideStep_value {tag tag' : Tag} {quote : Quote} (v v' name : Text)
    (alike : Tag.Alike Text.nothing tag tag') (ends : quote.ends c = true) (state : State) :
    BesideStep rest state (stepValue tag name quote v c) (stepValue tag' name quote v' c) := by
  have same : Tag.Alike Text.nothing (tag.withAttribute name v) (tag'.withAttribute name v') :=
    alike.withAttribute name rfl
  rw [stepValue_ends ends, stepValue_ends ends]
  exact besideStep_of_alikeStep (alike_leaveValue same quote c) state

theorem besideStep_unquoted {tag tag' : Tag} (v v' name : Text)
    (alike : Tag.Alike Text.nothing tag tag') (ends : Quote.none.ends c = true) (state : State) :
    BesideStep rest state (stepValue tag name .none v c)
      (stepAfterValue (tag'.withAttribute name v') c) := by
  have same : Tag.Alike Text.nothing (tag.withAttribute name v) (tag'.withAttribute name v') :=
    alike.withAttribute name rfl
  rw [stepValue_ends ends]
  unfold leaveValue stepAfterValue stepBeforeName
  by_cases greater : c = '>'
  · subst greater
    exact besideStep_of_alikeStep (alike_closeTag same false) state
  · have blank : Text.isBlank c = true := by
      simp only [Quote.ends, Bool.or_eq_true, beq_iff_eq] at ends
      exact ends.resolve_right greater
    simp only [greater, blank, if_true, if_false]
    exact besideStep_of_alikeStep (.silent (.beforeName same)) state

/-- The readings go on side by side, unless a nested script begins. -/
theorem Beside.step (h : Beside (c :: rest) state state') (stays : ¬ Nests state c) :
    BesideStep rest state' (state.step c) (state'.step c) := by
  cases h with
  | alike alike => exact besideStep_of_alikeStep (alike_step alike c) state'
  | deeper deeper => exact .of_state (by cases deeper <;> rfl) (deeper.step stays)
  | reference ref => exact .of_state rfl (beside_reference ref)
  | rawReference element ref => exact .of_state rfl (beside_rawReference element ref)
  | stray letters drops told => exact .of_state rfl (beside_stray drops told)
  | @value tag tag' quote v v' name alike ends =>
    obtain ⟨d, after, same, ends⟩ := ends
    obtain ⟨rfl, _⟩ := List.cons.inj same
    exact besideStep_value v v' name alike ends _
  | @unquoted tag tag' v v' name alike ends =>
    obtain ⟨d, after, same, ends⟩ := ends
    obtain ⟨rfl, _⟩ := List.cons.inj same
    exact besideStep_unquoted v v' name alike ends _

/-! ## What misleads -/

theorem Alike.misleads {more : Text} (h : Alike Text.nothing state state')
    (misleads : Misleads state' c more) : Misleads state c more := by
  cases h with
  | same => exact misleads
  | reference alike =>
    cases misleads with
    | equals unequal => cases unequal
    | less deaf => cases deaf
  | tagName alike =>
    cases misleads with
    | equals unequal => exact .equals (.tagName _)
    | name side isRaw other apart =>
      exact .name (alike.closing.trans side) (by rw [alike.name]; exact isRaw) other apart
    | less deaf => cases deaf
  | beforeName alike =>
    cases misleads with
    | equals unequal => exact .equals (.beforeName _)
    | less deaf => cases deaf
  | attributeName alike =>
    cases misleads with
    | equals unequal => cases unequal
    | less deaf => cases deaf
  | afterName alike =>
    cases misleads with
    | equals unequal => cases unequal
    | less deaf => cases deaf
  | beforeValue alike =>
    cases misleads with
    | equals unequal => cases unequal
    | less deaf => cases deaf
  | value alike =>
    cases misleads with
    | equals unequal => cases unequal
    | less deaf => cases deaf
  | afterValue alike =>
    cases misleads with
    | equals unequal => exact .equals (.afterValue _)
    | less deaf => cases deaf
  | selfClosing alike =>
    cases misleads with
    | equals unequal => exact .equals (.selfClosing _)
    | closed side isRaw =>
      exact .closed (alike.closing.trans side) (by rw [alike.name]; exact isRaw)
    | less deaf => cases deaf

/-- What misleads in the second reading does so in the first. -/
theorem Beside.misleads {more : Text} (h : Beside (c :: rest) state state')
    (misleads : Misleads state' c more) : Misleads state c more := by
  cases h with
  | alike alike => exact alike.misleads misleads
  | deeper deeper =>
    cases deeper with
    | endName dashes letters =>
      cases misleads with
      | equals unequal => cases unequal
      | endName same apart => exact .endName same apart
      | less deaf => cases deaf
    | _ =>
      cases misleads with
      | equals unequal => cases unequal
      | less deaf => cases deaf
  | reference ref =>
    cases misleads with
    | equals unequal => cases unequal
    | less deaf => cases deaf
  | rawReference element ref =>
    cases misleads with
    | equals unequal => cases unequal
    | less deaf => cases deaf
  | stray letters drops told =>
    cases drops <;> cases misleads with
    | equals unequal => cases unequal
    | less deaf => cases deaf
  | value name alike ends =>
    cases misleads with
    | equals unequal => cases unequal
    | less deaf => cases deaf
  | unquoted name alike ends =>
    obtain ⟨d, after, same, ends⟩ := ends
    obtain ⟨rfl, _⟩ := List.cons.inj same
    cases misleads with
    | equals unequal => exact absurd ends (by decide)
    | less deaf => cases deaf

/-! ## Texts -/

theorem Beside.after {u : Text} (h : Beside (u ++ rest) state state')
    (stays : ∀ before c after, u = before ++ c :: after → ¬ Misleads (state.after before) c after) :
    Beside rest (state.after u) (state'.after u) ∧
      ∀ before c after, u = before ++ c :: after → ¬ Misleads (state'.after before) c after := by
  induction u generalizing state state' with
  | nil => exact ⟨h, fun before c after none => by cases before <;> cases none⟩
  | cons c u ih =>
    have first := stays [] c u rfl
    obtain ⟨later, fine⟩ := ih (h.step fun nests => first (nests.misleads u)).states
      fun before d after split => stays (c :: before) d after (congrArg (c :: ·) split)
    refine ⟨later, fun before d after split => ?_⟩
    cases before with
    | nil =>
      obtain ⟨rfl, rfl⟩ := List.cons.inj split
      exact fun misleads => first (Beside.misleads h misleads)
    | cons e before =>
      obtain ⟨rfl, same⟩ := List.cons.inj split
      exact fine before d after same

/-- In a tag both readings are in the same tag, but for its values. -/
theorem Beside.exists_tag {tag' : Tag} (h : Beside rest state state')
    (inTag : state'.tag? = some tag') :
    ∃ tag, state.tag? = some tag ∧ tag.closing = tag'.closing := by
  cases h with
  | alike alike =>
    cases alike with
    | same => exact ⟨tag', inTag, rfl⟩
    | reference alike => cases inTag; exact ⟨_, rfl, alike.closing⟩
    | tagName alike => cases inTag; exact ⟨_, rfl, alike.closing⟩
    | beforeName alike => cases inTag; exact ⟨_, rfl, alike.closing⟩
    | attributeName alike => cases inTag; exact ⟨_, rfl, alike.closing⟩
    | afterName alike => cases inTag; exact ⟨_, rfl, alike.closing⟩
    | beforeValue alike => cases inTag; exact ⟨_, rfl, alike.closing⟩
    | value alike => cases inTag; exact ⟨_, rfl, alike.closing⟩
    | afterValue alike => cases inTag; exact ⟨_, rfl, alike.closing⟩
    | selfClosing alike => cases inTag; exact ⟨_, rfl, alike.closing⟩
  | deeper deeper => cases deeper <;> cases inTag
  | reference ref => cases inTag
  | rawReference element ref => cases inTag
  | stray letters drops told => cases inTag
  | value name alike _ => cases inTag; exact ⟨_, rfl, alike.closing⟩
  | unquoted name alike _ => cases inTag; exact ⟨_, rfl, alike.closing⟩

/-- In a tag both readings tell of something, or neither does. -/
theorem Beside.silent {u : Text} {tag' : Tag} (h : Beside (u ++ rest) state state')
    (inTag : state'.tag? = some tag') : state.emitted u = [] ↔ state'.emitted u = [] := by
  induction u generalizing state state' tag' with
  | nil => exact Iff.rfl
  | cons c u ih =>
    obtain ⟨tag, reading, _⟩ := h.exists_tag inTag
    have stays : ¬ Nests state c := by
      rintro ⟨element, rfl, _⟩
      cases reading
    obtain ⟨later, silent⟩ := h.step stays
    have here := silent tag' inTag
    rw [emitted, emitted, List.append_eq_nil_iff, List.append_eq_nil_iff, here, and_congr_right_iff]
    intro none
    have move := step_tag inTag c
    generalize state'.step c = next at move none later
    cases move with
    | on more _ => exact ih later more
    | closes closesItself _ => cases none

/-- In a tag, what is told of in one reading is told of in the other. -/
theorem Beside.run_ne_nil {tag' : Tag} (h : Beside rest state state')
    (inTag : state'.tag? = some tag') (some : state.run rest ≠ []) : state'.run rest ≠ [] := by
  rw [run_eq] at some ⊢
  intro none
  obtain ⟨tag, reading, _⟩ := h.exists_tag inTag
  have whole : rest ++ [] = rest := List.append_nil rest
  rw [← whole] at h
  have silent := (h.silent inTag).mpr (List.append_eq_nil_iff.mp none).1
  rcases after_tag reading rest with ⟨_, tag, later, _⟩ | ⟨_, _, _, told, _⟩
  · exact some (by rw [silent, finish_tag later]; rfl)
  · rw [told] at silent
    cases silent

end State

end HtmlTemplate

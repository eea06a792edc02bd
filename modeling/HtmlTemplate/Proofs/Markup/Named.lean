import HtmlTemplate.Proofs.Markup.Follow
import HtmlTemplate.Proofs.Text
import Mathlib.Data.Char
import Mathlib.Data.List.Lex

/-!
# Names in tags

What the tokenizer takes for a name it takes for the same name again: `TagName` and `AttributeName`
say which names come from it, and `Attribute.Sorted` that the attributes of a tag are in the strict
order of their names. Every state of the tokenizer keeps this (`named_step`), so it holds of every
start tag that is read (`named_read`).
-/

namespace HtmlTemplate

/-! ## Characters -/

/-- A character of a name, as the tokenizer keeps it there. -/
structure NameCharacter (c : Char) : Prop where
  solid : Text.isBlank c = false
  notSlash : c ≠ '/'
  notGreater : c ≠ '>'
  same : State.keptInName c = c

/-- Whatever the tokenizer keeps of a character in a name, it keeps again. -/
theorem NameCharacter.of_kept {c : Char} (solid : Text.isBlank c = false) (notSlash : c ≠ '/')
    (notGreater : c ≠ '>') : NameCharacter (State.keptInName c) := by
  by_cases null : c = State.null
  · subst null
    exact ⟨by decide, by decide, by decide, by decide⟩
  · rw [State.keptInName, if_neg null]
    by_cases capital : Text.isCapital c = true
    · have small : (!Text.isBlank (Text.lowerChar c) && Text.lowerChar c != '/' &&
          Text.lowerChar c != '>' &&
          State.keptInName (Text.lowerChar c) == Text.lowerChar c) = true :=
        Text.of_isCapital capital (p := fun c => !Text.isBlank (Text.lowerChar c) &&
          Text.lowerChar c != '/' && Text.lowerChar c != '>' &&
          State.keptInName (Text.lowerChar c) == Text.lowerChar c) (by decide)
      simp only [Bool.and_eq_true, Bool.not_eq_true', bne_iff_ne, beq_iff_eq] at small
      obtain ⟨⟨⟨solid, notSlash⟩, notGreater⟩, same⟩ := small
      exact ⟨solid, notSlash, notGreater, same⟩
    · have plain : Text.lowerChar c = c := by rw [Text.lowerChar, if_neg capital]
      rw [plain]
      exact ⟨solid, notSlash, notGreater, by rw [State.keptInName, if_neg null, plain]⟩

/-- An equals sign in a name was one before. -/
theorem State.keptInName_ne_equals {c : Char} (other : c ≠ '=') : keptInName c ≠ '=' := by
  unfold keptInName
  split
  · decide
  · unfold Text.lowerChar
    split
    · rename_i capital
      have small := Text.of_isCapital capital (p := fun c => Char.ofNat (c.toNat + 32) != '=')
        (by decide)
      exact bne_iff_ne.mp small
    · exact other

/-- A letter as it is kept at the beginning of the name of a tag. -/
theorem NameCharacter.of_letter {c : Char} (letter : Text.isLetter c = true) :
    NameCharacter (Text.lowerChar c) ∧ Text.isLetter (Text.lowerChar c) = true := by
  have notNull : c ≠ State.null := by
    rintro rfl
    exact absurd letter (by decide)
  have solid : Text.isBlank c = false := by
    by_contra blank
    simp only [Text.isBlank, Bool.not_eq_false, Bool.or_eq_true, beq_iff_eq] at blank
    rcases blank with (((rfl | rfl) | rfl) | rfl) | rfl <;> exact absurd letter (by decide)
  have kept : State.keptInName c = Text.lowerChar c := by rw [State.keptInName, if_neg notNull]
  refine ⟨?_, ?_⟩
  · rw [← kept]
    refine .of_kept solid ?_ ?_ <;> rintro rfl <;> exact absurd letter (by decide)
  · by_cases capital : Text.isCapital c = true
    · exact Text.of_isCapital capital (p := fun c => Text.isLetter (Text.lowerChar c)) (by decide)
    · rw [Text.lowerChar, if_neg capital]
      exact letter

/-! ## Names -/

/-- The name of a tag: a letter and whatever does not end the name. -/
structure TagName (name : Text) : Prop where
  first : ∃ c rest, name = c :: rest ∧ Text.isLetter c = true
  characters : ∀ c ∈ name, NameCharacter c

/-- The name of an attribute; an equals sign is taken for a part of it only where it begins. -/
structure AttributeName (name : Text) : Prop where
  first : ∃ c rest, name = c :: rest ∧ ∀ d ∈ rest, d ≠ '='
  characters : ∀ c ∈ name, NameCharacter c

theorem TagName.append {name : Text} (h : TagName name) {c : Char} (next : NameCharacter c) :
    TagName (name ++ [c]) := by
  obtain ⟨⟨first, rest, rfl, letter⟩, characters⟩ := h
  refine ⟨⟨first, rest ++ [c], rfl, letter⟩, fun d member => ?_⟩
  rcases List.mem_append.mp member with member | member
  · exact characters d member
  · rw [List.mem_singleton.mp member]
    exact next

theorem AttributeName.single {c : Char} (h : NameCharacter c) : AttributeName [c] :=
  ⟨⟨c, [], rfl, fun _ member => absurd member List.not_mem_nil⟩, fun d member => by
    rw [List.mem_singleton.mp member]
    exact h⟩

theorem AttributeName.append {name : Text} (h : AttributeName name) {c : Char}
    (next : NameCharacter c) (other : c ≠ '=') : AttributeName (name ++ [c]) := by
  obtain ⟨⟨first, rest, rfl, others⟩, characters⟩ := h
  refine ⟨⟨first, rest ++ [c], rfl, fun d member => ?_⟩, fun d member => ?_⟩
  · rcases List.mem_append.mp member with member | member
    · exact others d member
    · rw [List.mem_singleton.mp member]
      exact other
  · rcases List.mem_append.mp member with member | member
    · exact characters d member
    · rw [List.mem_singleton.mp member]
      exact next

/-! ## Attributes -/

/-- The attributes of a tag are in the strict order of their names. -/
def Attribute.Sorted (attributes : List Attribute) : Prop :=
  attributes.Pairwise fun a b => a.name < b.name

theorem Attribute.mem_of_mem_insert {a b : Attribute} {l : List Attribute} (h : b ∈ a.insert l) :
    b = a ∨ b ∈ l := by
  induction l with
  | nil => exact .inl (List.mem_singleton.mp h)
  | cons first rest ih =>
    rw [insert] at h
    split at h
    · exact .inr h
    · split at h
      · exact (List.mem_cons.mp h).imp_right id
      · rcases List.mem_cons.mp h with rfl | later
        · exact .inr List.mem_cons_self
        · exact (ih later).imp_right (List.mem_cons_of_mem first)

theorem Attribute.sorted_insert (a : Attribute) {l : List Attribute} (h : Sorted l) :
    Sorted (a.insert l) := by
  induction l with
  | nil => exact List.pairwise_singleton _ _
  | cons first rest ih =>
    obtain ⟨before, sorted⟩ := List.pairwise_cons.mp h
    rw [insert]
    by_cases same : a.name = first.name
    · rw [if_pos same]
      exact h
    · rw [if_neg same]
      by_cases less : a.name < first.name
      · rw [if_pos less]
        refine List.pairwise_cons.mpr ⟨fun b member => ?_, h⟩
        rcases List.mem_cons.mp member with rfl | later
        · exact less
        · exact lt_trans less (before b later)
      · rw [if_neg less]
        have greater : first.name < a.name := lt_of_le_of_ne (not_lt.mp less) (Ne.symm same)
        refine List.pairwise_cons.mpr ⟨fun b member => ?_, ih sorted⟩
        rcases mem_of_mem_insert member with rfl | later
        · exact greater
        · exact before b later

/-- An attribute of a new name is added. -/
theorem Attribute.insert_perm {a : Attribute} {l : List Attribute}
    (new : ∀ b ∈ l, b.name ≠ a.name) : (a.insert l).Perm (a :: l) := by
  induction l with
  | nil => exact .refl _
  | cons first rest ih =>
    have other : a.name ≠ first.name := fun same => new first List.mem_cons_self same.symm
    rw [insert, if_neg other]
    split
    · exact .refl _
    · exact ((ih fun b member => new b (List.mem_cons_of_mem first member)).cons first).trans
        (.swap a first rest)

/-! ## Tags -/

/-- A tag with a name and attributes as the tokenizer reads them. -/
structure Tag.Named (tag : Tag) : Prop where
  name : TagName tag.name
  attributes : ∀ a ∈ tag.attributes, AttributeName a.name
  sorted : Attribute.Sorted tag.attributes

theorem Tag.Named.withAttribute {tag : Tag} (h : tag.Named) {name : Text}
    (known : AttributeName name) (value : Text) : (tag.withAttribute name value).Named := by
  refine ⟨h.name, fun a member => ?_, Attribute.sorted_insert _ h.sorted⟩
  rcases Attribute.mem_of_mem_insert member with rfl | member
  · exact known
  · exact h.attributes a member

/-- A start tag as the tokenizer reads it. -/
def Token.Named : Token → Prop
  | .startTag name attributes _ => Tag.Named ⟨false, name, attributes⟩
  | _ => True

theorem Token.named_characters (s : Text) : ∀ token ∈ Token.characters s, token.Named := by
  intro token member
  obtain ⟨c, _, rfl⟩ := List.mem_map.mp member
  trivial

namespace State

/-- The tag that is being read is named well so far. -/
def Named : State → Prop
  | rawEndName _ letters =>
    (∃ c rest, letters = c :: rest) ∧ ∀ c ∈ letters, Text.isLetter c = true
  | reference (.value tag name _ _) _ => tag.Named ∧ AttributeName name
  | tagName tag => tag.Named
  | beforeName tag => tag.Named
  | attributeName tag name => tag.Named ∧ AttributeName name
  | afterName tag name => tag.Named ∧ AttributeName name
  | beforeValue tag name => tag.Named ∧ AttributeName name
  | value tag name _ _ => tag.Named ∧ AttributeName name
  | afterValue tag => tag.Named
  | selfClosing tag => tag.Named
  | _ => True

/-- A step leads to a state, and completes tokens, that are named well. -/
def Keeps (next : State × List Token) : Prop := next.1.Named ∧ ∀ token ∈ next.2, token.Named

theorem Keeps.quiet {state : State} (h : state.Named) : Keeps (state, []) :=
  ⟨h, fun _ member => absurd member List.not_mem_nil⟩

theorem Keeps.characters {state : State} (h : state.Named) (s : Text) :
    Keeps (state, Token.characters s) := ⟨h, Token.named_characters s⟩

theorem Keeps.mark {state : State} (h : state.Named) {token : Token} (named : token.Named) :
    Keeps (state, [token]) :=
  ⟨h, fun other member => by
    rw [List.mem_singleton.mp member]
    exact named⟩

theorem Keeps.emitting {next : State × List Token} (h : Keeps next) (s : Text) :
    Keeps (emitting (Token.characters s) next) := by
  refine ⟨h.1, fun token member => ?_⟩
  rcases List.mem_append.mp member with member | member
  · exact Token.named_characters s token member
  · exact h.2 token member

theorem named_content (name : Text) : (content name).Named := by
  unfold content
  split
  · trivial
  · split <;> trivial

theorem keeps_closeTag {tag : Tag} (h : tag.Named) (closesItself : Bool) :
    Keeps (closeTag tag closesItself) := by
  refine ⟨?_, fun token member => ?_⟩
  · unfold closeTag afterTag
    split
    · trivial
    · exact named_content _
  · rw [List.mem_singleton.mp member, Tag.token]
    split
    · trivial
    · exact ⟨h.name, h.attributes, h.sorted⟩

theorem keeps_stepData (c : Char) : Keeps (stepData c) := by
  unfold stepData
  split
  · exact .quiet (by trivial)
  · split
    · exact .quiet (by trivial)
    · exact .characters (by trivial) [c]

theorem Keeps.of_rawStep {c : Char} {next : State × List Token} (h : RawStep c next) :
    Keeps next := by
  cases h with
  | @character content x _ => exact .characters (by trivial) [x]
  | less _ => exact .quiet (by trivial)

theorem keeps_stepRaw (content : RawContent) (c : Char) : Keeps (stepRaw content c) := by
  cases content with
  | script element phase => exact .of_rawStep (rawStep_stepScript element phase c)
  | plain element =>
    unfold stepRaw
    simp only
    split
    · exact .quiet (by trivial)
    · split
      · exact .quiet (by trivial)
      · exact .characters (by trivial) [kept c]

theorem keeps_stepRawLess (content : RawContent) (c : Char) : Keeps (stepRawLess content c) := by
  have less : Keeps (emitting [.character '<'] (stepRaw content c)) :=
    (keeps_stepRaw content c).emitting ['<']
  unfold stepRawLess
  split
  · exact .quiet (by trivial)
  · split
    · split
      · exact .characters (by trivial) ['<', '!']
      · exact less
    · split
      · exact (Keeps.of_rawStep (rawStep_stepScript _ _ c)).emitting ['<']
      · exact less
    · exact less

theorem keeps_stepRawEndOpen (content : RawContent) (c : Char) :
    Keeps (stepRawEndOpen content c) := by
  unfold stepRawEndOpen
  split
  · rename_i letter
    refine .quiet ⟨⟨c, [], rfl⟩, fun d member => ?_⟩
    rw [List.mem_singleton.mp member]
    exact letter
  · exact (keeps_stepRaw content c).emitting ['<', '/']

/-- Letters are the name of a tag. -/
theorem tagName_lower {letters : Text} (some : ∃ c rest, letters = c :: rest)
    (all : ∀ c ∈ letters, Text.isLetter c = true) : TagName (Text.lower letters) := by
  obtain ⟨c, rest, rfl⟩ := some
  refine ⟨⟨_, _, rfl, (NameCharacter.of_letter (all c List.mem_cons_self)).2⟩, fun d member => ?_⟩
  obtain ⟨e, known, rfl⟩ := List.mem_map.mp member
  exact (NameCharacter.of_letter (all e known)).1

theorem keeps_stepRawEndName (content : RawContent) {letters : Text}
    (h : (rawEndName content letters).Named) (c : Char) :
    Keeps (stepRawEndName content letters c) := by
  have tag : (⟨true, Text.lower letters, []⟩ : Tag).Named :=
    ⟨tagName_lower h.1 h.2, fun _ member => absurd member List.not_mem_nil, List.Pairwise.nil⟩
  unfold stepRawEndName
  simp only
  split
  · rename_i letter
    obtain ⟨⟨first, rest, rfl⟩, all⟩ := h
    refine .quiet ⟨⟨first, rest ++ [c], rfl⟩, fun d member => ?_⟩
    rcases List.mem_append.mp member with member | member
    · exact all d member
    · rw [List.mem_singleton.mp member]
      exact letter
  · split
    · exact .quiet tag
    · split
      · exact .quiet tag
      · split
        · exact keeps_closeTag tag false
        · exact (keeps_stepRaw content c).emitting _

/-! ### Inside a tag -/

theorem named_opening (closing : Bool) {c : Char} (letter : Text.isLetter c = true) :
    (⟨closing, [Text.lowerChar c], []⟩ : Tag).Named := by
  obtain ⟨known, small⟩ := NameCharacter.of_letter letter
  refine ⟨⟨⟨_, _, rfl, small⟩, fun d member => ?_⟩, fun _ member => absurd member List.not_mem_nil,
    List.Pairwise.nil⟩
  rw [List.mem_singleton.mp member]
  exact known

section Tags

variable {tag : Tag} {name : Text} {c : Char}

theorem keeps_stepTagName (h : tag.Named) (c : Char) : Keeps (stepTagName tag c) := by
  unfold stepTagName
  split
  · exact .quiet h
  · rename_i solid
    split
    · exact .quiet h
    · rename_i notSlash
      split
      · exact keeps_closeTag h false
      · rename_i notGreater
        have next : NameCharacter (keptInName c) :=
          .of_kept (Bool.eq_false_iff.mpr solid) notSlash notGreater
        exact .quiet ⟨h.name.append next, h.attributes, h.sorted⟩

theorem keeps_stepBeforeName (h : tag.Named) (c : Char) : Keeps (stepBeforeName tag c) := by
  unfold stepBeforeName
  split
  · exact .quiet h
  · rename_i solid
    split
    · exact .quiet h
    · rename_i notSlash
      split
      · exact keeps_closeTag h false
      · rename_i notGreater
        exact .quiet ⟨h, .single (.of_kept (Bool.eq_false_iff.mpr solid) notSlash notGreater)⟩

theorem keeps_stepAttributeName (h : tag.Named) (known : AttributeName name) (c : Char) :
    Keeps (stepAttributeName tag name c) := by
  unfold stepAttributeName
  split
  · exact .quiet ⟨h, known⟩
  · rename_i solid
    split
    · exact .quiet (h.withAttribute known [])
    · rename_i notSlash
      split
      · exact keeps_closeTag (h.withAttribute known []) false
      · rename_i notGreater
        split
        · exact .quiet ⟨h, known⟩
        · rename_i notEquals
          have next : NameCharacter (keptInName c) :=
            .of_kept (Bool.eq_false_iff.mpr solid) notSlash notGreater
          exact .quiet ⟨h, known.append next (keptInName_ne_equals notEquals)⟩

theorem keeps_stepAfterName (h : tag.Named) (known : AttributeName name) (c : Char) :
    Keeps (stepAfterName tag name c) := by
  unfold stepAfterName
  split
  · exact .quiet ⟨h, known⟩
  · rename_i solid
    split
    · exact .quiet (h.withAttribute known [])
    · rename_i notSlash
      split
      · exact keeps_closeTag (h.withAttribute known []) false
      · rename_i notGreater
        split
        · exact .quiet ⟨h, known⟩
        · exact .quiet ⟨h.withAttribute known [],
            .single (.of_kept (Bool.eq_false_iff.mpr solid) notSlash notGreater)⟩

theorem keeps_stepValue (h : tag.Named) (known : AttributeName name) (quote : Quote) (v : Text)
    (c : Char) : Keeps (stepValue tag name quote v c) := by
  by_cases reference : c = '&'
  · unfold stepValue
    rw [if_pos reference]
    exact .quiet ⟨h, known⟩
  · rw [stepValue_eq tag name quote v reference]
    split
    · have all : (tag.withAttribute name v).Named := h.withAttribute known v
      unfold leaveValue
      split
      · split
        · exact keeps_closeTag all false
        · exact .quiet all
      · exact .quiet all
    · exact .quiet ⟨h, known⟩

theorem keeps_stepBeforeValue (h : tag.Named) (known : AttributeName name) (c : Char) :
    Keeps (stepBeforeValue tag name c) := by
  unfold stepBeforeValue
  split
  · exact .quiet ⟨h, known⟩
  · split
    · exact .quiet ⟨h, known⟩
    · split
      · exact .quiet ⟨h, known⟩
      · split
        · exact keeps_closeTag (h.withAttribute known []) false
        · exact keeps_stepValue h known .none [] c

theorem keeps_stepSelfClosing (h : tag.Named) (c : Char) : Keeps (stepSelfClosing tag c) := by
  unfold stepSelfClosing
  split
  · exact keeps_closeTag h true
  · exact keeps_stepBeforeName h c

end Tags

/-! ### Comments and document types -/

theorem keeps_stepBogusComment (text : Text) (c : Char) : Keeps (stepBogusComment text c) := by
  unfold stepBogusComment
  split
  · exact .mark (by trivial) (by trivial)
  · exact .quiet (by trivial)

theorem keeps_stepCommentBody (text : Text) (c : Char) : Keeps (stepCommentBody text c) := by
  unfold stepCommentBody
  split <;> exact .quiet (by trivial)

theorem keeps_stepComment (phase : CommentPhase) (text : Text) (c : Char) :
    Keeps (stepComment phase text c) := by
  have ended : Keeps (data, [.comment text]) := .mark (by trivial) (by trivial)
  have onward : ∀ phase text, Keeps (comment phase text, []) := fun _ _ => .quiet (by trivial)
  unfold stepComment
  cases phase with
  | body => exact keeps_stepCommentBody text c
  | _ =>
    simp only
    repeat' split
    all_goals first | exact ended | exact onward _ _ | exact keeps_stepCommentBody _ c

theorem keeps_stepDeclaration (seen : Text) (c : Char) : Keeps (stepDeclaration seen c) := by
  unfold stepDeclaration
  repeat' split
  all_goals first | exact keeps_stepBogusComment seen c | exact .quiet (by trivial)

theorem keeps_stepDoctype (phase : DoctypePhase) (name : Text) (c : Char) :
    Keeps (stepDoctype phase name c) := by
  unfold stepDoctype
  split
  · exact .mark (by trivial) (by trivial)
  · cases phase with
    | after => exact .quiet (by trivial)
    | _ =>
      simp only
      split <;> exact .quiet (by trivial)

theorem keeps_stepTagOpen (c : Char) : Keeps (stepTagOpen c) := by
  unfold stepTagOpen
  split
  · exact .quiet (by trivial)
  · split
    · exact .quiet (by trivial)
    · split
      · rename_i letter
        exact .quiet (named_opening false letter)
      · split
        · exact .quiet (by trivial)
        · exact (keeps_stepData c).emitting ['<']

theorem keeps_stepEndTagOpen (c : Char) : Keeps (stepEndTagOpen c) := by
  unfold stepEndTagOpen
  split
  · rename_i letter
    exact .quiet (named_opening true letter)
  · split
    · exact .quiet (by trivial)
    · exact keeps_stepBogusComment [] c

/-! ### All states -/

theorem keeps_stepReference (target : ReferenceTarget) (ref : Reference)
    (h : (reference target ref).Named) (c : Char) : Keeps (stepReference target ref c) := by
  unfold stepReference
  cases target with
  | data =>
    split
    · exact .quiet (by trivial)
    · exact .characters (by trivial) _
    · exact (keeps_stepData c).emitting _
  | raw element =>
    split
    · exact .quiet (by trivial)
    · exact .characters (by trivial) _
    · exact (keeps_stepRaw _ c).emitting _
  | value tag name quote v =>
    split
    · exact .quiet h
    · exact .quiet h
    · exact keeps_stepValue h.1 h.2 quote _ c

/-- A step keeps the names of tags well-formed and their attributes in order. -/
theorem named_step {state : State} (h : state.Named) (c : Char) : Keeps (state.step c) := by
  cases state with
  | data => exact keeps_stepData c
  | raw content => exact keeps_stepRaw content c
  | rawLess content => exact keeps_stepRawLess content c
  | rawEndOpen content => exact keeps_stepRawEndOpen content c
  | rawEndName content letters => exact keeps_stepRawEndName content h c
  | reference target ref => exact keeps_stepReference target ref h c
  | tagOpen => exact keeps_stepTagOpen c
  | endTagOpen => exact keeps_stepEndTagOpen c
  | tagName tag => exact keeps_stepTagName h c
  | beforeName tag => exact keeps_stepBeforeName h c
  | attributeName tag name => exact keeps_stepAttributeName h.1 h.2 c
  | afterName tag name => exact keeps_stepAfterName h.1 h.2 c
  | beforeValue tag name => exact keeps_stepBeforeValue h.1 h.2 c
  | value tag name quote text => exact keeps_stepValue h.1 h.2 quote text c
  | afterValue tag => exact keeps_stepBeforeName h c
  | selfClosing tag => exact keeps_stepSelfClosing h c
  | declaration seen => exact keeps_stepDeclaration seen c
  | comment phase text => exact keeps_stepComment phase text c
  | bogusComment text => exact keeps_stepBogusComment text c
  | doctype phase name => exact keeps_stepDoctype phase name c

/-- The end of the input completes no start tag. -/
theorem named_finish (state : State) : ∀ token ∈ state.finish, token.Named := by
  have none : ∀ token ∈ ([] : List Token), token.Named := fun _ member =>
    absurd member List.not_mem_nil
  have single : ∀ data, ∀ token ∈ [Token.comment data], token.Named := by
    intro data token member
    rw [List.mem_singleton.mp member]
    trivial
  cases state with
  | rawLess _ => exact Token.named_characters ['<']
  | rawEndOpen _ => exact Token.named_characters ['<', '/']
  | rawEndName _ letters => exact Token.named_characters ('<' :: '/' :: letters)
  | reference target ref =>
    simp only [finish]
    split
    · exact none
    · exact Token.named_characters _
  | tagOpen => exact Token.named_characters ['<']
  | endTagOpen => exact Token.named_characters ['<', '/']
  | declaration seen => exact single seen
  | comment _ text => exact single text
  | bogusComment text => exact single text
  | doctype _ name =>
    intro token member
    rw [List.mem_singleton.mp member]
    trivial
  | _ => exact none

theorem named_run {state : State} (h : state.Named) (text : Text) :
    ∀ token ∈ state.run text, token.Named := by
  induction text generalizing state with
  | nil => exact named_finish state
  | cons c text ih =>
    intro token member
    obtain ⟨next, tokens⟩ := named_step h c
    rcases List.mem_append.mp member with member | member
    · exact tokens token member
    · exact ih next token member

end State

/-- The tokenizer reads only start tags whose names it would read again, with their attributes in
order. -/
theorem Token.named_read (markup : Text) : ∀ token ∈ Token.read markup, token.Named :=
  @State.named_run .data trivial _

end HtmlTemplate

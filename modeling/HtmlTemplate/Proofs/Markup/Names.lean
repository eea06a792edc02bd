import HtmlTemplate.Proofs.Markup.Flow
import HtmlTemplate.Proofs.Markup.Named

/-!
# Where names come from

The name of a tag or an attribute is a stretch of the markup in small letters. What holds of every
such stretch of a text (`Names.Infix`) holds of every name that is read there, if no name is cut at
its beginning (`State.tidy_after`).
-/

namespace HtmlTemplate

/-- The names that a token tells of. -/
def Token.names : Token → List Text
  | .startTag name attributes _ => name :: attributes.map Attribute.name
  | .endTag name => [name]
  | _ => []

theorem Token.names_characters (u : Text) : ∀ token ∈ characters u, token.names = [] := by
  intro token member
  obtain ⟨c, _, rfl⟩ := List.mem_map.mp member
  rfl

/-- The names of a tag with its attributes have a property. -/
structure Tag.Tidy (P : Text → Prop) (tag : Tag) : Prop where
  name : P tag.name
  attributes : ∀ a ∈ tag.attributes, P a.name

theorem Tag.Tidy.withAttribute {P : Text → Prop} {tag : Tag} (h : tag.Tidy P) {name : Text}
    (known : P name) (value : Text) : (tag.withAttribute name value).Tidy P := by
  refine ⟨h.name, fun a member => ?_⟩
  rcases Attribute.mem_of_mem_insert member with rfl | member
  · exact known
  · exact h.attributes a member

theorem Token.names_finish (state : State) : ∀ token ∈ state.finish, token.names = [] := by
  have none : ∀ token ∈ ([] : List Token), token.names = [] := fun _ member =>
    absurd member List.not_mem_nil
  have single : ∀ data, ∀ token ∈ [Token.comment data], token.names = [] := by
    intro data token member
    rw [List.mem_singleton.mp member]
    rfl
  cases state with
  | rawLess _ => exact names_characters ['<']
  | rawEndOpen _ => exact names_characters ['<', '/']
  | rawEndName _ letters => exact names_characters ('<' :: '/' :: letters)
  | reference target ref =>
    simp only [State.finish]
    split
    · exact none
    · exact names_characters _
  | tagOpen => exact names_characters ['<']
  | endTagOpen => exact names_characters ['<', '/']
  | declaration seen => exact single seen
  | comment _ data => exact single data
  | bogusComment data => exact single data
  | doctype _ name =>
    intro token member
    rw [List.mem_singleton.mp member]
    rfl
  | _ => exact none

namespace State

variable {P : Text → Prop} {seen name : Text} {c : Char} {tag : Tag} {state : State}

/-- The text as it is read in names. -/
def inNames (seen : Text) : Text := seen.map keptInName

/-- Complete names have a property, and a name that is being read is the end of what has been
seen. -/
def Tidy (P : Text → Prop) (seen : Text) : State → Prop
  | rawEndName _ letters => Text.lower letters <:+ inNames seen
  | reference (.value tag name _ _) _ => tag.Tidy P ∧ P name
  | tagName tag => tag.name <:+ inNames seen ∧ tag.attributes = []
  | beforeName tag => tag.Tidy P
  | attributeName tag name => tag.Tidy P ∧ name <:+ inNames seen
  | afterName tag name => tag.Tidy P ∧ P name
  | beforeValue tag name => tag.Tidy P ∧ P name
  | value tag name _ _ => tag.Tidy P ∧ P name
  | afterValue tag => tag.Tidy P
  | selfClosing tag => tag.Tidy P
  | _ => True

/-- A step keeps names tidy. -/
structure Tidies (P : Text → Prop) (seen : Text) (next : State × List Token) : Prop where
  state : next.1.Tidy P seen
  tokens : ∀ token ∈ next.2, ∀ name ∈ token.names, P name

namespace Tidies

theorem quiet (h : state.Tidy P seen) : Tidies P seen (state, []) :=
  ⟨h, fun _ member => absurd member List.not_mem_nil⟩

theorem of_names {next : State × List Token} (h : next.1.Tidy P seen)
    (none : ∀ token ∈ next.2, token.names = []) : Tidies P seen next :=
  ⟨h, fun token member name inside => by
    rw [none token member] at inside
    exact absurd inside List.not_mem_nil⟩

theorem emitting {next : State × List Token} (h : Tidies P seen next) (u : Text) :
    Tidies P seen (emitting (Token.characters u) next) := by
  refine ⟨h.state, fun token member => ?_⟩
  rcases List.mem_append.mp member with member | member
  · rw [Token.names_characters u token member]
    exact fun name inside => absurd inside List.not_mem_nil
  · exact h.tokens token member

end Tidies

theorem inNames_append (seen : Text) (c : Char) :
    inNames (seen ++ [c]) = inNames seen ++ [keptInName c] :=
  List.map_append

theorem suffix_inNames (h : name <:+ inNames seen) (c : Char) :
    name ++ [keptInName c] <:+ inNames (seen ++ [c]) := by
  obtain ⟨front, same⟩ := h
  exact ⟨front, by rw [inNames_append, ← same, List.append_assoc]⟩

theorem single_inNames (seen : Text) (c : Char) : [keptInName c] <:+ inNames (seen ++ [c]) :=
  ⟨inNames seen, (inNames_append seen c).symm⟩

theorem keptInName_of_isLetter (letter : Text.isLetter c = true) :
    keptInName c = Text.lowerChar c :=
  if_neg (ne_null_of_isLetter letter)

section Steps

variable (known : ∀ name, name <:+: inNames seen → P name)

theorem tidies_content (name : Text) : (content name).Tidy P seen := by
  unfold content
  split
  · trivial
  · split <;> trivial

theorem tidies_closeTag (h : tag.Tidy P) (closesItself : Bool) :
    Tidies P seen (closeTag tag closesItself) := by
  refine ⟨?_, fun token member name inside => ?_⟩
  · unfold closeTag afterTag
    split
    · trivial
    · exact tidies_content _
  · rw [List.mem_singleton.mp member, Tag.token] at inside
    split at inside
    · rw [List.mem_singleton.mp inside]
      exact h.name
    · rcases List.mem_cons.mp inside with rfl | inside
      · exact h.name
      · obtain ⟨a, member, rfl⟩ := List.mem_map.mp inside
        exact h.attributes a member

theorem tidies_stepData (c : Char) : Tidies P seen (stepData c) := by
  unfold stepData
  split
  · exact .quiet (by trivial)
  · split
    · exact .quiet (by trivial)
    · exact .of_names (by trivial) (Token.names_characters [c])

theorem tidies_stepRaw (content : RawContent) (c : Char) : Tidies P seen (stepRaw content c) := by
  cases content with
  | script element phase =>
    have move := rawStep_stepScript element phase c
    show Tidies P seen (stepScript element phase c)
    generalize stepScript element phase c = next at move
    cases move with
    | @character content x _ => exact .of_names (by trivial) (Token.names_characters [x])
    | less _ => exact .quiet (by trivial)
  | plain element =>
    unfold stepRaw
    simp only
    split
    · exact .quiet (by trivial)
    · split
      · exact .quiet (by trivial)
      · exact .of_names (by trivial) (Token.names_characters [kept c])

theorem tidies_stepRawLess (content : RawContent) (c : Char) :
    Tidies P seen (stepRawLess content c) := by
  have less : Tidies P seen (emitting [.character '<'] (stepRaw content c)) :=
    (tidies_stepRaw content c).emitting ['<']
  unfold stepRawLess
  split
  · exact .quiet (by trivial)
  · split
    · split
      · exact .of_names (by trivial) (Token.names_characters ['<', '!'])
      · exact less
    · rename_i element dashes
      split
      · exact (tidies_stepRaw (.script element (.entering [])) c).emitting ['<']
      · exact less
    · exact less

theorem tidies_stepBogusComment (data : Text) (c : Char) :
    Tidies P seen (stepBogusComment data c) := by
  unfold stepBogusComment
  split
  · exact .of_names (by trivial) fun token member => by rw [List.mem_singleton.mp member]; rfl
  · exact .quiet (by trivial)

theorem tidies_stepCommentBody (data : Text) (c : Char) :
    Tidies P seen (stepCommentBody data c) := by
  unfold stepCommentBody
  split <;> exact .quiet (by trivial)

theorem tidies_stepComment (phase : CommentPhase) (data : Text) (c : Char) :
    Tidies P seen (stepComment phase data c) := by
  have ended : Tidies P seen (.data, [.comment data]) :=
    .of_names (by trivial) fun token member => by rw [List.mem_singleton.mp member]; rfl
  have body : ∀ data, Tidies P seen (stepCommentBody data c) :=
    fun data => tidies_stepCommentBody data c
  unfold stepComment
  cases phase with
  | start =>
    simp only
    split
    · exact .quiet (by trivial)
    · split
      · exact ended
      · exact body _
  | startDash =>
    simp only
    split
    · exact .quiet (by trivial)
    · split
      · exact ended
      · exact body _
  | body => exact body _
  | dash =>
    simp only
    split
    · exact .quiet (by trivial)
    · exact body _
  | dashes =>
    simp only
    split
    · exact ended
    · split
      · exact .quiet (by trivial)
      · split
        · exact .quiet (by trivial)
        · exact body _
  | bang =>
    simp only
    split
    · exact .quiet (by trivial)
    · split
      · exact ended
      · exact body _

theorem tidies_stepDeclaration (word : Text) (c : Char) :
    Tidies P seen (stepDeclaration word c) := by
  unfold stepDeclaration
  split
  · exact .quiet (by trivial)
  · split
    · exact .quiet (by trivial)
    · split
      · exact .quiet (by trivial)
      · split
        · exact .quiet (by trivial)
        · exact tidies_stepBogusComment word c

theorem tidies_stepDoctype (phase : DoctypePhase) (word : Text) (c : Char) :
    Tidies P seen (stepDoctype phase word c) := by
  unfold stepDoctype
  split
  · exact .of_names (by trivial) fun token member => by rw [List.mem_singleton.mp member]; rfl
  · cases phase with
    | before =>
      simp only
      split <;> exact .quiet (by trivial)
    | name =>
      simp only
      split <;> exact .quiet (by trivial)
    | after => exact .quiet (by trivial)

theorem tidies_stepTagOpen (c : Char) : Tidies P (seen ++ [c]) (stepTagOpen c) := by
  unfold stepTagOpen
  split
  · exact .quiet (by trivial)
  · split
    · exact .quiet (by trivial)
    · split
      · rename_i letter
        rw [← keptInName_of_isLetter letter]
        exact .quiet ⟨single_inNames seen c, rfl⟩
      · split
        · exact .quiet (by trivial)
        · exact (tidies_stepData c).emitting ['<']

theorem tidies_stepEndTagOpen (c : Char) : Tidies P (seen ++ [c]) (stepEndTagOpen c) := by
  unfold stepEndTagOpen
  split
  · rename_i letter
    rw [← keptInName_of_isLetter letter]
    exact .quiet ⟨single_inNames seen c, rfl⟩
  · split
    · exact .quiet (by trivial)
    · exact tidies_stepBogusComment [] c

theorem tidies_stepRawEndOpen (content : RawContent) (c : Char) :
    Tidies P (seen ++ [c]) (stepRawEndOpen content c) := by
  unfold stepRawEndOpen
  split
  · rename_i letter
    have small := single_inNames seen c
    rw [keptInName_of_isLetter letter] at small
    exact .quiet small
  · exact (tidies_stepRaw content c).emitting ['<', '/']

theorem tidies_stepBeforeName (h : tag.Tidy P) (c : Char) :
    Tidies P (seen ++ [c]) (stepBeforeName tag c) := by
  unfold stepBeforeName
  split
  · exact .quiet h
  · split
    · exact .quiet h
    · split
      · exact tidies_closeTag h false
      · exact .quiet ⟨h, single_inNames seen c⟩

theorem tidies_leaveValue (h : tag.Tidy P) (quote : Quote) (c : Char) :
    Tidies P seen (leaveValue tag quote c) := by
  unfold leaveValue
  split
  · split
    · exact tidies_closeTag h false
    · exact .quiet h
  · exact .quiet h

theorem tidies_stepValue (h : tag.Tidy P) (named : P name) (quote : Quote) (v : Text) (c : Char) :
    Tidies P seen (stepValue tag name quote v c) := by
  by_cases literal : c = '&'
  · unfold stepValue
    rw [if_pos literal]
    exact .quiet ⟨h, named⟩
  · rw [stepValue_eq tag name quote v literal]
    split
    · exact tidies_leaveValue (h.withAttribute named v) quote c
    · exact .quiet ⟨h, named⟩

theorem tidies_stepReference {target : ReferenceTarget} {ref : Reference}
    (h : (reference target ref).Tidy P seen) (c : Char) :
    Tidies P (seen ++ [c]) (stepReference target ref c) := by
  unfold stepReference
  cases target with
  | data =>
    split
    · exact .quiet (by trivial)
    · exact .of_names (by trivial) (Token.names_characters _)
    · exact (tidies_stepData c).emitting _
  | raw element =>
    split
    · exact .quiet (by trivial)
    · exact .of_names (by trivial) (Token.names_characters _)
    · exact (tidies_stepRaw (.plain element) c).emitting _
  | value tag name quote v =>
    split
    · exact .quiet h
    · exact .quiet h
    · exact tidies_stepValue h.1 h.2 quote _ c

include known

/-- The end of what has been seen has the property. -/
theorem known_of_suffix (h : name <:+ inNames seen) : P name := known name h.isInfix

theorem tidies_stepTagName (h : tag.name <:+ inNames seen) (none : tag.attributes = []) (c : Char) :
    Tidies P (seen ++ [c]) (stepTagName tag c) := by
  have tidy : tag.Tidy P := ⟨known_of_suffix known h, by
    rw [none]
    exact fun a member => absurd member List.not_mem_nil⟩
  unfold stepTagName
  split
  · exact .quiet tidy
  · split
    · exact .quiet tidy
    · split
      · exact tidies_closeTag tidy false
      · exact .quiet ⟨suffix_inNames h c, none⟩

theorem tidies_stepAttributeName (h : tag.Tidy P) (part : name <:+ inNames seen) (c : Char) :
    Tidies P (seen ++ [c]) (stepAttributeName tag name c) := by
  have named := known_of_suffix known part
  unfold stepAttributeName
  split
  · exact .quiet ⟨h, named⟩
  · split
    · exact .quiet (h.withAttribute named [])
    · split
      · exact tidies_closeTag (h.withAttribute named []) false
      · split
        · exact .quiet ⟨h, named⟩
        · exact .quiet ⟨h, suffix_inNames part c⟩

omit known in
theorem tidies_stepAfterName (h : tag.Tidy P) (named : P name) (c : Char) :
    Tidies P (seen ++ [c]) (stepAfterName tag name c) := by
  unfold stepAfterName
  split
  · exact .quiet ⟨h, named⟩
  · split
    · exact .quiet (h.withAttribute named [])
    · split
      · exact tidies_closeTag (h.withAttribute named []) false
      · split
        · exact .quiet ⟨h, named⟩
        · exact .quiet ⟨h.withAttribute named [], single_inNames seen c⟩

omit known in
theorem tidies_stepBeforeValue (h : tag.Tidy P) (named : P name) (c : Char) :
    Tidies P (seen ++ [c]) (stepBeforeValue tag name c) := by
  unfold stepBeforeValue
  split
  · exact .quiet ⟨h, named⟩
  · split
    · exact .quiet ⟨h, named⟩
    · split
      · exact .quiet ⟨h, named⟩
      · split
        · exact tidies_closeTag (h.withAttribute named []) false
        · exact tidies_stepValue h named .none [] c

theorem tidies_stepRawEndName (content : RawContent) {letters : Text}
    (h : Text.lower letters <:+ inNames seen) (c : Char) :
    Tidies P (seen ++ [c]) (stepRawEndName content letters c) := by
  have tidy : Tag.Tidy P ⟨true, Text.lower letters, []⟩ :=
    ⟨known_of_suffix known h, fun a member => absurd member List.not_mem_nil⟩
  unfold stepRawEndName
  simp only
  split
  · rename_i letter
    have more := suffix_inNames h c
    rw [keptInName_of_isLetter letter] at more
    refine .quiet (?_ : Text.lower (letters ++ [c]) <:+ _)
    rw [Text.lower, List.map_append]
    exact more
  · split
    · exact .quiet tidy
    · split
      · exact .quiet tidy
      · split
        · exact tidies_closeTag tidy false
        · exact (tidies_stepRaw content c).emitting _

/-- A character keeps names tidy. -/
theorem tidy_step (h : state.Tidy P seen) (c : Char) : Tidies P (seen ++ [c]) (state.step c) := by
  cases state with
  | data => exact tidies_stepData c
  | raw content => exact tidies_stepRaw content c
  | rawLess content => exact tidies_stepRawLess content c
  | rawEndOpen content => exact tidies_stepRawEndOpen content c
  | rawEndName content letters => exact tidies_stepRawEndName known content h c
  | reference target ref => exact tidies_stepReference h c
  | tagOpen => exact tidies_stepTagOpen c
  | endTagOpen => exact tidies_stepEndTagOpen c
  | tagName tag => exact tidies_stepTagName known h.1 h.2 c
  | beforeName tag => exact tidies_stepBeforeName h c
  | attributeName tag name => exact tidies_stepAttributeName known h.1 h.2 c
  | afterName tag name => exact tidies_stepAfterName h.1 h.2 c
  | beforeValue tag name => exact tidies_stepBeforeValue h.1 h.2 c
  | value tag name quote v => exact tidies_stepValue h.1 h.2 quote v c
  | afterValue tag => exact tidies_stepBeforeName h c
  | selfClosing tag =>
    show Tidies P _ (stepSelfClosing tag c)
    unfold stepSelfClosing
    split
    · exact tidies_closeTag h true
    · exact tidies_stepBeforeName h c
  | declaration word => exact tidies_stepDeclaration word c
  | comment phase data => exact tidies_stepComment phase data c
  | bogusComment data => exact tidies_stepBogusComment data c
  | doctype phase word => exact tidies_stepDoctype phase word c

end Steps

theorem named_after (h : state.Named) (text : Text) : (state.after text).Named := by
  induction text generalizing state with
  | nil => exact h
  | cons c text ih => exact ih (named_step h c).1

theorem run_eq (state : State) (text : Text) :
    state.run text = state.emitted text ++ (state.after text).finish := by
  have whole := state.run_append text []
  rw [List.append_nil] at whole
  exact whole

/-- What holds of every stretch of a text holds of every name that is read there. -/
theorem tidy_after {text : Text} (known : ∀ name, name <:+: inNames (seen ++ text) → P name)
    (h : state.Tidy P seen) : (state.after text).Tidy P (seen ++ text) ∧
      ∀ token ∈ state.emitted text, ∀ name ∈ token.names, P name := by
  induction text generalizing seen state with
  | nil =>
    rw [List.append_nil]
    exact ⟨h, fun token member => absurd member List.not_mem_nil⟩
  | cons c text ih =>
    have whole : seen ++ c :: text = seen ++ [c] ++ text := by simp
    rw [whole] at known ⊢
    have first := tidy_step (fun name inside => known name
      (inside.trans (by rw [List.append_assoc, inNames, inNames, List.map_append]
                        exact (List.prefix_append _ _).isInfix))) h c
    obtain ⟨later, tokens⟩ := ih known first.state
    refine ⟨later, fun token member => ?_⟩
    rcases List.mem_append.mp member with member | member
    · exact first.tokens token member
    · exact tokens token member

end State

end HtmlTemplate

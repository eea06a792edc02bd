import HtmlTemplate.Markup.Event
import HtmlTemplate.Proofs.Markup.Follow

/-!
# Complete values do not matter

The tokenizer never looks at the value of a complete attribute. So two readings that start alike but
for such values tell of the same tokens but for such values (`mapValues_run`), and of the same
events (`Event.mapValues_ofTokens`). How far values may differ is told by a function that does away
with the difference.
-/

namespace HtmlTemplate

variable {f : Text → Text}

/-- The attribute with its value changed. -/
def Attribute.mapValue (f : Text → Text) (a : Attribute) : Attribute :=
  { a with value := f a.value }

/-- The token with the values of its attributes changed. -/
def Token.mapValues (f : Text → Text) : Token → Token
  | .startTag name attributes selfClosing =>
    .startTag name (attributes.map (Attribute.mapValue f)) selfClosing
  | token => token

/-- The event with the values of its attributes changed. -/
def Event.mapValues (f : Text → Text) : Event → Event
  | .openTag name attributes => .openTag name (attributes.map (Attribute.mapValue f))
  | event => event

/-! ## Tags -/

/-- Tags that are the same but for the values of their attributes. -/
structure Tag.Alike (f : Text → Text) (tag tag' : Tag) : Prop where
  closing : tag.closing = tag'.closing
  name : tag.name = tag'.name
  attributes : tag.attributes.map (Attribute.mapValue f) =
    tag'.attributes.map (Attribute.mapValue f)

theorem Attribute.map_insert {a a' : Attribute} {l l' : List Attribute}
    (same : a.mapValue f = a'.mapValue f) (h : l.map (mapValue f) = l'.map (mapValue f)) :
    (a.insert l).map (mapValue f) = (a'.insert l').map (mapValue f) := by
  have names : ∀ {a a' : Attribute}, a.mapValue f = a'.mapValue f → a.name = a'.name := by
    intro a a' same
    have name := congrArg Attribute.name same
    exact name
  induction l generalizing l' with
  | nil =>
    rw [List.map_eq_nil_iff.mp h.symm]
    exact congrArg (fun a => [a]) same
  | cons b rest ih =>
    cases l' with
    | nil => cases h
    | cons b' rest' =>
      obtain ⟨first, later⟩ := List.cons.inj h
      rw [insert, insert, ← names first, ← names same]
      split
      · exact h
      · split
        · exact congrArg₂ List.cons same h
        · rw [List.map_cons, List.map_cons, first, ih later]

namespace Tag.Alike

variable {tag tag' : Tag}

theorem refl (tag : Tag) : Tag.Alike f tag tag := ⟨rfl, rfl, rfl⟩

theorem withAttribute (h : Tag.Alike f tag tag') (name : Text) {v v' : Text} (same : f v = f v') :
    Tag.Alike f (tag.withAttribute name v) (tag'.withAttribute name v') :=
  ⟨h.closing, h.name, Attribute.map_insert (congrArg (Attribute.mk name) same) h.attributes⟩

theorem withName (h : Tag.Alike f tag tag') (name : Text) :
    Tag.Alike f { tag with name := name } { tag' with name := name } :=
  ⟨h.closing, rfl, h.attributes⟩

theorem token (h : Tag.Alike f tag tag') (selfClosing : Bool) :
    (tag.token selfClosing).mapValues f = (tag'.token selfClosing).mapValues f := by
  unfold Tag.token
  rw [h.closing, h.name]
  split
  · rfl
  · simp only [Token.mapValues, h.attributes]

end Tag.Alike

/-! ## Steps -/

namespace State

/-- States that are the same but for the values of complete attributes. -/
inductive Alike (f : Text → Text) : State → State → Prop
  | same (state : State) : Alike f state state
  | reference {tag tag' : Tag} {name v : Text} {quote : Quote} {ref : Reference} :
      Tag.Alike f tag tag' → Alike f (.reference (.value tag name quote v) ref)
        (.reference (.value tag' name quote v) ref)
  | tagName {tag tag' : Tag} : Tag.Alike f tag tag' → Alike f (.tagName tag) (.tagName tag')
  | beforeName {tag tag' : Tag} : Tag.Alike f tag tag' →
      Alike f (.beforeName tag) (.beforeName tag')
  | attributeName {tag tag' : Tag} {name : Text} : Tag.Alike f tag tag' →
      Alike f (.attributeName tag name) (.attributeName tag' name)
  | afterName {tag tag' : Tag} {name : Text} : Tag.Alike f tag tag' →
      Alike f (.afterName tag name) (.afterName tag' name)
  | beforeValue {tag tag' : Tag} {name : Text} : Tag.Alike f tag tag' →
      Alike f (.beforeValue tag name) (.beforeValue tag' name)
  | value {tag tag' : Tag} {name v : Text} {quote : Quote} : Tag.Alike f tag tag' →
      Alike f (.value tag name quote v) (.value tag' name quote v)
  | afterValue {tag tag' : Tag} : Tag.Alike f tag tag' →
      Alike f (.afterValue tag) (.afterValue tag')
  | selfClosing {tag tag' : Tag} : Tag.Alike f tag tag' →
      Alike f (.selfClosing tag) (.selfClosing tag')

/-- Steps that are the same but for the values of complete attributes. -/
structure AlikeStep (f : Text → Text) (next next' : State × List Token) : Prop where
  state : Alike f next.1 next'.1
  tokens : next.2.map (Token.mapValues f) = next'.2.map (Token.mapValues f)

theorem AlikeStep.silent {state state' : State} (h : Alike f state state') :
    AlikeStep f (state, []) (state', []) := ⟨h, rfl⟩

variable {tag tag' : Tag}

theorem alike_closeTag (h : Tag.Alike f tag tag') (closesItself : Bool) :
    AlikeStep f (closeTag tag closesItself) (closeTag tag' closesItself) := by
  refine ⟨?_, congrArg (fun token => [token]) (h.token closesItself)⟩
  show Alike f (afterTag tag closesItself) (afterTag tag' closesItself)
  rw [afterTag, afterTag, h.closing, h.name]
  exact .same _

theorem alike_stepTagName (h : Tag.Alike f tag tag') (c : Char) :
    AlikeStep f (stepTagName tag c) (stepTagName tag' c) := by
  unfold stepTagName
  split
  · exact .silent (.beforeName h)
  · split
    · exact .silent (.selfClosing h)
    · split
      · exact alike_closeTag h false
      · rw [h.name]
        exact .silent (.tagName (h.withName _))

theorem alike_stepBeforeName (h : Tag.Alike f tag tag') (c : Char) :
    AlikeStep f (stepBeforeName tag c) (stepBeforeName tag' c) := by
  unfold stepBeforeName
  split
  · exact .silent (.beforeName h)
  · split
    · exact .silent (.selfClosing h)
    · split
      · exact alike_closeTag h false
      · exact .silent (.attributeName h)

theorem alike_stepAttributeName (h : Tag.Alike f tag tag') (name : Text) (c : Char) :
    AlikeStep f (stepAttributeName tag name c) (stepAttributeName tag' name c) := by
  have more := h.withAttribute name (v := []) rfl
  unfold stepAttributeName
  split
  · exact .silent (.afterName h)
  · split
    · exact .silent (.selfClosing more)
    · split
      · exact alike_closeTag more false
      · split
        · exact .silent (.beforeValue h)
        · exact .silent (.attributeName h)

theorem alike_stepAfterName (h : Tag.Alike f tag tag') (name : Text) (c : Char) :
    AlikeStep f (stepAfterName tag name c) (stepAfterName tag' name c) := by
  have more := h.withAttribute name (v := []) rfl
  unfold stepAfterName
  split
  · exact .silent (.afterName h)
  · split
    · exact .silent (.selfClosing more)
    · split
      · exact alike_closeTag more false
      · split
        · exact .silent (.beforeValue h)
        · exact .silent (.attributeName more)

theorem alike_leaveValue (h : Tag.Alike f tag tag') (quote : Quote) (c : Char) :
    AlikeStep f (leaveValue tag quote c) (leaveValue tag' quote c) := by
  unfold leaveValue
  split
  · split
    · exact alike_closeTag h false
    · exact .silent (.beforeName h)
  · exact .silent (.afterValue h)

theorem alike_stepValue (h : Tag.Alike f tag tag') (name : Text) (quote : Quote) (v : Text)
    (c : Char) : AlikeStep f (stepValue tag name quote v c) (stepValue tag' name quote v c) := by
  by_cases ampersand : c = '&'
  · subst ampersand
    exact .silent (.reference h)
  · rw [stepValue_eq tag name quote v ampersand, stepValue_eq tag' name quote v ampersand]
    split
    · exact alike_leaveValue (h.withAttribute name rfl) quote c
    · exact .silent (.value h)

theorem alike_stepBeforeValue (h : Tag.Alike f tag tag') (name : Text) (c : Char) :
    AlikeStep f (stepBeforeValue tag name c) (stepBeforeValue tag' name c) := by
  unfold stepBeforeValue
  split
  · exact .silent (.beforeValue h)
  · split
    · exact .silent (.value h)
    · split
      · exact .silent (.value h)
      · split
        · exact alike_closeTag (h.withAttribute name rfl) false
        · exact alike_stepValue h name .none [] c

theorem alike_stepSelfClosing (h : Tag.Alike f tag tag') (c : Char) :
    AlikeStep f (stepSelfClosing tag c) (stepSelfClosing tag' c) := by
  unfold stepSelfClosing
  split
  · exact alike_closeTag h true
  · exact alike_stepBeforeName h c

theorem alike_stepReference (h : Tag.Alike f tag tag') (name v : Text) (quote : Quote)
    (ref : Reference) (c : Char) :
    AlikeStep f (stepReference (.value tag name quote v) ref c)
      (stepReference (.value tag' name quote v) ref c) := by
  unfold stepReference
  simp only [ReferenceTarget.inAttribute]
  cases ref.step true c with
  | more ref => exact .silent (.reference h)
  | done text => exact .silent (.value h)
  | before text => exact alike_stepValue h name quote (v ++ text) c

theorem alike_step {state state' : State} (h : Alike f state state') (c : Char) :
    AlikeStep f (state.step c) (state'.step c) := by
  cases h with
  | same state => exact ⟨.same _, rfl⟩
  | reference h => exact alike_stepReference h _ _ _ _ c
  | tagName h => exact alike_stepTagName h c
  | beforeName h => exact alike_stepBeforeName h c
  | attributeName h => exact alike_stepAttributeName h _ c
  | afterName h => exact alike_stepAfterName h _ c
  | beforeValue h => exact alike_stepBeforeValue h _ c
  | value h => exact alike_stepValue h _ _ _ c
  | afterValue h => exact alike_stepBeforeName h c
  | selfClosing h => exact alike_stepSelfClosing h c

/-- Readings that start alike tell of the same tokens, but for the values of attributes. -/
theorem mapValues_run {state state' : State} (h : Alike f state state') (s : Text) :
    (state.run s).map (Token.mapValues f) = (state'.run s).map (Token.mapValues f) := by
  induction s generalizing state state' with
  | nil => cases h <;> rfl
  | cons c s ih =>
    have next := alike_step h c
    rw [run, run, List.map_append, List.map_append, next.tokens, ih next.state]

end State

/-! ## Events -/

theorem Event.mapValues_ofMark (token : Token) :
    Event.ofMark (token.mapValues f) = (Event.ofMark token).map (Event.mapValues f) := by
  cases token with
  | startTag name attributes selfClosing => cases selfClosing <;> rfl
  | comment data =>
    show Event.ofComment data = (Event.ofComment data).map (Event.mapValues f)
    unfold Event.ofComment
    split
    · rfl
    · rfl
    · split <;> rfl
  | _ => rfl

theorem Event.ofTokens_character (c : Char) (tokens : List Token) :
    ∃ s events, Event.ofTokens (.character c :: tokens) = .text s :: events := by
  cases tokens with
  | nil => exact ⟨_, _, rfl⟩
  | cons token rest =>
    cases token with
    | character d =>
      rw [Event.ofTokens]
      split <;> exact ⟨_, _, rfl⟩
    | _ => exact ⟨_, _, rfl⟩

theorem Event.mapValues_ofTokens (tokens : List Token) :
    Event.ofTokens (tokens.map (Token.mapValues f)) =
      (Event.ofTokens tokens).map (Event.mapValues f) := by
  induction tokens using Event.ofTokens.induct with
  | case1 => rfl
  | case2 c d rest s events found ih =>
    have later : Event.ofTokens (.character d :: rest.map (Token.mapValues f)) =
        .text s :: events.map (Event.mapValues f) := by
      rw [found] at ih
      exact ih
    show Event.ofTokens (.character c :: .character d :: rest.map (Token.mapValues f)) = _
    rw [Event.ofTokens, Event.ofTokens, found, later]
    rfl
  | case3 c d rest none _ =>
    obtain ⟨s, events, found⟩ := Event.ofTokens_character d rest
    exact absurd found (none s events)
  | case4 token rest other ih =>
    have cut : Event.ofTokens (token :: rest) = Event.ofMark token ++ Event.ofTokens rest := by
      rw [Event.ofTokens]
      exact other
    rw [List.map_cons, cut, List.map_append, ← Event.mapValues_ofMark, ← ih, Event.ofTokens]
    intro c d others first second
    have isCharacter : token = .character c := by
      cases token <;> first | exact first | cases first
    cases rest with
    | nil => cases second
    | cons next rest =>
      have isCharacter' : next = .character d := by
        have same := (List.cons.inj second).1
        cases next <;> first | exact same | cases same
      exact other c d rest isCharacter (by rw [isCharacter'])

end HtmlTemplate

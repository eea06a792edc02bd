import HtmlTemplate.Proofs.Markup.Recited
import HtmlTemplate.Proofs.Template.Page

/-!
# Markup that is written again

How a template writes what the tokenizer tells of (`Event.WrittenAs`): start tags with their
attributes in one form, the content of elements without tags between the tags of the element, text
with references for the characters that mean something, and no end tags for elements without
content. Whatever is read without comments can be written like this (`Event.exists_writtenAs`), with
names and texts that the tokenizer takes for themselves again.
-/

namespace HtmlTemplate

open State (null)

/-! ## Constructs -/

/-- A tag as the tokenizer tells of it. -/
structure Tag.Sound (tag : Tag) : Prop where
  named : tag.Named
  nullFree : tag.NullFree

/-- A start tag as it is written in a template. -/
def startTagText (name : Text) (attributes : List Attribute) : Text :=
  '<' :: name ++ attributes.flatMap Draft.literalAttribute ++ ['>']

/-- The characters of the name of a document type, as the tokenizer tells of it. -/
def DoctypeName (name : Text) : Prop :=
  ∀ c ∈ name, Text.isBlank c = false ∧ c ≠ '>' ∧ State.keptInName c = c

/-- A document type as it is written in a template. -/
def doctypeText (name : Text) : Text := "<!DOCTYPE ".toList ++ name ++ ['>']

namespace Event

/-- Events that begin and end in ordinary text, other than text, and how they are written. -/
inductive Construct : List Event → Text → Prop
  | startTag {name : Text} {attributes : List Attribute} : Tag.Sound ⟨false, name, attributes⟩ →
      State.content name = .data →
      Construct [openTag name attributes] (startTagText name attributes)
  | endTag {name : Text} : TagName name → Vocabulary.isVoid name = false →
      Construct [closeTag name] (endTagText name)
  | element {name t : Text} {attributes : List Attribute} : Tag.Sound ⟨false, name, attributes⟩ →
      State.content name ≠ .data → Rereads name t →
      Construct (openTag name attributes :: (ofText t ++ [closeTag name]))
        (startTagText name attributes ++ (contentText name t ++ endTagText name))
  | doctype {name : Text} : DoctypeName name → Construct [.doctype name] (doctypeText name)

/-- Events and how they are written in a template. -/
inductive WrittenAs : List Event → Text → Prop
  | nil : WrittenAs [] []
  | text {events : List Event} {markup : Text} (c : Char) (u : Text) : WrittenAs events markup →
      WrittenAs (.text (c :: u) :: events) (Text.escapeText (c :: u) ++ markup)
  | nothing {events : List Event} {markup name : Text} : Vocabulary.isVoid name = true →
      WrittenAs events markup → WrittenAs (closeTag name :: events) markup
  | construct {first events : List Event} {written markup : Text} : Construct first written →
      WrittenAs events markup → WrittenAs (first ++ events) (written ++ markup)
  /-- The input ends in the content of an element without tags. -/
  | cut {name t : Text} {attributes : List Attribute} : Tag.Sound ⟨false, name, attributes⟩ →
      State.content name ≠ .data → RereadsCut name t →
      WrittenAs (openTag name attributes :: ofText t)
        (startTagText name attributes ++ contentText name t)

section

variable {events : List Event} {tokens : List Token} {markup name t : Text}
  {attributes : List Attribute}

theorem WrittenAs.joinCharacter (h : WrittenAs events markup) (c : Char) :
    WrittenAs (joinCharacter c events) (Text.escapeTextChar c ++ markup) := by
  have apart : (∀ u rest, events ≠ .text u :: rest) →
      WrittenAs (Event.joinCharacter c events) (Text.escapeTextChar c ++ markup) := by
    intro other
    have alone : Event.joinCharacter c events = .text [c] :: events := by
      unfold Event.joinCharacter
      split
      · exact absurd rfl (other _ _)
      · rfl
    have whole := WrittenAs.text c [] h
    rw [Text.escapeText_cons, show Text.escapeText [] = [] from rfl, List.append_nil] at whole
    rw [alone]
    exact whole
  cases h with
  | text d u later =>
    have whole := WrittenAs.text c (d :: u) later
    rw [Text.escapeText_cons, List.append_assoc] at whole
    exact whole
  | construct first later =>
    refine apart ?_
    cases first <;> exact fun _ _ => nofun
  | nil => exact apart fun _ _ => nofun
  | nothing _ _ => exact apart fun _ _ => nofun
  | cut _ _ _ => exact apart fun _ _ => nofun

/-- Text is written before whatever follows it. -/
theorem exists_writtenAs_characters (h : ∃ markup, WrittenAs (ofTokens tokens) markup) (u : Text) :
    ∃ markup, WrittenAs (ofTokens (Token.characters u ++ tokens)) markup := by
  induction u with
  | nil => exact h
  | cons c u ih =>
    obtain ⟨markup, written⟩ := ih
    refine ⟨Text.escapeTextChar c ++ markup, ?_⟩
    show WrittenAs (ofTokens (.character c :: (Token.characters u ++ tokens))) _
    rw [ofTokens_joinCharacter]
    exact written.joinCharacter c

theorem exists_writtenAs_endTag (h : ∃ markup, WrittenAs (ofTokens tokens) markup)
    (known : TagName name) : ∃ markup, WrittenAs (ofTokens (.endTag name :: tokens)) markup := by
  obtain ⟨markup, written⟩ := h
  rw [ofTokens_cons fun c same => by cases same]
  by_cases void : Vocabulary.isVoid name = true
  · exact ⟨markup, .nothing void written⟩
  · exact ⟨_, .construct (.endTag known (Bool.eq_false_iff.mpr void)) written⟩

theorem exists_writtenAs_startTag (h : ∃ markup, WrittenAs (ofTokens tokens) markup)
    (sound : Tag.Sound ⟨false, name, attributes⟩) (content : State.content name = .data) :
    ∃ markup, WrittenAs (ofTokens (.startTag name attributes false :: tokens)) markup := by
  obtain ⟨markup, written⟩ := h
  rw [ofTokens_cons fun c same => by cases same]
  exact ⟨_, .construct (.startTag sound content) written⟩

/-- The content of an element without tags ends. -/
theorem exists_writtenAs_element (h : ∃ markup, WrittenAs (ofTokens tokens) markup)
    (sound : Tag.Sound ⟨false, name, attributes⟩) (content : State.content name ≠ .data)
    (rereads : Rereads name t) : ∃ markup, WrittenAs (openTag name attributes ::
      ofTokens (Token.characters t ++ .endTag name :: tokens)) markup := by
  obtain ⟨markup, written⟩ := h
  have whole := WrittenAs.construct (.element sound content rereads) written
  rw [ofTokens_characters_append t (by simp), ofTokens_cons fun c same => by cases same]
  simp only [List.cons_append, List.append_assoc, List.nil_append] at whole
  exact ⟨_, whole⟩

/-- The content of an element without tags is cut off. -/
theorem exists_writtenAs_cut (sound : Tag.Sound ⟨false, name, attributes⟩)
    (content : State.content name ≠ .data) (rereads : RereadsCut name t) : ∃ markup,
      WrittenAs (openTag name attributes :: ofTokens (Token.characters t)) markup := by
  have same : ofTokens (Token.characters t ++ []) = ofText t ++ ofTokens [] :=
    ofTokens_characters_append t (by simp)
  rw [ofTokens, List.append_nil, List.append_nil] at same
  rw [same]
  exact ⟨_, .cut sound content rereads⟩

theorem exists_writtenAs_selfClosing (h : ∃ markup, WrittenAs (ofTokens tokens) markup)
    (sound : Tag.Sound ⟨false, name, attributes⟩) :
    ∃ markup, WrittenAs (ofTokens (.startTag name attributes true :: tokens)) markup := by
  have closed := exists_writtenAs_endTag h sound.named.name
  have opens : ofTokens (.startTag name attributes true :: tokens) =
      openTag name attributes :: closeTag name :: ofTokens tokens :=
    ofTokens_cons (fun c same => by cases same) tokens
  have closes : ofTokens (.endTag name :: tokens) = closeTag name :: ofTokens tokens :=
    ofTokens_cons (fun c same => by cases same) tokens
  rw [opens, ← closes]
  by_cases content : State.content name = .data
  · obtain ⟨markup, written⟩ := closed
    exact ⟨_, .construct (.startTag sound content) written⟩
  · exact exists_writtenAs_element (t := []) h sound content (rereads_nil content)

end

end Event

/-! ## Reading -/

namespace State

variable {state : State} {tag : Tag} {c : Char} {name t : Text} {attributes : List Attribute}

theorem doctypeName_append (h : DoctypeName name) (solid : Text.isBlank c = false)
    (notGreater : c ≠ '>') : DoctypeName (name ++ [keptInName c]) := by
  intro d member
  rcases List.mem_append.mp member with before | last
  · exact h d before
  · rw [List.mem_singleton.mp last]
    by_cases slash : c = '/'
    · subst slash
      decide
    · have kept := NameCharacter.of_kept solid slash notGreater
      exact ⟨kept.solid, kept.notGreater, kept.same⟩

/-- Outside the content of elements without tags. -/
inductive Outer : State → Prop
  | text {state : State} : state.IsText → Outer state
  | tag {state : State} {tag : Tag} : InTag state tag → Outer state
  | remark {state : State} {u : Text} : Remark state u → Outer state
  | doctype {name : Text} (phase : DoctypePhase) : DoctypeName name →
      (phase = .before → name = []) → Outer (.doctype phase name)

/-- In the content of an element without tags that is `t` so far, or in the end tag after this
content. -/
inductive Inner (element t : Text) : State → Prop
  | within {held : Text} {state : State} : Within element t held state → Inner element t state
  | ending {state : State} {tag : Tag} : state.tag? = some tag → tag.closing = true →
      ¬ state.InTagName → tag.name = element → Rereads element t → Inner element t state

/-- What a character of a document type does: it goes on or ends. -/
theorem step_doctype_name {phase : DoctypePhase} (known : DoctypeName name)
    (empty : phase = .before → name = []) (c : Char) :
    (∃ next, step (.doctype phase name) c = (next, []) ∧ Outer next) ∨
      step (.doctype phase name) c = (.data, [.doctype name]) := by
  show (∃ next, stepDoctype phase name c = (next, []) ∧ Outer next) ∨
    stepDoctype phase name c = (.data, [.doctype name])
  unfold stepDoctype
  split
  · exact .inr rfl
  · rename_i other
    cases phase with
    | before =>
      have none := empty rfl
      subst none
      simp only
      split
      · exact .inl ⟨_, rfl, .doctype .before known fun _ => rfl⟩
      · rename_i solid
        exact .inl ⟨_, rfl, .doctype .name
          (doctypeName_append known (Bool.eq_false_iff.mpr solid) other) fun same => by cases same⟩
    | name =>
      simp only
      split
      · exact .inl ⟨_, rfl, .doctype .after known fun same => by cases same⟩
      · rename_i solid
        exact .inl ⟨_, rfl, .doctype .name
          (doctypeName_append known (Bool.eq_false_iff.mpr solid) other) fun same => by cases same⟩
    | after => exact .inl ⟨_, rfl, .doctype .after known fun same => by cases same⟩

/-- What is told of outside the content of elements without tags can be written. -/
def Writable (state : State) (s : Text) : Prop :=
  ∃ markup, Event.WrittenAs (Event.ofTokens (state.run s)) markup

/-- What is told of in the content of an element can be written with its start tag and the content
so far. -/
def WritableIn (name : Text) (attributes : List Attribute) (t : Text) (state : State) (s : Text) :
    Prop :=
  ∃ markup, Event.WrittenAs (.openTag name attributes ::
    Event.ofTokens (Token.characters t ++ state.run s)) markup

/-- Whatever is told of from these states on can be written. -/
structure AllWritable (s : Text) : Prop where
  outer {state : State} : state.Outer → state.Named →
    (∀ data, .comment data ∉ state.run s) → state.Writable s
  inner {state : State} {name t : Text} {attributes : List Attribute} :
    Tag.Sound ⟨false, name, attributes⟩ → content name ≠ .data → Inner name t state →
    (∀ data, .comment data ∉ state.run s) → state.WritableIn name attributes t s

/-! ### The end of the input -/

theorem Remark.finish {u : Text} (h : Remark state u) : ∃ data, state.finish = [.comment data] := by
  cases h <;> exact ⟨_, rfl⟩

theorem IsText.finish (h : state.IsText) : ∃ u, state.finish = Token.characters u := by
  cases state with
  | data => exact ⟨[], rfl⟩
  | tagOpen => exact ⟨['<'], rfl⟩
  | endTagOpen => exact ⟨['<', '/'], rfl⟩
  | reference target ref =>
    cases target with
    | data => exact ⟨_, rfl⟩
    | _ => exact h.elim
  | _ => exact h.elim

theorem tag?_finish (h : state.tag? = some tag) : state.finish = [] := by
  rcases tag?_cases h with outside | ⟨name, quote, v, position, rfl⟩
  · cases outside <;> rfl
  · exact finish_inValue _ _ _ _ _

theorem allWritable_nil : AllWritable [] := by
  have nothing : ∃ markup, Event.WrittenAs (Event.ofTokens []) markup := ⟨[], .nil⟩
  constructor
  · intro state place _ none
    unfold Writable
    rw [run] at none ⊢
    cases place with
    | text isText =>
      obtain ⟨u, same⟩ := isText.finish
      have whole := Event.exists_writtenAs_characters nothing u
      rw [same]
      rw [List.append_nil] at whole
      exact whole
    | tag inTag =>
      rw [inTag.finish]
      exact nothing
    | remark remark =>
      obtain ⟨data, same⟩ := remark.finish
      exact absurd (by rw [same]; exact List.mem_cons_self) (none data)
    | doctype phase known empty =>
      exact ⟨_, .construct (.doctype known) .nil⟩
  · intro state name t attributes sound content place none
    unfold WritableIn
    rw [run]
    cases place with
    | within within =>
      obtain ⟨u, same, rereads⟩ := within.finish
      rw [same, Token.characters, Token.characters, ← List.map_append]
      exact Event.exists_writtenAs_cut sound content rereads
    | ending inTag _ _ _ rereads =>
      rw [tag?_finish inTag, List.append_nil]
      exact Event.exists_writtenAs_cut sound content rereads.cut

/-! ### One character -/

section Step

variable {s : Text} {next : State × List Token}

/-- Where a tag ends, what follows it can be written. -/
theorem writable_closeTag (all : AllWritable s) (known : TagName tag.name)
    (sound : tag.closing = false → tag.Sound) (closesItself : Bool)
    (none : ∀ data, .comment data ∉
      (closeTag tag closesItself).2 ++ (closeTag tag closesItself).1.run s) :
    ∃ markup, Event.WrittenAs (Event.ofTokens
      ((closeTag tag closesItself).2 ++ (closeTag tag closesItself).1.run s)) markup := by
  have later : ∀ data, .comment data ∉ (closeTag tag closesItself).1.run s := fun data member =>
    none data (List.mem_append_right _ member)
  have isText : Outer .data := .text trivial
  obtain ⟨closing, name, attributes⟩ := tag
  cases closing with
  | true => exact Event.exists_writtenAs_endTag (all.outer isText trivial later) known
  | false =>
    cases closesItself with
    | true => exact Event.exists_writtenAs_selfClosing (all.outer isText trivial later) (sound rfl)
    | false =>
      by_cases plain : content name = .data
      · have same : closeTag ⟨false, name, attributes⟩ false =
            (.data, [.startTag name attributes false]) := by
          rw [closeTag,
            show afterTag ⟨false, name, attributes⟩ false = content name from rfl, plain]
          rfl
        rw [same] at later ⊢
        exact Event.exists_writtenAs_startTag (all.outer isText trivial later) (sound rfl) plain
      · have inside := all.inner (sound rfl) plain (.within (within_content name plain)) later
        unfold WritableIn at inside
        show ∃ markup, Event.WrittenAs (Event.ofTokens
          (.startTag name attributes false :: (content name).run s)) markup
        rw [Event.ofTokens_cons fun c same => by cases same]
        exact inside

theorem allWritable_cons (all : AllWritable s) (other : c ≠ '\r') : AllWritable (c :: s) := by
  have told : ∀ {state : State}, state.run (c :: s) = (state.step c).2 ++ (state.step c).1.run s :=
    fun {state} => rfl
  constructor
  · intro state place named none
    unfold Writable
    obtain ⟨named', tokens⟩ := named_step named c
    rw [told] at none ⊢
    have later : ∀ data, .comment data ∉ (state.step c).1.run s := fun data member =>
      none data (List.mem_append_right _ member)
    have goes : (state.step c).1.Outer → (state.step c).1.Writable s := fun outer =>
      all.outer outer named' later
    cases place with
    | text isText =>
      have move := step_text isText c
      generalize state.step c = next at move none goes
      cases move with
      | text isText _ => exact Event.exists_writtenAs_characters (goes (.text isText)) _
      | declaration => exact goes (.remark (.declaration []))
      | bogus => exact goes (.remark (.bogus _))
      | startTag name => exact goes (.tag (.outside (.tagName _) fun _ => nofun))
      | endTag name _ => exact goes (.tag (.outside (.tagName _) fun _ => nofun))
    | @tag _ tag inTag =>
      have move := step_inTag inTag c
      generalize state.step c = next at move none goes tokens
      cases move with
      | on inTag' _ _ _ => exact goes (.tag inTag')
      | @closes tag' closesItself free closing name =>
        refine writable_closeTag all (name ▸ (inTag.named named).name) (fun opening => ?_)
          closesItself none
        have token := tokens _ List.mem_cons_self
        obtain ⟨closing', name', attributes'⟩ := tag'
        cases opening
        exact ⟨token, free⟩
    | remark remark =>
      have move := step_remark remark c
      generalize state.step c = next at move none goes
      cases move with
      | on remark' => exact goes (.remark remark')
      | comment => exact goes (.remark (.comment .start []))
      | doctype => exact goes (.doctype .before (fun _ => nofun) fun _ => rfl)
      | closes _ _ => exact absurd List.mem_cons_self (none _)
    | @doctype name phase known empty =>
      rcases step_doctype_name known empty c with ⟨next, same, outer⟩ | same
      · rw [same] at none goes ⊢
        exact goes outer
      · rw [same] at none goes ⊢
        obtain ⟨markup, written⟩ := goes (.text trivial)
        show ∃ markup, Event.WrittenAs (Event.ofTokens (.doctype name :: State.data.run s)) markup
        rw [Event.ofTokens_cons fun c same => by cases same]
        exact ⟨_, .construct (.doctype known) written⟩
  · intro state name t attributes sound content place none
    unfold WritableIn
    rw [told] at none ⊢
    have later : ∀ data, .comment data ∉ (state.step c).1.run s := fun data member =>
      none data (List.mem_append_right _ member)
    have ends : ∀ {next : State × List Token}, Rereads name t → Ending name next →
        (∀ data, .comment data ∉ next.1.run s) →
        ∃ markup, Event.WrittenAs (.openTag name attributes ::
          Event.ofTokens (Token.characters t ++ (next.2 ++ next.1.run s))) markup := by
      intro next rereads ending later
      cases ending with
      | attributes => exact all.inner sound content (.ending rfl rfl False.elim rfl rereads) later
      | slash => exact all.inner sound content (.ending rfl rfl False.elim rfl rereads) later
      | closes =>
        exact Event.exists_writtenAs_element (all.outer (.text trivial) trivial later) sound content
          rereads
    -- The start tag waits for its content: how it is written depends on whether an end tag follows.
    cases place with
    | within within =>
      have move := within.step other
      generalize state.step c = next at move later
      cases move with
      | @on u held next goes =>
        have inside := all.inner sound content (.within goes) later
        unfold WritableIn at inside
        rw [Token.characters, List.map_append, List.append_assoc] at inside
        exact inside
      | ends rereads ending => exact ends rereads ending later
    | @ending _ tag inTag closing notName same rereads =>
      subst same
      have move := step_endTag inTag closing c
      generalize state.step c = next at move later
      cases move with
      | on inTag' closing' named' keeps =>
        exact all.inner sound content (.ending inTag' closing' (fun named => notName (named' named))
          (keeps.resolve_left notName) rereads) later
      | closes _ => exact ends rereads .closes later

end Step

/-- Whatever is read without carriage returns and tells of no comments can be written. -/
theorem allWritable (s : Text) (none : '\r' ∉ s) : AllWritable s := by
  induction s with
  | nil => exact allWritable_nil
  | cons c s ih =>
    rw [List.mem_cons, not_or] at none
    exact allWritable_cons (ih none.2) (Ne.symm none.1)

end State

/-- What is read of a text without comments can be written. -/
theorem Event.exists_writtenAs {input : Text} (none : ∀ data, .comment data ∉ Token.read input) :
    ∃ markup, WrittenAs (ofTokens (Token.read input)) markup :=
  (State.allWritable _ (return_not_mem_normalizeNewlines input)).outer (.text trivial) trivial none

end HtmlTemplate

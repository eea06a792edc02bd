import HtmlTemplate.Proofs.Markup.Flow
import HtmlTemplate.Proofs.Output.Escaped

/-!
# Shelter in scripts and styles

A text that is put into the content of a `script` or `style` element has its less-than signs
escaped, so it begins no tag by itself. It can still go on with what the literal text before it has
begun: the letters of an end tag, or a comment-like passage. `State.Sheltered` says that nothing of
the kind has begun. There the text changes no tag, however the content goes on
(`Event.tags_around`).
-/

namespace HtmlTemplate

/-! ## Tags -/

/-- Whether a token is a tag. -/
def Token.isTag : Token → Bool
  | startTag .. => true
  | endTag _ => true
  | _ => false

/-- The tags among tokens. -/
def Token.tags (tokens : List Token) : List Token := tokens.filter isTag

namespace Token

@[simp] theorem tags_append (tokens more : List Token) :
    tags (tokens ++ more) = tags tokens ++ tags more := List.filter_append tokens more

@[simp] theorem tags_characters (u : Text) : tags (characters u) = [] := by
  refine List.filter_eq_nil_iff.mpr fun token member => ?_
  obtain ⟨c, _, rfl⟩ := List.mem_map.mp member
  simp [isTag]

end Token

namespace Event

/-- Whether the event tells of a tag. -/
def isTag : Event → Bool
  | openTag .. => true
  | closeTag _ => true
  | _ => false

/-- The tags that a markup text is read as. -/
def tags (markup : Text) : List Event := (read markup).filter isTag

theorem filter_joinCharacter (c : Char) (events : List Event) :
    (joinCharacter c events).filter isTag = events.filter isTag := by
  unfold joinCharacter
  split <;> rfl

theorem filter_ofMark (token : Token) :
    (ofMark token).filter isTag = (Token.tags [token]).flatMap ofMark := by
  cases token with
  | startTag name attributes selfClosing => cases selfClosing <;> rfl
  | comment data =>
    show (ofComment data).filter isTag = []
    unfold ofComment
    split
    · rfl
    · rfl
    · split <;> rfl
  | _ => rfl

/-- The tags that are told of come from the tags that are read. -/
theorem filter_ofTokens (tokens : List Token) :
    (ofTokens tokens).filter isTag = (Token.tags tokens).flatMap ofMark := by
  induction tokens with
  | nil => rfl
  | cons token rest ih =>
    have split : Token.tags (token :: rest) = Token.tags [token] ++ Token.tags rest :=
      Token.tags_append [token] rest
    rw [split, List.flatMap_append, ← ih]
    by_cases character : ∃ c, token = .character c
    · obtain ⟨c, rfl⟩ := character
      rw [ofTokens_joinCharacter, filter_joinCharacter]
      rfl
    · have mark : ∀ c, token ≠ .character c := fun c same => character ⟨c, same⟩
      rw [ofTokens_cons mark, List.filter_append, filter_ofMark]

theorem tags_eq (markup : Text) :
    tags markup = (Token.tags (Token.read markup)).flatMap ofMark := by
  rw [tags, read, List.filter_append, filter_ofTokens]
  exact List.append_nil _

end Event

namespace Text

/-- Escaped text has no less-than signs. -/
theorem less_not_mem_escape (v : Text) : '<' ∉ escape v := by
  intro member
  obtain ⟨c, _, inside⟩ := List.mem_flatMap.mp member
  rcases escapeChar_cases c with ⟨same, _, other, _⟩ | rfl | rfl | rfl | rfl | rfl
  · rw [same] at inside
    exact other (List.mem_singleton.mp inside).symm
  all_goals exact absurd inside (by decide)

end Text

/-! ## Line ends -/

/-- Reading line ends brings in line feeds only. -/
theorem mem_of_mem_normalizeNewlines {text : Text} {c : Char} (h : c ∈ normalizeNewlines text)
    (other : c ≠ '\n') : c ∈ text := by
  induction text using normalizeNewlines.induct with
  | case1 text ih =>
    rw [normalizeNewlines] at h
    have later := (List.mem_cons.mp h).resolve_left other
    exact List.mem_cons_of_mem _ (List.mem_cons_of_mem _ (ih later))
  | case2 text none ih =>
    rw [normalizeNewlines_return none] at h
    exact List.mem_cons_of_mem _ (ih ((List.mem_cons.mp h).resolve_left other))
  | case3 d text _ notReturn ih =>
    rw [normalizeNewlines_cons notReturn] at h
    rcases List.mem_cons.mp h with rfl | later
    · exact List.mem_cons_self
    · exact List.mem_cons_of_mem _ (ih later)
  | case4 => cases h

/-- What follows a text adds to its lines, though its first line feed may be part of a line end. -/
theorem exists_normalizeNewlines_append (front rest : Text) : ∃ rest',
    normalizeNewlines (front ++ rest) = normalizeNewlines front ++ normalizeNewlines rest' ∧
      (rest' = rest ∨ rest = '\n' :: rest') := by
  cases rest with
  | nil => exact ⟨[], by simp [normalizeNewlines], .inl rfl⟩
  | cons c rest =>
    by_cases line : c = '\n'
    · subst line
      induction front using normalizeNewlines.induct with
      | case1 front ih =>
        obtain ⟨rest', same, kept⟩ := ih
        exact ⟨rest', by simp only [List.cons_append, normalizeNewlines, same], kept⟩
      | case2 front none ih =>
        cases front with
        | nil =>
          refine ⟨rest, ?_, .inr rfl⟩
          simp only [List.cons_append, List.nil_append, normalizeNewlines]
        | cons d front =>
          obtain ⟨rest', same, kept⟩ := ih
          have first : d ≠ '\n' := by
            rintro rfl
            exact none front rfl
          refine ⟨rest', ?_, kept⟩
          rw [List.cons_append, normalizeNewlines_return none, normalizeNewlines_return, same]
          · rfl
          · intro text same
            exact first (List.cons.inj same).1
      | case3 d front _ notReturn ih =>
        obtain ⟨rest', same, kept⟩ := ih
        refine ⟨rest', ?_, kept⟩
        rw [List.cons_append, normalizeNewlines_cons notReturn, normalizeNewlines_cons notReturn,
          same]
        rfl
      | case4 => exact ⟨_, rfl, .inl rfl⟩
    · exact ⟨c :: rest, normalizeNewlines_append front line rest, .inl rfl⟩

namespace State

/-! ## Sheltered places -/

/-- In the content of an element like `script`, where neither its end tag nor a comment-like passage
has begun. Letters after `</` are not those of the element. -/
inductive Sheltered (element : Text) : State → Prop
  | content : Sheltered element (raw (.script element .plain))
  | word {letters : Text} : ¬ Text.lower letters <+: element →
      Sheltered element (rawEndName (.script element .plain) letters)

variable {element : Text} {state : State}

theorem stepScriptPlain_less (element : Text) :
    stepScriptPlain element '<' = (rawLess (.script element .plain), []) := rfl

theorem stepScriptPlain_of_ne {c : Char} (other : c ≠ '<') :
    stepScriptPlain element c = (raw (.script element .plain), [.character (kept c)]) :=
  if_neg other

/-- A word that is not that of the element is text together with the character that ends it. -/
theorem stepRawEndName_of_ne (content : RawContent) {letters : Text}
    (other : Text.lower letters ≠ content.element) {c : Char} (ends : Text.isLetter c = false) :
    stepRawEndName content letters c =
      emitting (Token.characters ('<' :: '/' :: letters)) (stepRaw content c) := by
  simp only [stepRawEndName, ends, other, Bool.false_eq_true, false_and, if_false]

theorem ne_of_strange {letters : Text} (h : ¬ Text.lower letters <+: element) :
    Text.lower letters ≠ element := by
  intro same
  exact h (same ▸ List.prefix_refl _)

theorem step_strange {letters : Text} (strange : ¬ Text.lower letters <+: element) {c : Char}
    (ends : Text.isLetter c = false) : (rawEndName (.script element .plain) letters).step c =
      emitting (Token.characters ('<' :: '/' :: letters)) (stepScriptPlain element c) :=
  stepRawEndName_of_ne (.script element .plain) (ne_of_strange strange) ends

/-- Text without less-than signs stays sheltered. -/
theorem Sheltered.step (h : Sheltered element state) {c : Char} (other : c ≠ '<') :
    Sheltered element (state.step c).1 ∧ ∃ u, (state.step c).2 = Token.characters u := by
  cases h with
  | content =>
    have step : (raw (.script element .plain)).step c =
        (raw (.script element .plain), [.character (kept c)]) := stepScriptPlain_of_ne other
    rw [step]
    exact ⟨.content, [kept c], rfl⟩
  | @word letters strange =>
    cases letter : Text.isLetter c with
    | true =>
      have step : (rawEndName (.script element .plain) letters).step c =
          (rawEndName (.script element .plain) (letters ++ [c]), []) := if_pos letter
      rw [step]
      refine ⟨.word fun known => strange ?_, [], rfl⟩
      rw [Text.lower, List.map_append] at known
      exact (List.prefix_append _ _).trans known
    | false =>
      rw [step_strange strange letter, stepScriptPlain_of_ne other]
      refine ⟨.content, '<' :: '/' :: letters ++ [kept c], ?_⟩
      show _ ++ Token.characters [kept c] = _
      rw [Token.characters, Token.characters, Token.characters, List.map_append]

/-- At a less-than sign, all sheltered places go on alike. -/
theorem Sheltered.step_less (h : Sheltered element state) :
    ∃ u, state.step '<' = (rawLess (.script element .plain), Token.characters u) := by
  cases h with
  | content => exact ⟨[], rfl⟩
  | @word letters strange =>
    refine ⟨'<' :: '/' :: letters, ?_⟩
    rw [step_strange strange (by decide), stepScriptPlain_less, emitting, List.append_nil]

theorem Sheltered.after (h : Sheltered element state) {text : Text} (none : '<' ∉ text) :
    Sheltered element (state.after text) ∧ Token.tags (state.emitted text) = [] := by
  induction text generalizing state with
  | nil => exact ⟨h, rfl⟩
  | cons c text ih =>
    rw [List.mem_cons, not_or] at none
    obtain ⟨sheltered, u, told⟩ := h.step (Ne.symm none.1)
    obtain ⟨later, tags⟩ := ih sheltered none.2
    refine ⟨later, ?_⟩
    rw [emitted, told, Token.tags_append, Token.tags_characters, tags]
    rfl

theorem Sheltered.finish (h : Sheltered element state) : Token.tags state.finish = [] := by
  cases h with
  | content => rfl
  | word => exact Token.tags_characters _

/-- Of a text without less-than signs, nothing is left at the next one. -/
theorem Sheltered.tags_run (h : Sheltered element state) {text : Text} (none : '<' ∉ text)
    (rest : Text) : Token.tags (state.run (text ++ '<' :: rest)) =
      Token.tags ((rawLess (.script element .plain)).run rest) := by
  obtain ⟨sheltered, tags⟩ := h.after none
  obtain ⟨u, step⟩ := sheltered.step_less
  rw [run_append, run, step, Token.tags_append, tags, Token.tags_append, Token.tags_characters]
  rfl

theorem Sheltered.tags_run_of_not_mem (h : Sheltered element state) {text : Text}
    (none : '<' ∉ text) : Token.tags (state.run text) = [] := by
  obtain ⟨sheltered, tags⟩ := h.after none
  have whole := run_append state text []
  rw [List.append_nil] at whole
  rw [whole, Token.tags_append, tags]
  exact sheltered.finish

/-- What a value becomes changes no tag in a sheltered place. -/
theorem Sheltered.tags_run_escape (h : Sheltered element state) (v rest : Text) :
    Token.tags (state.run (Text.escape v ++ rest)) = Token.tags (state.run rest) := by
  have none := Text.less_not_mem_escape v
  by_cases less : '<' ∈ rest
  · obtain ⟨before, after, rfl, earlier⟩ := List.eq_append_cons_of_mem less
    have both : '<' ∉ Text.escape v ++ before := fun member =>
      (List.mem_append.mp member).elim none earlier
    rw [← List.append_assoc, h.tags_run both, h.tags_run earlier]
  · have both : '<' ∉ Text.escape v ++ rest := fun member =>
      (List.mem_append.mp member).elim none less
    rw [h.tags_run_of_not_mem both, h.tags_run_of_not_mem less]

end State

/-- The tags of markup that goes on in a sheltered place depend only on what comes from the next
less-than sign on. -/
theorem Token.tags_read_sheltered {element front text : Text}
    (sheltered : (State.data.after (normalizeNewlines front)).Sheltered element)
    (none : '<' ∉ text) (rest : Text) :
    Token.tags (Token.read (front ++ text)) =
        Token.tags (State.data.emitted (normalizeNewlines front)) ∧
      Token.tags (Token.read (front ++ (text ++ '<' :: rest))) =
        Token.tags (State.data.emitted (normalizeNewlines front)) ++
          Token.tags ((State.rawLess (.script element .plain)).run (normalizeNewlines rest)) := by
  obtain ⟨text', lines, same⟩ := exists_normalizeNewlines_append front text
  have none' : '<' ∉ normalizeNewlines text' := by
    intro member
    have inside := mem_of_mem_normalizeNewlines member (by decide)
    rcases same with rfl | rfl
    · exact none inside
    · exact none (List.mem_cons_of_mem _ inside)
  constructor
  · rw [Token.read, lines, State.run_append, Token.tags_append,
      sheltered.tags_run_of_not_mem none', List.append_nil]
  · rw [Token.read, ← List.append_assoc, normalizeNewlines_around (by decide) (by decide), lines,
      List.append_assoc, State.run_append, Token.tags_append, sheltered.tags_run none']

/-- In a sheltered place, texts without less-than signs can be put for each other: the tags stay. -/
theorem Event.tags_around {element front v w : Text}
    (sheltered : (State.data.after (normalizeNewlines front)).Sheltered element)
    (none : '<' ∉ v) (none' : '<' ∉ w) (rest : Text) :
    tags (front ++ (v ++ rest)) = tags (front ++ (w ++ rest)) := by
  rw [tags_eq, tags_eq]
  refine congrArg (List.flatMap ofMark) ?_
  by_cases less : '<' ∈ rest
  · obtain ⟨before, after, rfl, earlier⟩ := List.eq_append_cons_of_mem less
    have known : ∀ {u : Text}, '<' ∉ u → '<' ∉ u ++ before := fun h member =>
      (List.mem_append.mp member).elim h earlier
    rw [← List.append_assoc v, ← List.append_assoc w,
      (Token.tags_read_sheltered sheltered (known none) after).2,
      (Token.tags_read_sheltered sheltered (known none') after).2]
  · have known : ∀ {u : Text}, '<' ∉ u → '<' ∉ u ++ rest := fun h member =>
      (List.mem_append.mp member).elim h less
    rw [(Token.tags_read_sheltered sheltered (known none) []).1,
      (Token.tags_read_sheltered sheltered (known none') []).1]

end HtmlTemplate

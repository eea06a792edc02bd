import HtmlTemplate.Proofs.Markup.Nulls
import HtmlTemplate.Proofs.Markup.Shelter
import HtmlTemplate.Proofs.Template.Fits

/-!
# Content that is read again

What the tokenizer tells of the content of an element without tags can be written so that it is told
of again (`Rereads`): escaped in `textarea` and `title`, as it is in `script` and `style`. In a
script what has been told of and what is held back are followed together (`State.Recited`), since a
passage that looks like a comment changes what ends the script.
-/

namespace HtmlTemplate

/-! ## Escaped text -/

namespace Text

theorem escapeText_cons (c : Char) (s : Text) :
    escapeText (c :: s) = escapeTextChar c ++ escapeText s := rfl

/-- A character between tags is written as itself, unless it is one of the three that mean
something. -/
theorem escapeTextChar_cases (c : Char) :
    (escapeTextChar c = [c] ∧ c ≠ '&' ∧ c ≠ '<') ∨ c = '&' ∨ c = '<' ∨ c = '>' := by
  by_cases ampersand : c = '&'
  · exact .inr (.inl ampersand)
  by_cases less : c = '<'
  · exact .inr (.inr (.inl less))
  by_cases greater : c = '>'
  · exact .inr (.inr (.inr greater))
  · refine .inl ⟨?_, ampersand, less⟩
    simp only [escapeTextChar, ampersand, less, greater, if_false]

/-- Line ends can be read before or after a text is escaped. -/
theorem normalizeNewlines_escapeText (s : Text) :
    normalizeNewlines (escapeText s) = escapeText (normalizeNewlines s) := by
  have inert : ∀ c d, d ∈ escapeTextChar c → d = '\r' ∨ d = '\n' → d = c := by
    intro c d member line
    rcases escapeTextChar_cases c with ⟨same, _⟩ | rfl | rfl | rfl
    · rw [same] at member
      exact List.mem_singleton.mp member
    all_goals
      rcases line with rfl | rfl <;> exact absurd member (by decide)
  induction s using normalizeNewlines.induct with
  | case1 s ih =>
    have written : escapeText ('\r' :: '\n' :: s) = '\r' :: '\n' :: escapeText s := rfl
    rw [written, normalizeNewlines, normalizeNewlines, ih]
    rfl
  | case2 s none ih =>
    have written : escapeText ('\r' :: s) = '\r' :: escapeText s := rfl
    have other : ∀ rest, escapeText s = '\n' :: rest → False := by
      intro rest same
      cases s with
      | nil => cases same
      | cons c s =>
        refine none s ?_
        rw [escapeText_cons] at same
        rcases escapeTextChar_cases c with ⟨itself, _⟩ | rfl | rfl | rfl
        · rw [itself] at same
          rw [(List.cons.inj same).1]
        all_goals cases same
    rw [written, normalizeNewlines_return other, normalizeNewlines_return none, ih]
    rfl
  | case3 c s _ notReturn ih =>
    have quiet : ∀ d ∈ escapeTextChar c, d ≠ '\r' := by
      intro d member same
      exact notReturn ((inert c d member (.inl same)).symm.trans same)
    rw [escapeText_cons, normalizeNewlines_inert quiet, ih, normalizeNewlines_cons notReturn,
      escapeText_cons]
  | case4 => rfl

end Text

namespace State

/-- Escaped text leaves ordinary text as it is. -/
theorem reads_data_escapeText (u : Text) :
    Reads .data (Text.escapeText u) (Token.characters u) .data := by
  refine Reads.flatMap fun c _ => ?_
  rcases Text.escapeTextChar_cases c with ⟨same, ampersand, less⟩ | rfl | rfl | rfl
  · have step : data.step c = (data, [.character c]) := by
      simp [State.step, stepData, ampersand, less]
    rw [same]
    exact .cons ⟨rfl, rfl⟩ step
  all_goals exact ⟨rfl, rfl⟩

/-- Escaped text without nulls is read where references are read and tags are not. -/
theorem reads_plain_escapeText (element : Text) {u : Text} (none : null ∉ u) :
    Reads (raw (.plain element)) (Text.escapeText u) (Token.characters u)
      (raw (.plain element)) := by
  refine Reads.flatMap fun c member => ?_
  rcases Text.escapeTextChar_cases c with ⟨same, ampersand, less⟩ | rfl | rfl | rfl
  · have nonnull : c ≠ null := fun zero => none (zero ▸ member)
    have step : (raw (.plain element)).step c = (raw (.plain element), [.character c]) := by
      simp [State.step, stepRaw, ampersand, less, kept_of_ne nonnull]
    rw [same]
    exact .cons ⟨rfl, rfl⟩ step
  all_goals exact ⟨rfl, rfl⟩

/-! ## Scripts -/

theorem reads_singleton {state next : State} {c : Char} {tokens : List Token}
    (step : state.step c = (next, tokens)) : Reads state [c] tokens next := by
  have whole : Reads state [c] (tokens ++ []) next := .cons ⟨rfl, rfl⟩ step
  rw [List.append_nil] at whole
  exact whole

/-- Letters after `</` are held back. -/
theorem reads_rawEndName (content : RawContent) {letters : Text} (some : letters ≠ [])
    (all : ∀ c ∈ letters, Text.isLetter c = true) :
    Reads (rawEndOpen content) letters [] (rawEndName content letters) := by
  have more : ∀ {rest : Text} (before : Text), (∀ c ∈ rest, Text.isLetter c = true) →
      Reads (rawEndName content before) rest [] (rawEndName content (before ++ rest)) := by
    intro rest
    induction rest with
    | nil =>
      intro before _
      rw [List.append_nil]
      exact ⟨rfl, rfl⟩
    | cons c rest ih =>
      intro before letter
      have later := ih (before ++ [c]) fun d member => letter d (List.mem_cons_of_mem c member)
      rw [List.append_assoc] at later
      refine .silent ?_ later
      show stepRawEndName content before c = _
      simp only [stepRawEndName, letter c List.mem_cons_self, if_true]
  obtain ⟨c, rest, rfl⟩ := List.exists_cons_of_ne_nil some
  refine .silent ?_ (more [c] fun d member => all d (List.mem_cons_of_mem c member))
  show stepRawEndOpen content c = _
  rw [stepRawEndOpen, if_pos (all c List.mem_cons_self)]

/-- Script text is read from its beginning as `t`, with some more held back. -/
def Recites (element t held : Text) (state : State) : Prop :=
  Reads (raw (.script element .plain)) (t ++ held) (Token.characters t) state

/-- Script text that is cut off is read as it is. -/
def Whole (element t : Text) : Prop :=
  (raw (.script element .plain)).run t = Token.characters t

/-- In a script: what has been told of is told of again when it is read again, and what is held back
is held back again. -/
inductive Recited (element : Text) : Text → Text → State → Prop
  | raw {t : Text} {phase : ScriptPhase} : Recites element t [] (raw (.script element phase)) →
      Recited element t [] (raw (.script element phase))
  | less {t : Text} {phase : ScriptPhase} : Whole element t →
      Recites element t ['<'] (rawLess (.script element phase)) →
      Recited element t ['<'] (rawLess (.script element phase))
  | endOpen {t : Text} {phase : ScriptPhase} : Whole element t →
      Recites element t ['<', '/'] (rawEndOpen (.script element phase)) →
      Recited element t ['<', '/'] (rawEndOpen (.script element phase))
  | endName {t letters : Text} {phase : ScriptPhase} : Whole element t →
      Recites element t ['<', '/'] (rawEndOpen (.script element phase)) →
      letters ≠ [] → (∀ c ∈ letters, Text.isLetter c = true) →
      Recited element t ('<' :: '/' :: letters) (rawEndName (.script element phase) letters)

/-- An element's end tag begins or is complete. -/
inductive Ending (element : Text) : State × List Token → Prop
  | attributes : Ending element (.beforeName ⟨true, element, []⟩, [])
  | slash : Ending element (.selfClosing ⟨true, element, []⟩, [])
  | closes : Ending element (.data, [.endTag element])

/-- Letters after `</` go on, are those of the element's end tag, or are told of. -/
theorem stepRawEndName_cases (content : RawContent) (letters : Text) (c : Char) :
    (Text.isLetter c = true ∧
        stepRawEndName content letters c = (rawEndName content (letters ++ [c]), [])) ∨
      Ending content.element (stepRawEndName content letters c) ∨
      stepRawEndName content letters c =
        emitting (Token.characters ('<' :: '/' :: letters)) (stepRaw content c) := by
  unfold stepRawEndName
  simp only
  split
  · rename_i letter
    exact .inl ⟨letter, rfl⟩
  · split
    · rename_i same
      rw [same.1]
      exact .inr (.inl .attributes)
    · split
      · rename_i same
        rw [same.1]
        exact .inr (.inl .slash)
      · split
        · rename_i same
          rw [closeTag_closing rfl, same.1]
          exact .inr (.inl .closes)
        · exact .inr (.inr rfl)

/-- What a character of a script does: the script goes on, or its end tag begins. -/
inductive RecitedMove (element t held : Text) (c : Char) : State × List Token → Prop
  | on {u held' : Text} {next : State} : Recited element (t ++ u) held' next →
      held ++ [kept c] = u ++ held' → RecitedMove element t held c (next, Token.characters u)
  | ends {phase : ScriptPhase} {next : State × List Token} : Whole element t →
      Recites element t ['<', '/'] (rawEndOpen (.script element phase)) → Ending element next →
      RecitedMove element t held c next

section Scripts

variable {element t held : Text} {state : State} {phase : ScriptPhase} {c : Char}

theorem Recited.recites (h : Recited element t held state) : Recites element t held state := by
  cases h with
  | raw recites => exact recites
  | less _ recites => exact recites
  | endOpen _ recites => exact recites
  | endName _ recites some all =>
    have whole := Reads.append recites (reads_rawEndName _ some all)
    rw [List.append_nil, List.append_assoc] at whole
    exact whole

theorem Recited.finish (h : Recited element t held state) :
    state.finish = Token.characters held := by
  cases h <;> rfl

theorem Recited.whole (h : Recited element t held state) : Whole element (t ++ held) := by
  have read := Reads.run h.recites []
  rw [List.append_nil, run, h.finish] at read
  rw [Whole, read, Token.characters, Token.characters, Token.characters, List.map_append]

/-- What does the same with a null as with its replacement does the same with what is kept of a
character. -/
theorem kept_congr {α : Type} {f : Char → α} (same : f Reference.replacement = f null) (c : Char) :
    f (kept c) = f c := by
  unfold kept
  split
  · rename_i zero
    rw [zero, same]
  · rfl

/-- A script reads a null like what it is replaced with. -/
theorem Recited.step_kept (h : Recited element t held state) (c : Char) :
    state.step (kept c) = state.step c := by
  refine kept_congr ?_ c
  cases h with
  | @raw phase _ | @less phase _ _ | @endOpen phase _ _ => cases phase <;> rfl
  | @endName letters phase _ _ _ _ =>
    show stepRawEndName (.script element phase) letters Reference.replacement =
      stepRawEndName (.script element phase) letters null
    have script : stepScript element phase Reference.replacement =
        stepScript element phase null := by
      cases phase <;> rfl
    have letters : Text.isLetter null = false ∧ Text.isLetter Reference.replacement = false := by
      decide
    have blanks : Text.isBlank null = false ∧
        Text.isBlank Reference.replacement = false := by decide
    have slashes : null ≠ '/' ∧ Reference.replacement ≠ '/' := by decide
    have ends : null ≠ '>' ∧ Reference.replacement ≠ '>' := by decide
    simp only [stepRawEndName, letters, blanks, slashes, ends, and_false, if_false,
      Bool.false_eq_true, stepRaw, script]

/-- What was held back is told of, and the script goes on with the character. -/
theorem Recited.onward (h : Recited element t held state) (phase : ScriptPhase)
    (step : state.step c = emitting (Token.characters held) (stepScript element phase c)) :
    RecitedMove element t held c (state.step c) := by
  have read : Reads state [kept c] (state.step c).2 (state.step c).1 :=
    reads_singleton (h.step_kept c)
  have told := Reads.append h.recites read
  rw [step] at told
  rw [step]
  rcases stepScript_cases element phase c with ⟨phase', same⟩ | ⟨rfl, phase', same⟩
  · have tokens : emitting (Token.characters held) (stepScript element phase c) =
        (.raw (.script element phase'), Token.characters (held ++ [kept c])) := by
      rw [same, emitting]
      simp [Token.characters]
    rw [tokens] at told ⊢
    refine .on (.raw ?_) (List.append_nil _).symm
    rw [Recites, List.append_nil]
    rw [List.append_assoc, Token.characters, Token.characters, ← List.map_append] at told
    exact told
  · have tokens : emitting (Token.characters held) (stepScript element phase '<') =
        (.rawLess (.script element phase'), Token.characters held) := by
      rw [same, emitting, List.append_nil]
    rw [tokens] at told ⊢
    refine .on (.less h.whole ?_) rfl
    rw [Token.characters, Token.characters, ← List.map_append] at told
    exact told

theorem Recited.step (h : Recited element t held state) (c : Char) :
    RecitedMove element t held c (state.step c) := by
  have holds : ∀ {next : State}, kept c = c → Recited element t (held ++ [c]) next →
      RecitedMove element t held c (next, []) := by
    intro next same goes
    have on : RecitedMove element t held c (next, Token.characters []) := by
      have split : held ++ [kept c] = [] ++ (held ++ [c]) := by rw [same]; rfl
      refine .on ?_ split
      rw [List.append_nil]
      exact goes
    exact on
  cases h with
  | raw recites => exact Recited.onward (.raw recites) _ rfl
  | @less phase whole recites =>
    by_cases slash : c = '/'
    · subst slash
      have read := Reads.append recites (reads_singleton (c := '/') rfl)
      rw [List.append_nil, List.append_assoc] at read
      exact holds rfl (.endOpen whole read)
    · by_cases bang : phase = .plain ∧ c = '!'
      · obtain ⟨rfl, rfl⟩ := bang
        have read := Reads.append recites (reads_singleton (c := '!') rfl)
        refine .on (u := ['<', '!']) (.raw ?_) rfl
        rw [Recites, List.append_nil]
        rw [List.append_assoc, Token.characters, Token.characters, ← List.map_append] at read
        exact read
      · have other : ∃ phase', stepRawLess (.script element phase) c =
            emitting (Token.characters ['<']) (stepScript element phase' c) := by
          unfold stepRawLess
          rw [if_neg slash]
          cases phase with
          | plain => exact ⟨_, if_neg fun same => bang ⟨rfl, same⟩⟩
          | escaped dashes =>
            simp only
            split
            · exact ⟨_, rfl⟩
            · exact ⟨_, rfl⟩
          | _ => exact ⟨_, rfl⟩
        obtain ⟨phase', same⟩ := other
        exact Recited.onward (.less whole recites) phase' same
  | @endOpen phase whole recites =>
    by_cases letter : Text.isLetter c = true
    · have step : State.step (rawEndOpen (.script element phase)) c =
          (rawEndName (.script element phase) [c], []) := if_pos letter
      rw [step]
      refine holds (kept_of_ne (ne_null_of_isLetter letter))
        (.endName whole recites (List.cons_ne_nil _ _) fun d member => ?_)
      rw [List.mem_singleton.mp member]
      exact letter
    · exact Recited.onward (.endOpen whole recites) phase (if_neg letter)
  | @endName letters phase whole recites some all =>
    have here : Recited element t _ (rawEndName (.script element phase) letters) :=
      .endName whole recites some all
    rcases stepRawEndName_cases (.script element phase) letters c with
      ⟨letter, same⟩ | ending | same
    · have step : State.step (rawEndName (.script element phase) letters) c = _ := same
      rw [step]
      refine holds (kept_of_ne (ne_null_of_isLetter letter))
        (.endName whole recites (by simp) fun d member => ?_)
      rcases List.mem_append.mp member with before | last
      · exact all d before
      · rw [List.mem_singleton.mp last]
        exact letter
    · exact .ends whole recites ending
    · exact here.onward phase same

end Scripts

end State

/-! ## Elements -/

/-- The text of an element without tags as it is written in a template. -/
def contentText (element t : Text) : Text :=
  if element = Vocabulary.script ∨ element = Vocabulary.style then t else Text.escapeText t

/-- The end tag of an element. -/
def endTagText (element : Text) : Text := '<' :: '/' :: element ++ ['>']

/-- Where the input is cut off, the content of an element is read again as the text it was read as,
but for line ends. -/
def RereadsCut (element t : Text) : Prop :=
  (State.content element).run (normalizeNewlines (contentText element t)) =
    Token.characters (normalizeNewlines t)

/-- The same with the element's end tag. -/
structure Rereads (element t : Text) : Prop where
  cut : RereadsCut element t
  closed : (State.content element).Reads
    (normalizeNewlines (contentText element t ++ endTagText element))
    (Token.characters (normalizeNewlines t) ++ [.endTag element]) .data

theorem return_not_mem_normalizeNewlines (text : Text) : '\r' ∉ normalizeNewlines text := by
  induction text using normalizeNewlines.induct with
  | case1 text ih =>
    rw [normalizeNewlines]
    exact fun member => (List.mem_cons.mp member).elim (by decide) ih
  | case2 text none ih =>
    rw [normalizeNewlines_return none]
    exact fun member => (List.mem_cons.mp member).elim (by decide) ih
  | case3 c text _ notReturn ih =>
    rw [normalizeNewlines_cons notReturn]
    exact fun member => (List.mem_cons.mp member).elim (fun same => notReturn same.symm) ih
  | case4 => exact List.not_mem_nil

theorem normalizeNewlines_eq_self {u : Text} (none : '\r' ∉ u) : normalizeNewlines u = u := by
  have whole := normalizeNewlines_inert (u := u) (fun c member same => none (same ▸ member)) []
  rw [List.append_nil] at whole
  rw [whole]
  exact List.append_nil u

section Elements

variable {element t held : Text} {state : State} {phase : ScriptPhase} {c : Char}

theorem rereads_plain (content : State.content element = .raw (.plain element))
    (none : State.null ∉ t) : Rereads element t := by
  have known : element ∈ ["textarea".toList, "title".toList] := by
    unfold State.content at content
    split at content
    · cases content
    · split at content
      · rename_i same
        exact List.mem_pair.mpr same
      · cases content
  have written : contentText element t = Text.escapeText t := by
    rcases List.mem_pair.mp known with rfl | rfl <;> rfl
  have free : State.null ∉ normalizeNewlines t := fun member =>
    none (mem_of_mem_normalizeNewlines member (by decide))
  have text := State.reads_plain_escapeText element free
  have closes : (State.raw (.plain element)).Reads (normalizeNewlines (endTagText element))
      [.endTag element] .data := by
    rcases List.mem_pair.mp known with rfl | rfl <;> exact ⟨rfl, rfl⟩
  constructor
  · have read := text.run []
    rw [List.append_nil, State.run, State.finish, List.append_nil] at read
    rw [RereadsCut, content, written, Text.normalizeNewlines_escapeText]
    exact read
  · rw [content, written, endTagText, List.cons_append, normalizeNewlines_append _ (by decide),
      Text.normalizeNewlines_escapeText]
    exact text.append closes

theorem rereadsCut_script (content : State.content element = .raw (.script element .plain))
    (whole : State.Whole element t) (none : '\r' ∉ t) : RereadsCut element t := by
  have written : contentText element t = t := by
    unfold State.content at content
    split at content
    · rename_i same
      exact if_pos same
    · split at content <;> cases content
  rw [RereadsCut, content, written, normalizeNewlines_eq_self none]
  exact whole

theorem rereads_script (content : State.content element = .raw (.script element .plain))
    (whole : State.Whole element t)
    (recites : State.Recites element t ['<', '/'] (.rawEndOpen (.script element phase)))
    (none : '\r' ∉ t) : Rereads element t := by
  refine ⟨rereadsCut_script content whole none, ?_⟩
  have known : element ∈ [Vocabulary.script, Vocabulary.style] := by
    unfold State.content at content
    split at content
    · rename_i same
      exact List.mem_pair.mpr same
    · split at content <;> cases content
  have written : contentText element t = t := if_pos (List.mem_pair.mp known)
  have closes : (State.rawEndOpen (.script element phase)).Reads (element ++ ['>'])
      [.endTag element] .data := by
    rcases List.mem_pair.mp known with rfl | rfl <;> exact ⟨rfl, rfl⟩
  have quiet : '\r' ∉ t ++ endTagText element := by
    rw [List.mem_append, not_or]
    refine ⟨none, ?_⟩
    rcases List.mem_pair.mp known with rfl | rfl <;> decide
  have read := State.Reads.append recites closes
  rw [List.append_assoc] at read
  rw [content, written, normalizeNewlines_eq_self quiet, normalizeNewlines_eq_self none]
  exact read

/-- An element without content. -/
theorem rereads_nil (raw : State.content element ≠ .data) : Rereads element [] := by
  unfold State.content at raw
  split at raw
  · rename_i script
    have opened : State.Recites element [] ['<', '/'] (.rawEndOpen (.script element .plain)) :=
      ⟨rfl, rfl⟩
    exact rereads_script (if_pos script) rfl opened List.not_mem_nil
  · rename_i notScript
    split at raw
    · rename_i title
      refine rereads_plain ?_ List.not_mem_nil
      rw [State.content, if_neg notScript, if_pos title]
    · exact absurd rfl raw

/-- In the content of an element without tags: `t` has been told of, and what is held back is told
of later unless it begins the end tag. -/
inductive State.Within (element : Text) : Text → Text → State → Prop
  | plain {t held : Text} {position : Option Reference} {state : State} :
      content element = raw (.plain element) → state.Raw (.plain element) position held →
      NullFree position → null ∉ t ++ held → Within element t held state
  | script {t held : Text} {state : State} : content element = raw (.script element .plain) →
      Recited element t held state → '\r' ∉ t ++ held → Within element t held state

/-- What a character of such content does: it goes on, or the end tag begins. -/
inductive State.WithinMove (element t : Text) : State × List Token → Prop
  | on {u held : Text} {next : State} : Within element (t ++ u) held next →
      WithinMove element t (next, Token.characters u)
  | ends {next : State × List Token} : Rereads element t → Ending element next →
      WithinMove element t next

namespace State

theorem kept_ne_return (other : c ≠ '\r') : kept c ≠ '\r' := by
  unfold kept
  split
  · decide
  · exact other

theorem Within.step (h : Within element t held state) (other : c ≠ '\r') :
    WithinMove element t (state.step c) := by
  cases h with
  | plain content isRaw pending none =>
    obtain ⟨plain, later⟩ := Reading.take_nullFree false pending c
    have move := step_raw isRaw c
    generalize state.step c = next at move
    have rereads : Rereads element t :=
      rereads_plain content fun member => none (List.mem_append_left _ member)
    cases move with
    | @on next u goes =>
      obtain ⟨content', held', isRaw', same, reading, split⟩ := goes.goes
      have plainly : content' = .plain element := by
        cases content' with
        | plain other => exact congrArg RawContent.plain same
        | script other phase => cases reading
      subst plainly
      refine .on (.plain content isRaw' later ?_)
      rw [List.append_assoc, ← split, ← List.append_assoc]
      exact fun member => (List.mem_append.mp member).elim none plain
    | attributes => exact .ends rereads .attributes
    | slash => exact .ends rereads .slash
    | closes _ => exact .ends rereads .closes
  | script content recited none =>
    have move := recited.step c
    generalize state.step c = next at move
    cases move with
    | on goes split =>
      refine .on (.script content goes ?_)
      rw [List.append_assoc, ← split, ← List.append_assoc]
      exact fun member => (List.mem_append.mp member).elim none fun last =>
        kept_ne_return other (List.mem_singleton.mp last).symm
    | ends whole recites ending =>
      exact .ends (rereads_script content whole recites fun member =>
        none (List.mem_append_left _ member)) ending

theorem Raw.finish {content : RawContent} {position : Option Reference}
    (h : state.Raw content position held) :
    state.finish = Token.characters (held ++ (Reading.decoded false).flush position) := by
  cases h with
  | endName content letters =>
    exact congrArg Token.characters (List.append_nil ('<' :: '/' :: letters)).symm
  | _ => rfl

/-- Where such content is cut off, what was held back is told of. -/
theorem Within.finish (h : Within element t held state) :
    ∃ u, state.finish = Token.characters u ∧ RereadsCut element (t ++ u) := by
  cases h with
  | plain content isRaw pending none =>
    have flushed := Reading.flush_nullFree false pending
    refine ⟨_, isRaw.finish, (rereads_plain content ?_).cut⟩
    rw [← List.append_assoc]
    exact fun member => (List.mem_append.mp member).elim none flushed
  | script content recited none =>
    exact ⟨held, recited.finish, rereadsCut_script content recited.whole none⟩

/-- The content of an element without tags begins. -/
theorem within_content (element : Text) (raw : content element ≠ data) :
    Within element [] [] (content element) := by
  unfold content at raw
  split at raw
  · rename_i script
    have same : content element = State.raw (.script element .plain) := if_pos script
    rw [same]
    exact .script same (.raw ⟨rfl, rfl⟩) List.not_mem_nil
  · rename_i notScript
    split at raw
    · rename_i title
      have same : content element = State.raw (.plain element) := by
        rw [content, if_neg notScript, if_pos title]
      rw [same]
      exact .plain same (.plain _) nullFree_none List.not_mem_nil
    · exact absurd rfl raw

end State

end Elements

end HtmlTemplate

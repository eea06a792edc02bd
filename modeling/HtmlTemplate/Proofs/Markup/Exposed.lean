import HtmlTemplate.Proofs.Markup.Shelter

/-!
# Exposed places in scripts and styles

In the content of a `script` or `style` element, an escaped text changes no tag in a sheltered
place. In every other place some text does (`State.sheltered_iff`): it completes an end tag or turns
its letters into another word, or it ends a comment-like passage, or keeps it from ending.
-/

namespace HtmlTemplate

namespace State

variable {element : Text} {state : State}

/-- Some escaped text changes which tags are read. -/
def Exposed (state : State) : Prop :=
  ∃ v rest, Token.tags (state.run (Text.escape v ++ rest)) ≠ Token.tags (state.run rest)

/-- Text without less-than signs stays in the content, and none of it is a tag. -/
theorem tags_run_script {phase : ScriptPhase} {text : Text} (none : '<' ∉ text) (rest : Text) :
    Token.tags ((raw (.script element phase)).run (text ++ rest)) =
      Token.tags (((raw (.script element phase)).after text).run rest) := by
  induction text generalizing phase with
  | nil => rfl
  | cons c text ih =>
    rw [List.mem_cons, not_or] at none
    obtain ⟨phase', step⟩ :=
      (stepScript_cases element phase c).resolve_right fun held => none.1 held.1.symm
    have step : (raw (.script element phase)).step c =
        (raw (.script element phase'), Token.characters [kept c]) := step
    rw [List.cons_append, run, after, step, Token.tags_append, Token.tags_characters, ih none.2]
    rfl

theorem tags_run_script_of_not_mem {phase : ScriptPhase} {text : Text} (none : '<' ∉ text) :
    Token.tags ((raw (.script element phase)).run text) = [] := by
  induction text generalizing phase with
  | nil => rfl
  | cons c text ih =>
    rw [List.mem_cons, not_or] at none
    obtain ⟨phase', step⟩ :=
      (stepScript_cases element phase c).resolve_right fun held => none.1 held.1.symm
    have step : (raw (.script element phase)).step c =
        (raw (.script element phase'), Token.characters [kept c]) := step
    rw [run, step, Token.tags_append, Token.tags_characters, ih none.2]
    rfl

/-- An end tag after a start tag that hides it when it is read in a comment-like passage. -/
def hidden (element : Text) : Text :=
  '<' :: scriptWord ++ '>' :: '<' :: '/' :: element ++ ['>']

section Known

variable (known : element ∈ ["script".toList, "style".toList])

include known

theorem tags_hidden_plain :
    Token.tags ((raw (.script element .plain)).run (hidden element)) = [.endTag element] := by
  rcases List.mem_pair.mp known with rfl | rfl <;> rfl

theorem tags_hidden_opening (dashes : Nat) :
    Token.tags ((raw (.script element (.opening dashes))).run (hidden element)) =
      [.endTag element] := by
  rcases List.mem_pair.mp known with rfl | rfl <;> rfl

theorem tags_hidden_escaped (dashes : Nat) :
    Token.tags ((raw (.script element (.escaped dashes))).run (hidden element)) = [] := by
  rcases List.mem_pair.mp known with rfl | rfl <;> rfl

theorem tags_hidden_nested (dashes : Nat) :
    Token.tags ((raw (.script element (.nested dashes))).run (hidden element)) = [] := by
  rcases List.mem_pair.mp known with rfl | rfl <;> rfl

end Known

theorem after_dashes_escaped (dashes : Nat) : (raw (.script element (.escaped dashes))).after
    ['-', '-'] = raw (.script element (.escaped 2)) := by
  have two : min (min (dashes + 1) 2 + 1) 2 = 2 := by omega
  show raw (.script element (.escaped (min (min (dashes + 1) 2 + 1) 2))) = _
  rw [two]

theorem after_dashes_nested (dashes : Nat) : (raw (.script element (.nested dashes))).after
    ['-', '-'] = raw (.script element (.nested 2)) := by
  have two : min (min (dashes + 1) 2 + 1) 2 = 2 := by omega
  show raw (.script element (.nested (min (min (dashes + 1) 2 + 1) 2))) = _
  rw [two]

/-- A text that ends the comment-like passage and one that stays in it are told apart by what the
passage hides. -/
theorem tags_ne (known : element ∈ ["script".toList, "style".toList]) {phase next : ScriptPhase}
    {v w : Text} (none : '<' ∉ v) (none' : '<' ∉ w)
    (ends : (raw (.script element phase)).after v = raw (.script element .plain))
    (stays : (raw (.script element phase)).after w = raw (.script element next))
    (deep : next = .escaped 0 ∨ next = .nested 0) :
    Token.tags ((raw (.script element phase)).run (v ++ hidden element)) ≠
      Token.tags ((raw (.script element phase)).run (w ++ hidden element)) := by
  have nothing : Token.tags ((raw (.script element next)).run (hidden element)) = [] := by
    rcases deep with rfl | rfl
    · exact tags_hidden_escaped known 0
    · exact tags_hidden_nested known 0
  rw [tags_run_script none, tags_run_script none', ends, stays, tags_hidden_plain known, nothing]
  exact List.cons_ne_nil _ _

/-- Texts that are put before `rest`, or not, change which tags are read in the content, and no
letter comes first. -/
def Exposing (element : Text) (phase : ScriptPhase) (v rest : Text) : Prop :=
  Text.escape v = v ∧ (∀ c ∈ (v ++ rest).head?, Text.isLetter c = false) ∧
    (∀ c ∈ rest.head?, Text.isLetter c = false) ∧
    Token.tags ((raw (.script element phase)).run (v ++ rest)) ≠
      Token.tags ((raw (.script element phase)).run rest)

/-- Two dashes end a comment-like passage together with a greater-than sign. -/
theorem exposing_dashes (known : element ∈ ["script".toList, "style".toList])
    {phase : ScriptPhase} (next : ScriptPhase)
    (ends : (raw (.script element phase)).after ['-', '-', '>'] = raw (.script element .plain))
    (stays : (raw (.script element phase)).after ['>'] = raw (.script element next))
    (deep : next = .escaped 0 ∨ next = .nested 0) :
    Exposing element phase ['-', '-'] ('>' :: hidden element) :=
  ⟨rfl, by simp; decide, by simp; decide, tags_ne known (by decide) (by decide) ends stays deep⟩

/-- Anything else after two dashes keeps the passage from ending. -/
theorem exposing_dot (known : element ∈ ["script".toList, "style".toList])
    {phase : ScriptPhase} (next : ScriptPhase)
    (ends : (raw (.script element phase)).after ['>'] = raw (.script element .plain))
    (stays : (raw (.script element phase)).after ['.', '>'] = raw (.script element next))
    (deep : next = .escaped 0 ∨ next = .nested 0) :
    Exposing element phase ['.'] ('>' :: hidden element) :=
  ⟨rfl, by simp; decide, by simp; decide,
    (tags_ne known (by decide) (by decide) ends stays deep).symm⟩

theorem after_escaped_greater {dashes : Nat} (few : dashes ≠ 2) :
    (raw (.script element (.escaped dashes))).after ['>'] = raw (.script element (.escaped 0)) := by
  simp [after, step, stepRaw, stepScript, stepScriptEscaped, few]

theorem after_nested_greater {dashes : Nat} (few : dashes ≠ 2) :
    (raw (.script element (.nested dashes))).after ['>'] = raw (.script element (.nested 0)) := by
  simp [after, step, stepRaw, stepScript, stepScriptNested, few]

/-- Everywhere in a comment-like passage, and where one begins, a text can change what is hidden. -/
theorem exists_exposing (known : element ∈ ["script".toList, "style".toList])
    {phase : ScriptPhase} (other : phase ≠ .plain) : ∃ v rest, Exposing element phase v rest := by
  cases phase with
  | plain => exact absurd rfl other
  | opening dashes =>
    have deep : (raw (.script element (.opening dashes))).after ['-', '-'] =
        raw (.script element (.escaped 2)) := by
      by_cases none : dashes = 0
      · subst none
        rfl
      · simp [after, step, stepRaw, stepScript, stepScriptEscaped, none]
    refine ⟨['-', '-'], hidden element, rfl, by simp; decide, by simp [hidden]; decide, ?_⟩
    rw [tags_run_script (by decide), deep, tags_hidden_escaped known, tags_hidden_opening known]
    exact (List.cons_ne_nil _ _).symm
  | escaped dashes =>
    by_cases two : dashes = 2
    · subst two
      exact ⟨_, _, exposing_dot known (.escaped 0) rfl rfl (.inl rfl)⟩
    · refine ⟨_, _, exposing_dashes known (.escaped 0) ?_ (after_escaped_greater two) (.inl rfl)⟩
      have split := after_append (raw (.script element (.escaped dashes))) ['-', '-'] ['>']
      rw [after_dashes_escaped] at split
      exact split
  | entering word =>
    by_cases same : word = scriptWord
    · refine ⟨_, _, exposing_dashes known (.nested 0) rfl ?_ (.inr rfl)⟩
      subst same
      rfl
    · refine ⟨_, _, exposing_dashes known (.escaped 0) rfl ?_ (.inl rfl)⟩
      simp [after, step, stepRaw, stepScript, endsWord, same]
  | nested dashes =>
    by_cases two : dashes = 2
    · subst two
      exact ⟨_, _, exposing_dot known (.nested 0) rfl rfl (.inr rfl)⟩
    · refine ⟨_, _, exposing_dashes known (.nested 0) ?_ (after_nested_greater two) (.inr rfl)⟩
      have split := after_append (raw (.script element (.nested dashes))) ['-', '-'] ['>']
      rw [after_dashes_nested] at split
      exact split
  | nestedLess => exact ⟨_, _, exposing_dashes known (.nested 0) rfl rfl (.inr rfl)⟩
  | leaving word =>
    by_cases same : word = scriptWord
    · refine ⟨_, _, exposing_dashes known (.escaped 0) rfl ?_ (.inl rfl)⟩
      subst same
      rfl
    · refine ⟨_, _, exposing_dashes known (.nested 0) rfl ?_ (.inr rfl)⟩
      simp [after, step, stepRaw, stepScript, endsWord, same]

/-- Where what was held back turns out to be text, the rest is read as in the content itself. -/
theorem tags_run_of_step (content : RawContent) {c : Char} (held : Text)
    (step : state.step c = emitting (Token.characters held) ((raw content).step c)) (text : Text) :
    Token.tags (state.run (c :: text)) = Token.tags ((raw content).run (c :: text)) := by
  rw [run, step, emitting, run]
  simp only [Token.tags_append, Token.tags_characters, List.nil_append]

/-- After letters that are not those of the element, text that begins with no letter is read as in
the content itself. -/
theorem tags_run_strange (content : RawContent) {letters : Text}
    (other : Text.lower letters ≠ content.element) {text : Text}
    (ends : ∀ c ∈ text.head?, Text.isLetter c = false) :
    Token.tags ((rawEndName content letters).run text) = Token.tags ((raw content).run text) := by
  cases text with
  | nil => exact Token.tags_characters _
  | cons c text =>
    have step : (rawEndName content letters).step c =
        emitting (Token.characters ('<' :: '/' :: letters)) ((raw content).step c) :=
      stepRawEndName_of_ne content other (ends c rfl)
    exact tags_run_of_step content _ step text

/-- After a less-than sign, a slash begins an end tag. -/
theorem exposed_less (known : element ∈ ["script".toList, "style".toList]) (phase : ScriptPhase) :
    (rawLess (.script element phase)).Exposed := by
  refine ⟨['/'], element ++ ['>'], ?_⟩
  have closes : Token.tags ((rawLess (.script element phase)).run ('/' :: element ++ ['>'])) =
      [.endTag element] := by
    rcases List.mem_pair.mp known with rfl | rfl <;> rfl
  have stays : Token.tags ((rawLess (.script element phase)).run (element ++ ['>'])) = [] := by
    rcases List.mem_pair.mp known with rfl | rfl <;> cases phase <;> rfl
  intro same
  have absurdity : [Token.endTag element] = [] := closes.symm.trans (same.trans stays)
  exact List.cons_ne_nil _ _ absurdity

/-- Letters after `</` are collected. -/
theorem run_rawEndName {content : RawContent} {letters more : Text}
    (word : ∀ c ∈ more, Text.isLetter c = true) (rest : Text) :
    (rawEndName content letters).run (more ++ rest) =
      (rawEndName content (letters ++ more)).run rest := by
  induction more generalizing letters with
  | nil => rw [List.append_nil, List.nil_append]
  | cons c more ih =>
    have step : (rawEndName content letters).step c = (rawEndName content (letters ++ [c]), []) :=
      if_pos (word c List.mem_cons_self)
    have later : (rawEndName content (letters ++ [c])).run (more ++ rest) =
        (rawEndName content (letters ++ [c] ++ more)).run rest :=
      ih fun d member => word d (List.mem_cons_of_mem c member)
    rw [List.append_assoc] at later
    rw [List.cons_append, run, step]
    exact later

/-- All letters of the element and a greater-than sign are its end tag. -/
theorem tags_run_endName (content : RawContent) {letters : Text}
    (same : Text.lower letters = content.element) :
    Token.tags ((rawEndName content letters).run ['>']) = [.endTag content.element] := by
  have step : (rawEndName content letters).step '>' =
      closeTag ⟨true, content.element, []⟩ false := by
    have ends : Text.isLetter '>' = false ∧ Text.isBlank '>' = false := by decide
    show stepRawEndName content letters '>' = _
    simp [stepRawEndName, same, ends]
  rw [run, step]
  rfl

/-- The name of the element is written in plain letters. -/
theorem plain_of_known (known : element ∈ ["script".toList, "style".toList]) :
    ∀ c ∈ element, Text.isLetter c = true ∧ Text.escapeChar c = [c] ∧ Text.lowerChar c = c := by
  rcases List.mem_pair.mp known with rfl | rfl <;> exact List.all_iff_forall_prop.mp (by decide)

/-- After `</`, the letters of the element make its end tag. -/
theorem exposed_endOpen (known : element ∈ ["script".toList, "style".toList])
    (phase : ScriptPhase) : (rawEndOpen (.script element phase)).Exposed := by
  refine ⟨element, ['>'], ?_⟩
  have closes : Token.tags ((rawEndOpen (.script element phase)).run
      (Text.escape element ++ ['>'])) = [.endTag element] := by
    rcases List.mem_pair.mp known with rfl | rfl <;> rfl
  have stays : Token.tags ((rawEndOpen (.script element phase)).run ['>']) = [] := by
    rw [tags_run_of_step (.script element phase) ['<', '/'] rfl]
    exact tags_run_script_of_not_mem (by decide)
  rw [closes, stays]
  exact List.cons_ne_nil _ _

/-- Some letters of the element are completed to its end tag; all of them, to another word. -/
theorem exposed_endName (known : element ∈ ["script".toList, "style".toList])
    (phase : ScriptPhase) {letters : Text} (begins : Text.lower letters <+: element) :
    (rawEndName (.script element phase) letters).Exposed := by
  have text : ∀ {phase}, Token.tags ((raw (.script element phase)).run ['>']) = [] :=
    tags_run_script_of_not_mem (by decide)
  obtain ⟨more, whole⟩ := begins
  have plain : ∀ c ∈ more, _ := fun c member =>
    plain_of_known known c (whole ▸ List.mem_append_right _ member)
  by_cases complete : more = []
  · subst complete
    rw [List.append_nil] at whole
    refine ⟨['.'], ['>'], ?_⟩
    have step : (rawEndName (.script element phase) letters).step '.' = emitting
        (Token.characters ('<' :: '/' :: letters)) ((raw (.script element phase)).step '.') := by
      have ends : Text.isLetter '.' = false ∧ Text.isBlank '.' = false := by decide
      show stepRawEndName (.script element phase) letters '.' = _
      simp [stepRawEndName, ends, step]
    have stays : Token.tags ((rawEndName (.script element phase) letters).run ['.', '>']) = [] := by
      rw [tags_run_of_step (.script element phase) _ step]
      exact tags_run_script_of_not_mem (by decide)
    have closes := tags_run_endName (.script element phase) whole
    intro same
    have absurdity : [] = [Token.endTag element] := stays.symm.trans (same.trans closes)
    exact List.cons_ne_nil _ _ absurdity.symm
  · have escaped : Text.escape more = more := by
      rw [Text.escape, List.flatMap_congr fun c member => (plain c member).2.1]
      exact List.flatMap_singleton' more
    have lowered : Text.lower (letters ++ more) = element := by
      have kept : more.map Text.lowerChar = more :=
        (List.map_congr_left fun c member => (plain c member).2.2).trans (List.map_id more)
      rw [Text.lower, List.map_append, kept]
      exact whole
    have other : Text.lower letters ≠ element := by
      intro same
      rw [← whole] at same
      exact complete (List.self_eq_append_right.mp same)
    have starts : ∀ c ∈ ['>'].head?, Text.isLetter c = false := by
      intro c member
      cases member
      decide
    refine ⟨more, ['>'], ?_⟩
    rw [escaped, run_rawEndName (fun c member => (plain c member).1),
      tags_run_endName (.script element phase) lowered,
      tags_run_strange (.script element phase) other starts, text]
    exact List.cons_ne_nil _ _

/-- The sheltered places in the content of an element are those where no text changes the tags. -/
theorem sheltered_iff (known : element ∈ ["script".toList, "style".toList]) {phase : ScriptPhase}
    {held : Text} (inside : state.Raw (.script element phase) none held) :
    state.Sheltered element ↔ ¬ state.Exposed := by
  constructor
  · rintro sheltered ⟨v, rest, differ⟩
    exact differ (sheltered.tags_run_escape v rest)
  · intro same
    cases inside with
    | plain =>
      by_cases plain : phase = .plain
      · subst plain
        exact .content
      · obtain ⟨v, rest, itself, _, _, differ⟩ := exists_exposing known plain
        exact absurd ⟨v, rest, by rwa [itself]⟩ same
    | less => exact absurd (exposed_less known phase) same
    | endOpen => exact absurd (exposed_endOpen known phase) same
    | endName content letters =>
      by_cases begins : Text.lower letters <+: element
      · exact absurd (exposed_endName known phase begins) same
      by_cases plain : phase = .plain
      · subst plain
        exact .word begins
      · obtain ⟨v, rest, itself, starts, starts', differ⟩ := exists_exposing known plain
        have other : Text.lower letters ≠ element := ne_of_strange begins
        refine absurd ⟨v, rest, ?_⟩ same
        rwa [itself, tags_run_strange (.script element phase) other starts,
          tags_run_strange (.script element phase) other starts']

end State

end HtmlTemplate

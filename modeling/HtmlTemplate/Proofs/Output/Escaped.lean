import HtmlTemplate.Proofs.Output.Slot
import HtmlTemplate.Proofs.Template.Joined
import HtmlTemplate.Proofs.Template.Slots

/-!
# Reading escaped text back

`Text.escape` writes a text so that the tokenizer takes every character of it for itself. This holds
in each place where a value is put: in ordinary text, in the content of `textarea` and `title`, and
between the quotation marks of an attribute value. What is said of one character holds of a text by
induction, in the middle of whatever else is read.

The tokenizer reads line ends as line feeds before anything else, and outside ordinary text it
replaces nulls; a text is read back up to these two.
-/

namespace HtmlTemplate

namespace Text

/-- A character is written as itself, unless it is one of the five that mean something. -/
theorem escapeChar_cases (c : Char) :
    (escapeChar c = [c] ∧ c ≠ '&' ∧ c ≠ '<' ∧ c ≠ '"' ∧ c ≠ '\'') ∨
      c = '&' ∨ c = '<' ∨ c = '>' ∨ c = '"' ∨ c = '\'' := by
  by_cases ampersand : c = '&'
  · exact .inr (.inl ampersand)
  by_cases less : c = '<'
  · exact .inr (.inr (.inl less))
  by_cases greater : c = '>'
  · exact .inr (.inr (.inr (.inl greater)))
  by_cases double : c = '"'
  · exact .inr (.inr (.inr (.inr (.inl double))))
  by_cases single : c = '\''
  · exact .inr (.inr (.inr (.inr (.inr single))))
  · refine .inl ⟨?_, ampersand, less, double, single⟩
    simp only [escapeChar, ampersand, less, greater, double, single, if_false]

theorem escape_cons (c : Char) (s : Text) : escape (c :: s) = escapeChar c ++ escape s := rfl

/-- No reference contains a line end. -/
theorem eq_of_mem_escapeChar {c d : Char} (member : d ∈ escapeChar c)
    (line : d = '\r' ∨ d = '\n') : d = c := by
  rcases escapeChar_cases c with ⟨same, _⟩ | rfl | rfl | rfl | rfl | rfl
  · rw [same] at member
    exact List.mem_singleton.mp member
  all_goals
    rcases line with rfl | rfl <;> exact absurd member (by decide)

theorem escapeChar_ne_nil (c : Char) : escapeChar c ≠ [] := by
  rcases escapeChar_cases c with ⟨same, _⟩ | rfl | rfl | rfl | rfl | rfl
  · simp [same]
  all_goals decide

/-- An escaped text starts with a line feed only if the text does. -/
theorem of_escape_eq_line {s rest : Text} (h : escape s = '\n' :: rest) :
    ∃ after, s = '\n' :: after := by
  cases s with
  | nil => cases h
  | cons c s =>
    obtain ⟨d, others, first⟩ := List.exists_cons_of_ne_nil (escapeChar_ne_nil c)
    rw [escape_cons, first] at h
    obtain ⟨rfl, _⟩ := List.cons.inj h
    have itself : '\n' = c := eq_of_mem_escapeChar (by simp [first]) (.inr rfl)
    exact ⟨s, by rw [itself]⟩

/-- Line ends can be read before or after a text is escaped. -/
theorem normalizeNewlines_escape (s : Text) :
    normalizeNewlines (escape s) = escape (normalizeNewlines s) := by
  induction s using normalizeNewlines.induct with
  | case1 s ih =>
    have written : escape ('\r' :: '\n' :: s) = '\r' :: '\n' :: escape s := rfl
    rw [written, normalizeNewlines, normalizeNewlines, ih]
    rfl
  | case2 s none ih =>
    have written : escape ('\r' :: s) = '\r' :: escape s := rfl
    have other : ∀ rest, escape s = '\n' :: rest → False := by
      intro rest same
      obtain ⟨after, begins⟩ := of_escape_eq_line same
      exact none after begins
    rw [written, normalizeNewlines_return other, normalizeNewlines_return none, ih]
    rfl
  | case3 c s _ notReturn ih =>
    have inert : ∀ d ∈ escapeChar c, d ≠ '\r' := by
      intro d member same
      exact notReturn ((eq_of_mem_escapeChar member (.inl same)).symm.trans same)
    rw [escape_cons, normalizeNewlines_inert inert, ih, normalizeNewlines_cons notReturn,
      escape_cons]
  | case4 => rfl

end Text

/-! ## One character -/

namespace State

theorem run_data_escapeChar (c : Char) (rest : Text) :
    data.run (Text.escapeChar c ++ rest) = .character c :: data.run rest := by
  rcases Text.escapeChar_cases c with ⟨same, ampersand, less, _⟩ | rfl | rfl | rfl | rfl | rfl
  · have step : data.step c = (data, [.character c]) := by
      simp [State.step, stepData, ampersand, less]
    simp [same, run, step]
  all_goals rfl

theorem run_raw_escapeChar (element : Text) (c : Char) (rest : Text) :
    (raw (.plain element)).run (Text.escapeChar c ++ rest) =
      .character (kept c) :: (raw (.plain element)).run rest := by
  rcases Text.escapeChar_cases c with ⟨same, ampersand, less, _⟩ | rfl | rfl | rfl | rfl | rfl
  · have step : (raw (.plain element)).step c =
        (raw (.plain element), [.character (kept c)]) := by
      simp [State.step, stepRaw, ampersand, less]
    simp [same, run, step]
  all_goals rfl

theorem run_value_escapeChar (tag : Tag) (name : Text) {quote : Quote} (quoted : quote ≠ .none)
    (before : Text) (c : Char) (rest : Text) :
    (value tag name quote before).run (Text.escapeChar c ++ rest) =
      (value tag name quote (before ++ [kept c])).run rest := by
  rcases Text.escapeChar_cases c with
    ⟨same, ampersand, _, double, single⟩ | rfl | rfl | rfl | rfl | rfl
  · have step : (value tag name quote before).step c =
        (value tag name quote (before ++ [kept c]), []) := by
      cases quote with
      | none => exact absurd rfl quoted
      | _ => simp [State.step, stepValue, ampersand, double, single]
    simp [same, run, step]
  all_goals rfl

/-! ## A text -/

theorem run_data_escape (s rest : Text) :
    data.run (Text.escape s ++ rest) = Token.characters s ++ data.run rest := by
  induction s with
  | nil => rfl
  | cons c s ih =>
    rw [Text.escape_cons, List.append_assoc, run_data_escapeChar, ih]
    rfl

theorem run_raw_escape (element s rest : Text) :
    (raw (.plain element)).run (Text.escape s ++ rest) =
      Token.characters (s.map kept) ++ (raw (.plain element)).run rest := by
  induction s with
  | nil => rfl
  | cons c s ih =>
    rw [Text.escape_cons, List.append_assoc, run_raw_escapeChar, ih]
    rfl

theorem run_value_escape (tag : Tag) (name : Text) {quote : Quote} (quoted : quote ≠ .none)
    (before s rest : Text) :
    (value tag name quote before).run (Text.escape s ++ rest) =
      (value tag name quote (before ++ s.map kept)).run rest := by
  induction s generalizing before with
  | nil => simp [Text.escape]
  | cons c s ih =>
    rw [Text.escape_cons, List.append_assoc, run_value_escapeChar tag name quoted, ih]
    simp

end State

/-! ## Events -/

namespace Event

/-- The event of a text, which is none when there is no text. -/
def ofText : Text → List Event
  | [] => []
  | c :: s => [text (c :: s)]

/-- A character joins the text that follows it. -/
def joinCharacter (c : Char) : List Event → List Event
  | text s :: events => text (c :: s) :: events
  | events => text [c] :: events

/-- Characters before a mark are one text. -/
theorem ofTokens_characters_append (r : Text) {rest : List Token}
    (other : ∀ d, rest.head? ≠ some (.character d)) :
    ofTokens (Token.characters r ++ rest) = ofText r ++ ofTokens rest := by
  cases r with
  | nil => rfl
  | cons c r => exact ofTokens_characters c r other

theorem ofTokens_cons {token : Token} (mark : ∀ c, token ≠ .character c) (rest : List Token) :
    ofTokens (token :: rest) = ofMark token ++ ofTokens rest := by
  rw [ofTokens]
  intro c d others same
  exact absurd same (mark c)

/-- The events of a mark do not begin with a text. -/
theorem joinCharacter_ofMark (c : Char) {token : Token} (mark : ∀ d, token ≠ .character d)
    (events : List Event) :
    joinCharacter c (ofMark token ++ events) = text [c] :: (ofMark token ++ events) := by
  cases token with
  | character d => exact absurd rfl (mark d)
  | comment data =>
    simp only [ofMark, ofComment]
    split
    · rfl
    · rfl
    · split <;> rfl
  | _ => rfl

theorem ofTokens_joinCharacter (c : Char) (rest : List Token) :
    ofTokens (.character c :: rest) = joinCharacter c (ofTokens rest) := by
  cases rest with
  | nil => rfl
  | cons token rest =>
    by_cases character : ∃ d, token = .character d
    · obtain ⟨d, rfl⟩ := character
      rw [ofTokens]
      cases ofTokens (.character d :: rest) with
      | nil => rfl
      | cons event events => cases event <;> rfl
    · have mark : ∀ d, token ≠ .character d := fun d same => character ⟨d, same⟩
      have other : ∀ d, (token :: rest).head? ≠ some (.character d) := by
        intro d same
        exact mark d (Option.some.inj same)
      have apart := ofTokens_characters_append [c] other
      rw [ofTokens_cons mark, joinCharacter_ofMark c mark, ← ofTokens_cons mark]
      exact apart

theorem mem_joinCharacter {event : Event} {c : Char} {events : List Event}
    (h : event ∈ joinCharacter c events) : (∃ s, event = text s) ∨ event ∈ events := by
  unfold joinCharacter at h
  split at h
  · exact (List.mem_cons.mp h).imp (fun same => ⟨_, same⟩) (List.mem_cons_of_mem _)
  · exact (List.mem_cons.mp h).imp (fun same => ⟨_, same⟩) id

/-- Every event is a text or comes from a mark. -/
theorem mem_ofTokens {event : Event} {tokens : List Token} (h : event ∈ ofTokens tokens) :
    (∃ s, event = text s) ∨ ∃ token ∈ tokens, event ∈ ofMark token := by
  induction tokens with
  | nil => cases h
  | cons token rest ih =>
    have later : event ∈ ofTokens rest →
        (∃ s, event = text s) ∨ ∃ other ∈ token :: rest, event ∈ ofMark other := by
      intro member
      rcases ih member with isText | ⟨other, known, here⟩
      · exact .inl isText
      · exact .inr ⟨other, List.mem_cons_of_mem token known, here⟩
    by_cases character : ∃ c, token = .character c
    · obtain ⟨c, rfl⟩ := character
      rw [ofTokens_joinCharacter] at h
      exact (mem_joinCharacter h).elim .inl later
    · have mark : ∀ c, token ≠ .character c := fun c same => character ⟨c, same⟩
      rw [ofTokens_cons mark] at h
      rcases List.mem_append.mp h with here | member
      · exact .inr ⟨token, List.mem_cons_self, here⟩
      · exact later member

/-- A mark parts the events before it from those after it. -/
theorem ofTokens_append_cons (earlier : List Token) {token : Token}
    (mark : ∀ c, token ≠ .character c) (rest : List Token) :
    ofTokens (earlier ++ token :: rest) = ofTokens earlier ++ (ofMark token ++ ofTokens rest) := by
  induction earlier with
  | nil => exact ofTokens_cons mark rest
  | cons first earlier ih =>
    by_cases character : ∃ c, first = .character c
    · obtain ⟨c, rfl⟩ := character
      rw [List.cons_append, ofTokens_joinCharacter, ofTokens_joinCharacter, ih]
      cases ofTokens earlier with
      | nil => exact joinCharacter_ofMark c mark _
      | cons event events => cases event <;> rfl
    · have other : ∀ c, first ≠ .character c := fun c same => character ⟨c, same⟩
      rw [List.cons_append, ofTokens_cons other, ofTokens_cons other, ih, List.append_assoc]

end Event

/-! ## Places in a page -/

/-- Markup that ends with a start tag, after the tokens of all before it: the content of an element
begins. -/
structure Opens (markup : Text) (earlier : List Token) (name : Text) (attributes : List Attribute) :
    Prop where
  last : ∃ front, markup = front ++ ['>']
  tokens : State.data.emitted (normalizeNewlines markup) =
    earlier ++ [.startTag name attributes false]
  state : State.data.after (normalizeNewlines markup) = State.content name

/-- Lines do not go across a character that ends none. -/
theorem normalizeNewlines_around {c : Char} (notLine : c ≠ '\n') (notReturn : c ≠ '\r')
    (before after : Text) :
    normalizeNewlines (before ++ c :: after) =
      normalizeNewlines before ++ c :: normalizeNewlines after := by
  rw [normalizeNewlines_append before notLine, normalizeNewlines_cons notReturn]

theorem Token.read_escape (s : Text) :
    Token.read (Text.escape s) = Token.characters (normalizeNewlines s) := by
  have whole := State.run_data_escape (normalizeNewlines s) []
  simp only [List.append_nil, State.run, State.finish] at whole
  rw [Token.read, Text.normalizeNewlines_escape, whole]

/-- The content of an element that holds references and no tags goes up to its end tag. -/
theorem Token.read_element {opening : Text} {earlier : List Token} {element : Text}
    {attributes : List Attribute} (opens : Opens opening earlier element attributes)
    (known : element ∈ ["textarea".toList, "title".toList]) (s rest : Text) :
    Token.read (opening ++ (Text.escape s ++ ('<' :: '/' :: element ++ '>' :: rest))) =
      earlier ++ .startTag element attributes false ::
        (Token.characters ((normalizeNewlines s).map State.kept) ++
          .endTag element :: Token.read rest) := by
  obtain ⟨front, rfl⟩ := opens.last
  have lines : normalizeNewlines
      (front ++ ['>'] ++ (Text.escape s ++ ('<' :: '/' :: element ++ '>' :: rest))) =
      normalizeNewlines (front ++ ['>']) ++ (Text.escape (normalizeNewlines s) ++
        ('<' :: '/' :: element ++ '>' :: normalizeNewlines rest)) := by
    have first := normalizeNewlines_around (c := '>') (by decide) (by decide) front
    have name : ∀ c ∈ '/' :: element, c ≠ '\r' := by
      rintro c member rfl
      rcases List.mem_pair.mp known with rfl | rfl <;> exact absurd member (by decide)
    have tail : normalizeNewlines ('/' :: element ++ '>' :: rest) =
        '/' :: element ++ '>' :: normalizeNewlines rest := by
      rw [normalizeNewlines_inert name, normalizeNewlines_cons (by decide)]
    have closed := normalizeNewlines_around (c := '<') (by decide) (by decide)
      (Text.escape s) ('/' :: element ++ '>' :: rest)
    rw [tail, Text.normalizeNewlines_escape] at closed
    have opened := first (Text.escape s ++ ('<' :: '/' :: element ++ '>' :: rest))
    have alone := first []
    rw [List.append_assoc, List.singleton_append, opened, alone]
    simp only [List.cons_append, List.append_assoc, normalizeNewlines, List.nil_append] at closed ⊢
    rw [closed]
  have content : State.content element = .raw (.plain element) := by
    rcases List.mem_pair.mp known with rfl | rfl <;> rfl
  have closes : ∀ rest, (State.raw (.plain element)).run ('<' :: '/' :: element ++ '>' :: rest) =
      .endTag element :: State.data.run rest := by
    rcases List.mem_pair.mp known with rfl | rfl <;> exact fun rest => rfl
  rw [Token.read, lines, State.run_append, opens.tokens, opens.state, content,
    State.run_raw_escape, closes, List.append_assoc]
  rfl

/-- A value between quotation marks goes up to the second of them. -/
theorem Token.read_value {front : Text} {tag : Tag} {name : Text}
    (place : State.data.after (normalizeNewlines front) = .beforeValue tag name) {mark : Char}
    (known : mark ∈ ['"', '\'']) (s rest : Text) :
    Token.read (front ++ mark :: (Text.escape s ++ mark :: rest)) =
      State.data.emitted (normalizeNewlines front) ++
        (State.afterValue (tag.withAttribute name ((normalizeNewlines s).map State.kept))).run
          (normalizeNewlines rest) := by
  have solid : mark ≠ '\n' ∧ mark ≠ '\r' := by
    rcases List.mem_pair.mp known with rfl | rfl <;> decide
  have lines : normalizeNewlines (front ++ mark :: (Text.escape s ++ mark :: rest)) =
      normalizeNewlines front ++
        mark :: (Text.escape (normalizeNewlines s) ++ mark :: normalizeNewlines rest) := by
    rw [normalizeNewlines_around solid.1 solid.2, normalizeNewlines_around solid.1 solid.2,
      Text.normalizeNewlines_escape]
  have quoted : ∃ quote, quote ≠ Quote.none ∧ (∀ rest, (State.beforeValue tag name).run
      (mark :: rest) = (State.value tag name quote []).run rest) ∧ ∀ text rest,
      (State.value tag name quote text).run (mark :: rest) =
        (State.afterValue (tag.withAttribute name text)).run rest := by
    rcases List.mem_pair.mp known with rfl | rfl
    · exact ⟨.double, by decide, fun rest => rfl, fun text rest => rfl⟩
    · exact ⟨.single, by decide, fun rest => rfl, fun text rest => rfl⟩
  obtain ⟨quote, some, opens, closes⟩ := quoted
  rw [Token.read, lines, State.run_append, place, opens,
    State.run_value_escape tag name some, closes, List.nil_append]

namespace Slot

/-- Text is escaped in content and in every attribute that takes text. -/
theorem written_str (options : Options) {kind : SlotKind}
    (known : kind ∈ [.event, .style, .generic, .content]) (s : Text) :
    written options kind (.str s) = pure (.ok (Text.escape s)) := by
  simp only [List.mem_cons, List.not_mem_nil, or_false] at known
  rcases known with rfl | rfl | rfl | rfl
  · cases s <;> rfl
  all_goals rfl

end Slot

/-- Escaped text is read back as exactly the text: as a text of its own or within another, as the
content of an element without tags, and as the value of an attribute between either quotation marks,
whatever stands around it. This is how text is written in content and in attributes. -/
theorem Text.escape_read_back (s : Text) :
    Event.read (Text.escape s) = Event.ofText (normalizeNewlines s) ++ [.endOfInput] ∧
    (∀ opening earlier element attributes rest, Opens opening earlier element attributes →
      element ∈ ["textarea".toList, "title".toList] →
      Event.read (opening ++ (Text.escape s ++ ('<' :: '/' :: element ++ '>' :: rest))) =
        Event.ofTokens earlier ++ .openTag element attributes ::
          (Event.ofText ((normalizeNewlines s).map State.kept) ++
            .closeTag element :: Event.read rest)) ∧
    (∀ front tag name mark rest,
      State.data.after (normalizeNewlines front) = .beforeValue tag name → mark ∈ ['"', '\''] →
      Token.read (front ++ mark :: (Text.escape s ++ mark :: rest)) =
        State.data.emitted (normalizeNewlines front) ++
          (State.afterValue (tag.withAttribute name ((normalizeNewlines s).map State.kept))).run
            (normalizeNewlines rest)) ∧
    (∀ rest, State.data.run (normalizeNewlines (Text.escape s) ++ rest) =
      Token.characters (normalizeNewlines s) ++ State.data.run rest) ∧
    ∀ options, ∀ kind ∈ [.event, .style, .generic, .content],
      Slot.written options kind (.str s) = pure (.ok (Text.escape s)) := by
  refine ⟨?_, ?_, ?_, ?_, fun options kind known => Slot.written_str options known s⟩
  · have none : ∀ d, ([] : List Token).head? ≠ some (.character d) := fun d same => by cases same
    have texts := Event.ofTokens_characters_append (normalizeNewlines s) none
    rw [List.append_nil] at texts
    rw [Event.read, Token.read_escape, texts]
    simp [Event.ofTokens]
  · intro opening earlier element attributes rest opens known
    have startMark : ∀ c, Token.startTag element attributes false ≠ .character c := by
      intro c same
      cases same
    have endMark : ∀ c, Token.endTag element ≠ .character c := by
      intro c same
      cases same
    have other : ∀ d, (Token.endTag element :: Token.read rest).head? ≠ some (.character d) := by
      intro d same
      cases same
    rw [Event.read, Token.read_element opens known, Event.ofTokens_append_cons earlier startMark,
      Event.ofTokens_characters_append _ other, Event.ofTokens_cons endMark, Event.read]
    simp [Event.ofMark]
  · intro front tag name mark rest place known
    exact Token.read_value place known s rest
  · intro rest
    rw [Text.normalizeNewlines_escape, State.run_data_escape]

/-- Markup that looks like references, line ends and a null, in each place. -/
theorem Text.escape_read_back_mixed :
    Event.read (Text.escape "&lt<\r\n\x00".toList) =
      [.text ['&', 'l', 't', '<', '\n', '\x00'], .endOfInput] ∧
    Opens "<textarea>".toList [] "textarea".toList [] ∧
    Event.read ("<textarea>".toList ++
        (Text.escape "&lt<\r\n\x00".toList ++ ('<' :: '/' :: "textarea".toList ++ '>' :: []))) =
      [.openTag "textarea".toList [], .text ['&', 'l', 't', '<', '\n', '\ufffd'],
        .closeTag "textarea".toList, .endOfInput] ∧
    State.data.after (normalizeNewlines "<p title=".toList) =
      .beforeValue ⟨false, "p".toList, []⟩ "title".toList ∧
    Token.read ("<p title=".toList ++
        '"' :: (Text.escape "&lt<\r\n\x00".toList ++ '"' :: ['>'])) =
      [.startTag "p".toList
        [⟨"title".toList, ['&', 'l', 't', '<', '\n', '\ufffd']⟩] false] := by
  obtain ⟨alone, inside, quoted, _, _⟩ := Text.escape_read_back "&lt<\r\n\x00".toList
  have opens : Opens "<textarea>".toList [] "textarea".toList [] :=
    ⟨⟨"<textarea".toList, rfl⟩, rfl, rfl⟩
  have place : State.data.after (normalizeNewlines "<p title=".toList) =
      .beforeValue ⟨false, "p".toList, []⟩ "title".toList := rfl
  exact ⟨alone, opens, inside _ _ _ _ [] opens (by decide), place,
    quoted _ _ _ '"' ['>'] place (by decide)⟩

end HtmlTemplate

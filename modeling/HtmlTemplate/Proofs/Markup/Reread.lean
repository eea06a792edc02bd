import HtmlTemplate.Proofs.Markup.Mapped
import HtmlTemplate.Proofs.Markup.Rewritten
import HtmlTemplate.Proofs.Markup.Unmarked
import HtmlTemplate.Proofs.Template.StartTag

/-!
# Markup that is read again

Markup that is written from events (`Event.WrittenAs`) is read as these events again, with line
feeds for all line ends (`Event.WrittenAs.read`). End tags of elements without content are not
written (`Event.stays`), and the texts that are beside each other without them are one text.
-/

namespace HtmlTemplate

open State (null)

/-! ## Start tags -/

/-- A name that is written without a value begins with a character after the equals sign. -/
theorem Vocabulary.exists_of_isBareAttribute {name : Text} (h : isBareAttribute name = true) :
    ∃ c rest, name = c :: rest ∧ '=' < c := by
  have extended : ∀ {c : Char} {start : Text}, '=' < c → extendsBySmall (c :: start) name = true →
      ∃ d rest, name = d :: rest ∧ '=' < d := by
    intro c start greater longer
    unfold extendsBySmall at longer
    split at longer
    · rename_i found
      exact ⟨c, _, Text.strip?_eq_some.mp found, greater⟩
    · cases longer
  simp only [isBareAttribute, isBooleanAttribute, isEventAttribute, Bool.or_eq_true] at h
  rcases h with event | allow | listed
  · exact extended (by decide) event
  · exact extended (by decide) allow
  · have heads : ∀ known ∈ booleanAttributes, known.head?.any ('=' < ·) = true := by decide
    have head := heads name (List.contains_iff_mem.mp listed)
    cases name with
    | nil => cases head
    | cons c rest => exact ⟨c, rest, rfl, of_decide_eq_true head⟩

namespace Draft

theorem name_printedLiteral (a : Attribute) : (printedLiteral a).name = a.name := by
  unfold printedLiteral
  split <;> rfl

/-- In the order of their names, no attribute is taken for the value of the one before it. -/
theorem apart_printedLiteral {a b : Attribute} (less : a.name < b.name) :
    (printedLiteral a).Apart (printedLiteral b) := by
  unfold Printed.Apart
  split
  · rename_i bare same
    rw [name_printedLiteral]
    unfold printedLiteral at same
    split at same
    · rename_i known
      obtain ⟨c, rest, first, greater⟩ := Vocabulary.exists_of_isBareAttribute known.2
      intro equals
      obtain ⟨others, second⟩ := List.head?_eq_some_iff.mp equals
      rw [first, second, List.cons_lt_cons_iff] at less
      rcases less with smaller | ⟨rfl, _⟩
      · exact lt_asymm smaller greater
      · exact lt_irrefl _ greater
    · cases same
  · trivial

end Draft

/-! ## End tags and document types -/

theorem ne_return_of_solid {c : Char} (solid : Text.isBlank c = false) : c ≠ '\r' := by
  rintro rfl
  exact absurd solid (by decide)

theorem TagName.inert_endTagText {name : Text} (known : TagName name) :
    ∀ c ∈ endTagText name, c ≠ '\r' := by
  intro c member
  rcases List.mem_append.mp member with opening | ending
  · rcases List.mem_cons.mp opening with rfl | opening
    · decide
    rcases List.mem_cons.mp opening with rfl | inside
    · decide
    · exact ne_return_of_solid (known.characters c inside).solid
  · rw [List.mem_singleton.mp ending]
    decide

theorem DoctypeName.inert_doctypeText {name : Text} (known : DoctypeName name) :
    ∀ c ∈ doctypeText name, c ≠ '\r' := by
  intro c member
  rcases List.mem_append.mp member with before | ending
  · rcases List.mem_append.mp before with opening | inside
    · rintro rfl
      exact absurd opening (by decide)
    · exact ne_return_of_solid (known c inside).1
  · rw [List.mem_singleton.mp ending]
    decide

namespace State

variable {name u : Text} {attributes : List Attribute}

theorem map_kept (none : null ∉ u) : u.map kept = u := by
  have same : u.map kept = u.map id := List.map_congr_left fun c member =>
    kept_of_ne fun zero => none (zero ▸ member)
  rw [same, List.map_id]

/-- A start tag is read as it was written, with line feeds for the line ends in its values. -/
theorem run_startTagText (sound : Tag.Sound ⟨false, name, attributes⟩) (rest : Text) :
    data.run (normalizeNewlines (startTagText name attributes ++ rest)) =
      .startTag name (attributes.map (Attribute.mapValue normalizeNewlines)) false ::
        (content name).run (normalizeNewlines rest) := by
  have texts : attributes.flatMap Draft.literalAttribute =
      (attributes.map Draft.printedLiteral).flatMap Printed.text := by
    rw [List.flatMap_map]
    exact congrArg attributes.flatMap (funext fun a => (Draft.text_printedLiteral a).symm)
  have names : ∀ item ∈ attributes.map Draft.printedLiteral, AttributeName item.name := by
    intro item member
    obtain ⟨a, known, rfl⟩ := List.mem_map.mp member
    rw [Draft.name_printedLiteral]
    exact sound.named.attributes a known
  have sorted : attributes.Pairwise fun a b => a.name < b.name := sound.named.sorted
  have apart : (attributes.map Draft.printedLiteral).IsChain Printed.Apart :=
    (List.pairwise_map.mpr (sorted.imp Draft.apart_printedLiteral)).isChain
  have read : (attributes.map Draft.printedLiteral).map Printed.read =
      attributes.map (Attribute.mapValue normalizeNewlines) := by
    rw [List.map_map]
    refine List.map_congr_left fun a known => ?_
    have free : null ∉ normalizeNewlines a.value := fun member =>
      sound.nullFree a known (mem_of_mem_normalizeNewlines member (by decide))
    show (Draft.printedLiteral a).read = _
    rw [Draft.read_printedLiteral, map_kept free]
    rfl
  rw [startTagText, texts]
  refine run_startTag sound.named.name names apart ?_ (List.Perm.of_eq read) rest
  exact List.pairwise_map.mpr sorted

/-! ## End tags and document types -/

theorem run_endTagText (known : TagName name) (rest : Text) :
    data.run (endTagText name ++ rest) = .endTag name :: data.run rest := by
  obtain ⟨⟨c, more, rfl, letter⟩, characters⟩ := known
  have step : endTagOpen.step c = (tagName ⟨true, [c], []⟩, []) := by
    have small := (characters c List.mem_cons_self).lowerChar_eq letter
    simp [State.step, stepEndTagOpen, letter, small]
  have begins : data.run ('<' :: '/' :: c :: (more ++ '>' :: rest)) =
      (tagName ⟨true, [c], []⟩).run (more ++ '>' :: rest) := by
    show endTagOpen.run (c :: (more ++ '>' :: rest)) = _
    rw [run, step]
    rfl
  have split : endTagText (c :: more) ++ rest = '<' :: '/' :: c :: (more ++ '>' :: rest) := by
    simp [endTagText]
  rw [split, begins,
    run_tagName_append fun d member => characters d (List.mem_cons_of_mem c member)]
  rfl

theorem reads_doctypeOpening : Reads data "<!DOCTYPE ".toList [] (doctype .before []) := ⟨rfl, rfl⟩

theorem run_doctypeName_append {before more : Text} (known : DoctypeName more) (rest : Text) :
    (doctype .name before).run (more ++ rest) = (doctype .name (before ++ more)).run rest := by
  induction more generalizing before with
  | nil => rw [List.append_nil, List.nil_append]
  | cons c more ih =>
    obtain ⟨solid, notGreater, same⟩ := known c List.mem_cons_self
    have step : (doctype .name before).step c = (doctype .name (before ++ [c]), []) := by
      simp [State.step, stepDoctype, solid, notGreater, same]
    rw [List.cons_append, run, step]
    simp only [List.nil_append]
    rw [ih fun d member => known d (List.mem_cons_of_mem c member)]
    simp

theorem run_doctypeText (known : DoctypeName name) (rest : Text) :
    data.run (doctypeText name ++ rest) = .doctype name :: data.run rest := by
  have split : doctypeText name ++ rest = "<!DOCTYPE ".toList ++ (name ++ '>' :: rest) := by
    unfold doctypeText
    rw [List.append_assoc, List.append_assoc, List.singleton_append]
  have read : (doctype .before []).run (name ++ '>' :: rest) = .doctype name :: data.run rest := by
    cases name with
    | nil => rfl
    | cons c name =>
      obtain ⟨solid, notGreater, same⟩ := known c List.mem_cons_self
      have step : (doctype .before []).step c = (doctype .name [c], []) := by
        simp [State.step, stepDoctype, solid, notGreater, same]
      rw [List.cons_append, run, step]
      simp only [List.nil_append]
      rw [run_doctypeName_append fun d member => known d (List.mem_cons_of_mem c member)]
      rfl
  rw [split, reads_doctypeOpening.run, read]
  rfl

/-- Elements with content of their own have an end tag. -/
theorem isVoid_eq_false_of_content (raw : content name ≠ data) :
    Vocabulary.isVoid name = false := by
  unfold content at raw
  split at raw
  · rename_i script
    rcases script with rfl | rfl <;> rfl
  · split at raw
    · rename_i title
      rcases title with rfl | rfl <;> rfl
    · exact absurd rfl raw

/-- Text that is written before something other than a line feed is read for itself. -/
theorem run_escapeText (p : Text) {markup : Text} (other : markup.head? ≠ some '\n') :
    data.run (normalizeNewlines (Text.escapeText p ++ markup)) =
      Token.characters (normalizeNewlines p) ++ data.run (normalizeNewlines markup) := by
  rw [normalizeNewlines_append_of_not_across fun across => other across.2,
    Text.normalizeNewlines_escapeText, (reads_data_escapeText _).run]

end State

/-! ## Events -/

namespace Event

/-- Whether an event leaves something in a template: end tags of elements without content leave
nothing. -/
def stays : Event → Bool
  | closeTag name => !Vocabulary.isVoid name
  | _ => true

/-- The event with line feeds for all line ends in its text or its values. -/
def lines : Event → Event
  | text u => text (normalizeNewlines u)
  | event => event.mapValues normalizeNewlines

variable {first events : List Event} {event : Event} {written markup : Text}

theorem lines_ofText (u : Text) : (ofText u).map lines = ofText (normalizeNewlines u) := by
  cases u with
  | nil => rfl
  | cons c u =>
    cases same : normalizeNewlines (c :: u) with
    | nil => cases normalizeNewlines_eq_nil same
    | cons d v =>
      show [text (normalizeNewlines (c :: u))] = _
      rw [same]
      rfl

theorem joinText_append (s t : Text) (events : List Event) :
    joinText (s ++ t) events = joinText s (joinText t events) := by
  cases events with
  | nil => rfl
  | cons event events =>
    cases event with
    | text u => exact congrArg (fun u => text u :: events) (List.append_assoc s t u)
    | _ => rfl

/-- A text before another text is one text with it. -/
theorem joinTexts_ofText_text (p : Text) (c : Char) (u : Text) (events : List Event) :
    joinTexts (ofText p ++ text (c :: u) :: events) =
      joinTexts (ofText (p ++ c :: u) ++ events) := by
  cases p with
  | nil => rfl
  | cons d p => exact (joinText_append (d :: p) (c :: u) (joinTexts events)).symm

/-- A text before something else is a text of its own. -/
theorem joinTexts_ofText_cons (p : Text) (other : ∀ s, event ≠ text s) (events : List Event) :
    joinTexts (ofText p ++ event :: events) = ofText p ++ event :: joinTexts events := by
  cases p with
  | nil => exact joinTexts_cons other events
  | cons c p =>
    show joinText (c :: p) (joinTexts (event :: events)) = _
    rw [joinTexts_cons other]
    cases event with
    | text s => exact absurd rfl (other s)
    | _ => rfl

namespace Construct

theorem head?_ne (h : Construct first written) (rest : Text) :
    (written ++ rest).head? ≠ some '\n' := by
  cases h <;> exact fun same => by cases same

theorem stays (h : Construct first written) : ∀ event ∈ first, event.stays = true := by
  intro event member
  cases h with
  | startTag _ _ | doctype _ => rw [List.mem_singleton.mp member]; rfl
  | endTag _ solid =>
    rw [List.mem_singleton.mp member, Event.stays, solid]
    rfl
  | @element name t _ _ raw _ =>
    rcases List.mem_cons.mp member with rfl | member
    · rfl
    rcases List.mem_append.mp member with inside | last
    · cases t with
      | nil => cases inside
      | cons c t => rw [List.mem_singleton.mp inside]; rfl
    · rw [List.mem_singleton.mp last, Event.stays, State.isVoid_eq_false_of_content raw]
      rfl

/-- Texts around a construct stay apart from those in it. -/
theorem joinTexts (h : Construct first written) (p : Text) (events : List Event) :
    Event.joinTexts (ofText p ++ (first ++ events)) =
      ofText p ++ (first ++ Event.joinTexts events) := by
  cases h with
  | startTag _ _ | endTag _ _ | doctype _ =>
    exact joinTexts_ofText_cons p (fun _ same => by cases same) events
  | @element name t attributes _ _ _ =>
    have closes : Event.joinTexts (ofText t ++ closeTag name :: events) = _ :=
      joinTexts_ofText_cons t (fun _ same => by cases same) events
    have opens : Event.joinTexts (ofText p ++ openTag name attributes ::
        (ofText t ++ closeTag name :: events)) = _ :=
      joinTexts_ofText_cons p (fun _ same => by cases same) _
    rw [closes] at opens
    simpa using opens

/-- A construct is read as its events, wherever it stands. -/
theorem read (h : Construct first written) (rest : Text) :
    ∃ token tokens, (∀ c, token ≠ .character c) ∧
      State.data.run (normalizeNewlines (written ++ rest)) =
        token :: (tokens ++ State.data.run (normalizeNewlines rest)) ∧
      ∀ later, ofTokens (token :: (tokens ++ later)) = first.map lines ++ ofTokens later := by
  cases h with
  | @startTag name attributes sound content =>
    refine ⟨.startTag name _ false, [], (fun _ same => by cases same), ?_,
      fun later => ofTokens_cons (fun _ same => by cases same) later⟩
    rw [State.run_startTagText sound, content]
    rfl
  | @endTag name known _ =>
    refine ⟨.endTag name, [], (fun _ same => by cases same), ?_,
      fun later => ofTokens_cons (fun _ same => by cases same) later⟩
    rw [normalizeNewlines_inert known.inert_endTagText, State.run_endTagText known]
    rfl
  | @element name t attributes sound raw rereads =>
    refine ⟨.startTag name (attributes.map (Attribute.mapValue normalizeNewlines)) false,
      Token.characters (normalizeNewlines t) ++ [.endTag name], (fun _ same => by cases same), ?_,
      fun later => ?_⟩
    · have apart : ¬LineAcross (contentText name t ++ endTagText name) rest := by
        rintro ⟨last, _⟩
        rw [endTagText, ← List.append_assoc, List.getLast?_concat] at last
        cases last
      rw [List.append_assoc, State.run_startTagText sound,
        normalizeNewlines_append_of_not_across apart, rereads.closed.run]
    · have closes :
          ofTokens (Token.characters (normalizeNewlines t) ++ .endTag name :: later) = _ :=
        ofTokens_characters_append (normalizeNewlines t) (by simp)
      rw [ofTokens_cons fun _ same => by cases same] at closes ⊢
      rw [List.append_assoc, List.singleton_append, closes, List.map_cons, List.map_append,
        lines_ofText]
      simp [ofMark, lines, mapValues]
  | @doctype name known =>
    refine ⟨.doctype name, [], (fun _ same => by cases same), ?_,
      fun later => ofTokens_cons (fun _ same => by cases same) later⟩
    rw [normalizeNewlines_inert known.inert_doctypeText, State.run_doctypeText known]
    rfl

end Construct

/-- Events that are written as text and markup are read as themselves, with line feeds for all line
ends. The text before them that is written already is `p`. -/
theorem WrittenAs.read_after (h : WrittenAs events markup) (p : Text) :
    ofTokens (State.data.run (normalizeNewlines (Text.escapeText p ++ markup))) =
      (joinTexts (ofText p ++ events.filter stays)).map lines := by
  induction h generalizing p with
  | nil =>
    have read := (State.reads_data_escapeText (normalizeNewlines p)).run []
    have texts : ofTokens (Token.characters (normalizeNewlines p) ++ []) =
        ofText _ ++ ofTokens [] :=
      ofTokens_characters_append _ (by simp)
    have alone : joinTexts (ofText p) = ofText p := by cases p <;> rfl
    rw [List.append_nil, State.run, State.finish] at read
    rw [List.append_nil, Text.normalizeNewlines_escapeText, read, texts, List.filter_nil,
      List.append_nil, alone, lines_ofText]
    exact List.append_nil _
  | @text events markup c u _ ih =>
    -- What follows may be an end tag that leaves nothing and then more text, so the text is not
    -- read yet.
    have joined := ih (p ++ c :: u)
    have stay : (Event.text (c :: u) :: events).filter stays =
        Event.text (c :: u) :: events.filter stays := rfl
    rw [stay, joinTexts_ofText_text, ← joined, Text.escapeText, Text.escapeText, Text.escapeText,
      List.flatMap_append, List.append_assoc]
  | @nothing events markup name void _ ih =>
    have gone : (closeTag name :: events).filter stays = events.filter stays :=
      List.filter_cons_of_neg (by simp [stays, void])
    rw [gone]
    exact ih p
  | @construct first events written markup construct _ ih =>
    obtain ⟨token, tokens, mark, read, told⟩ := construct.read markup
    have kept : first.filter stays = first := List.filter_eq_self.mpr construct.stays
    have later : ofTokens (State.data.run (normalizeNewlines markup)) = _ := ih []
    rw [State.run_escapeText p (construct.head?_ne markup), read,
      ofTokens_characters_append _ fun c => ?_, told, later, List.filter_append, kept,
      construct.joinTexts,
      List.map_append, List.map_append, lines_ofText]
    · rfl
    · simpa using mark c
  | @cut name t attributes sound raw rereads =>
    have less : (startTagText name attributes ++ contentText name t).head? ≠
        some '\n' := fun same => by
      cases same
    have inside : ofTokens (Token.characters (normalizeNewlines t) ++ []) = _ :=
      ofTokens_characters_append (normalizeNewlines t) (by simp)
    have kept : (openTag name attributes :: ofText t).filter stays =
        openTag name attributes :: ofText t := by cases t <;> rfl
    have alone : joinTexts (ofText t) = ofText t := by cases t <;> rfl
    rw [List.append_nil] at inside
    rw [State.run_escapeText p less, State.run_startTagText sound, rereads,
      ofTokens_characters_append _ (by simp),
      ofTokens_cons (fun _ same => by cases same), inside, kept,
      joinTexts_ofText_cons p (fun _ same => by cases same), alone, List.map_append, List.map_cons,
      lines_ofText, lines_ofText]
    simp [ofMark, lines, mapValues, ofTokens]

/-- Markup that is written from events is read as the events that are written, with texts beside
each other as one and line feeds for all line ends. -/
theorem WrittenAs.read (h : WrittenAs events markup) :
    Event.read markup = (joinTexts ((events ++ [endOfInput]).filter stays)).map lines := by
  have told : ofTokens (Token.read markup) = (joinTexts (events.filter stays)).map lines :=
    h.read_after []
  rw [Event.read, told, List.filter_append, show [endOfInput].filter stays = [endOfInput] from rfl,
    joinTexts_append_end, List.map_append]
  rfl

/-! ## Line ends -/

/-- The texts and values that an event tells of and that are written with references. -/
def contents : Event → List Text
  | openTag _ attributes => attributes.map Attribute.value
  | text u => [u]
  | _ => []

/-- Only carriage returns are lost when line feeds stand for all line ends. -/
theorem lines_eq_self_iff : event.lines = event ↔ ∀ u ∈ event.contents, '\r' ∉ u := by
  have plain : ∀ u, normalizeNewlines u = u ↔ '\r' ∉ u := fun u =>
    ⟨fun same => same ▸ return_not_mem_normalizeNewlines u, normalizeNewlines_eq_self⟩
  cases event with
  | openTag name attributes =>
    have values : attributes.map (Attribute.mapValue normalizeNewlines) = attributes.map id ↔
        ∀ a ∈ attributes, normalizeNewlines a.value = a.value := by
      rw [List.map_inj_left]
      exact forall₂_congr fun a _ => ⟨congrArg Attribute.value, congrArg (Attribute.mk a.name)⟩
    rw [List.map_id] at values
    simpa [lines, mapValues, contents, plain] using values
  | text u => simpa [lines, contents] using plain u
  | _ => simp [lines, mapValues, contents]

theorem flatten_contents_joinTexts (events : List Event) :
    ((joinTexts events).flatMap contents).flatten = (events.flatMap contents).flatten := by
  induction events with
  | nil => rfl
  | cons event events ih =>
    by_cases isText : ∃ s, event = text s
    · obtain ⟨s, rfl⟩ := isText
      rw [joinTexts, List.flatMap_cons, List.flatten_append, ← ih]
      cases joinTexts events with
      | nil => simp [joinText, contents]
      | cons next others => cases next <;> simp [joinText, contents]
    · rw [joinTexts_cons fun s same => isText ⟨s, same⟩, List.flatMap_cons, List.flatMap_cons,
        List.flatten_append, List.flatten_append, ih]

theorem flatten_contents_filter_stays (events : List Event) :
    ((events.filter stays).flatMap contents).flatten = (events.flatMap contents).flatten := by
  induction events with
  | nil => rfl
  | cons event events ih =>
    by_cases stay : event.stays = true
    · rw [List.filter_cons_of_pos stay, List.flatMap_cons, List.flatMap_cons, List.flatten_append,
        List.flatten_append, ih]
    · have none : event.contents = [] := by
        cases event with
        | closeTag name => rfl
        | _ => exact absurd rfl stay
      rw [List.filter_cons_of_neg stay, List.flatMap_cons, none, ih]
      rfl

/-- Line feeds stand for all line ends already, unless a text or a value has a carriage return in
it. -/
theorem map_lines_eq_self_iff (events : List Event) :
    (joinTexts (events.filter stays)).map lines = joinTexts (events.filter stays) ↔
      ∀ event ∈ events, ∀ u ∈ event.contents, '\r' ∉ u := by
  have all : ∀ others : List Event, (∀ event ∈ others, ∀ u ∈ event.contents, '\r' ∉ u) ↔
      '\r' ∉ (others.flatMap contents).flatten := by
    intro others
    simp only [List.mem_flatten, List.mem_flatMap, not_exists, not_and,
      forall_exists_index, and_imp]
    exact ⟨fun none u event member inside => none event member u inside,
      fun none event member u inside => none u event member inside⟩
  have same : (joinTexts (events.filter stays)).map lines =
      (joinTexts (events.filter stays)).map id ↔
      ∀ event ∈ joinTexts (events.filter stays), ∀ u ∈ event.contents, '\r' ∉ u := by
    rw [List.map_inj_left]
    exact forall₂_congr fun event _ => lines_eq_self_iff
  rw [List.map_id] at same
  rw [same, all, flatten_contents_joinTexts, flatten_contents_filter_stays, ← all]

/-! ## Markup without comments -/

/-- Whether an event is told of because of a comment. -/
def isRemark : Event → Bool
  | comment _ | sectionStart | sectionEnd | instruction .. => true
  | _ => false

theorem exists_isRemark_ofComment (data : Text) :
    ∃ event ∈ ofComment data, event.isRemark = true := by
  unfold ofComment
  split
  · exact ⟨_, List.mem_cons_self, rfl⟩
  · exact ⟨_, List.mem_cons_self, rfl⟩
  · split <;> exact ⟨_, List.mem_cons_self, rfl⟩

/-- Where no events are told of because of comments, there are none. -/
theorem comment_not_mem {tokens : List Token}
    (none : ∀ event ∈ ofTokens tokens, event.isRemark = false) (data : Text) :
    .comment data ∉ tokens := by
  intro member
  obtain ⟨earlier, later, rfl⟩ := List.append_of_mem member
  obtain ⟨event, inside, remark⟩ := exists_isRemark_ofComment data
  rw [ofTokens_append_cons earlier fun _ same => by cases same] at none
  have quiet := none event (List.mem_append_right _ (List.mem_append_left _ inside))
  rw [remark] at quiet
  cases quiet

end Event

end HtmlTemplate

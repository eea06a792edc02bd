import HtmlTemplate.Proofs.Template.Fits
import HtmlTemplate.Proofs.Template.StartTag

/-!
# Comments in templates

What becomes of a literal comment (`Template.comment_printed`). It is printed as it was written,
unless its data look like those of another construct: the reader of events takes a comment whose
data begin with a question mark for a processing instruction, and one whose data begin with
`[CDATA[` and end with `]]` for a character data section, and these are printed without the dashes
(`Draft.commentText`). Such a comment then ends at the first greater-than sign in it.
-/

namespace HtmlTemplate

namespace Event

/-- Whether the data of a comment look like those of another construct. -/
def Mistaken (data : Text) : Prop := (sectionText? data).isSome = true ∨ data.head? = some '?'

instance (data : Text) : Decidable (Mistaken data) :=
  inferInstanceAs (Decidable (_ ∨ _))

/-- The data of a character data section are its text in brackets. -/
theorem eq_of_sectionText? {data text : Text} (h : sectionText? data = some text) :
    data = sectionOpening ++ (text ++ [']', ']']) := by
  obtain ⟨after, opened, closed⟩ := Option.bind_eq_some_iff.mp h
  rw [Text.strip?_eq_some.mp opened, Text.stripEnd?_eq_some closed]

end Event

namespace Sentinel

variable {s : Sentinel} {u : Text}

/-- A text without a marker is none. -/
theorem slotOf?_of_firstSlotIn? (none : s.firstSlotIn? u = none) : s.slotOf? u = Option.none := by
  have absent := Text.cut?_eq_none (Option.map_eq_none_iff.mp none)
  cases found : s.slotOf? u with
  | none => rfl
  | some slot =>
    obtain ⟨after, stripped, _⟩ := Option.bind_eq_some_iff.mp found
    refine absurd ⟨[], after, ?_⟩ absent
    exact (Text.strip?_eq_some.mp stripped).symm

/-- A text without a token is not cut. -/
theorem split_of_absent (absent : ¬ s.token <:+: u) : s.split u = [.literal u] := by
  unfold split
  cases u with
  | nil => rfl
  | cons c u =>
    rw [List.length_cons, splitWithin]
    cases cut : Text.cut? s.commentOpening (c :: u) with
    | none => rfl
    | some parts =>
      have whole : s.commentOpening <:+: c :: u :=
        ⟨parts.1, parts.2, by rw [List.append_assoc]; exact (Text.cut?_eq_some cut).symm⟩
      have part : s.token <:+: s.commentOpening := ⟨['<', '!', '-', '-'], [':'], rfl⟩
      exact absurd (part.trans whole) absent

end Sentinel

namespace Draft

variable {s : Sentinel} {options : Options} {d d' d'' : Draft}

/-! ## What is written stays -/

/-- What is written in a draft stays: its chunks do, and the current one is at most added to. -/
inductive Continues (d d' : Draft) : Prop where
  | within (more : Text) :
    d'.chunks = d.chunks → d'.current = d.current ++ more → Continues d d'
  | beyond (more : Text) (rest : List Text) :
    d'.chunks = d.chunks ++ (d.current ++ more) :: rest → Continues d d'

namespace Continues

theorem same (chunks : d'.chunks = d.chunks) (current : d'.current = d.current) :
    Continues d d' :=
  .within [] chunks (by rw [current, List.append_nil])

theorem trans (h : Continues d d') (h' : Continues d' d'') : Continues d d'' := by
  cases h with
  | within more chunks current =>
    cases h' with
    | within more' chunks' current' =>
      refine .within (more ++ more') (chunks'.trans chunks) ?_
      rw [current', current, List.append_assoc]
    | beyond more' rest chunks' =>
      refine .beyond (more ++ more') rest ?_
      rw [chunks', chunks, current, List.append_assoc]
  | beyond more rest chunks =>
    cases h' with
    | within more' chunks' current' => exact .beyond more rest (chunks'.trans chunks)
    | beyond more' rest' chunks' =>
      refine .beyond more (rest ++ (d'.current ++ more') :: rest') ?_
      rw [chunks', chunks, List.append_assoc, List.cons_append]

theorem write (d : Draft) (text : Text) : Continues d (d.write text) := .within text rfl rfl

theorem pushSlot {slot : Nat} {kind : SlotKind} (h : d.pushSlot slot kind = .ok d') :
    Continues d d' := by
  unfold Draft.pushSlot at h
  split at h
  · cases h
    exact .beyond [] [] (by rw [List.append_nil])
  · cases h

/-- The chunk that was being written begins with what was written of it. -/
theorem chunk (h : Continues d d') : ∃ more,
    (d'.chunks ++ [d'.current])[d.chunks.length]? = some (d.current ++ more) := by
  cases h with
  | within more chunks current =>
    refine ⟨more, ?_⟩
    rw [chunks, current, List.getElem?_concat_length]
  | beyond more rest chunks =>
    refine ⟨more, ?_⟩
    rw [chunks, List.append_assoc, List.getElem?_append_right (Nat.le_refl _), Nat.sub_self]
    rfl

theorem writeLiterals {attributes : List Attribute} {entries : List (Nat × Text)}
    (h : Draft.writeLiterals s d attributes = .ok (d', entries)) : Continues d d' := by
  induction attributes generalizing d entries with
  | nil =>
    cases h
    exact .same rfl rfl
  | cons a rest ih =>
    rw [Draft.writeLiterals] at h
    split at h
    · cases h
    · split at h
      · obtain ⟨⟨written, later⟩, found, same⟩ := bind_eq_ok h
        cases same
        exact ih found
      · cases h
      · exact (write d _).trans (ih h)

theorem pushAttributes {entries : List (Nat × Text)}
    (h : Draft.pushAttributes options d entries = .ok d') : Continues d d' := by
  induction entries generalizing d with
  | nil =>
    cases h
    exact .same rfl rfl
  | cons entry rest ih =>
    obtain ⟨first, found, later⟩ := bind_eq_ok h
    refine trans ?_ (ih later)
    unfold pushAttribute at found
    split at found
    · exact pushSlot found
    · obtain ⟨pushed, slot, same⟩ := bind_eq_ok found
      cases same
      exact (write d _).trans ((pushSlot slot).trans (write pushed _))

theorem openTag {name : Text} {attributes : List Attribute}
    (h : Draft.openTag s options d name attributes = .ok d') : Continues d d' := by
  unfold Draft.openTag at h
  split at h
  · cases h
  · obtain ⟨⟨written, entries⟩, found, later⟩ := bind_eq_ok h
    obtain ⟨pushed, attributes, same⟩ := bind_eq_ok later
    have opened : Continues (pushed.write ['>']) d' := by
      cases same
      split <;> exact .same rfl rfl
    exact (write d _).trans ((writeLiterals found).trans
      ((pushAttributes attributes).trans ((write pushed _).trans opened)))

theorem closeTag {name : Text} (h : Draft.closeTag s d name = .ok d') : Continues d d' := by
  unfold Draft.closeTag at h
  split at h
  · cases h
  · split at h
    · cases h
      exact .same rfl rfl
    · cases h
      exact (write d _).trans (.same rfl rfl)

theorem pieces {parts : List Sentinel.Piece} (h : Draft.pieces options d parts = .ok d') :
    Continues d d' := by
  induction parts generalizing d with
  | nil =>
    cases h
    exact .same rfl rfl
  | cons piece rest ih =>
    cases piece with
    | literal text => exact (write d _).trans (ih h)
    | slot slot =>
      obtain ⟨first, found, later⟩ := bind_eq_ok h
      exact (pushSlot found).trans (ih later)

theorem minify (d : Draft) (minifier : Minifier) (language text : Text) :
    Continues d (d.minify minifier language text) := by
  unfold Draft.minify
  split
  · exact write d _
  · exact (write d text).trans (.same rfl rfl)

theorem text {content : Text} (h : Draft.text s options d content = .ok d') : Continues d d' := by
  unfold Draft.text at h
  split at h
  · cases h
    unfold plainText
    split
    · exact minify d _ _ content
    · split
      · exact minify d _ _ content
      · exact write d _
  · exact pieces h

theorem comment {data : Text} (h : Draft.comment s d data = .ok d') : Continues d d' := by
  unfold Draft.comment at h
  split at h
  · exact pushSlot h
  · cases h
  · cases h
    exact write d _

theorem take {event : Event} (other : event ≠ .endOfInput)
    (h : Draft.take s options d event = .ok d') : Continues d d' := by
  cases event with
  | openTag name attributes => exact openTag h
  | closeTag name => exact closeTag h
  | text content => exact text h
  | comment data => exact comment h
  | sectionStart =>
    cases h
    exact (write d _).trans (.same rfl rfl)
  | sectionEnd =>
    cases h
    exact (write d _).trans (.same rfl rfl)
  | instruction name data =>
    cases h
    exact write d _
  | doctype name =>
    cases h
    exact write d _
  | endOfInput => exact absurd rfl other

theorem takeAll {events : List Event} (other : .endOfInput ∉ events)
    (h : Draft.takeAll s options d events = .ok d') : Continues d d' := by
  induction events generalizing d with
  | nil =>
    cases h
    exact .same rfl rfl
  | cons event rest ih =>
    obtain ⟨first, found, later⟩ := bind_eq_ok h
    have here : event ≠ .endOfInput := by
      rintro rfl
      exact other List.mem_cons_self
    exact (take here found).trans
      (ih (fun member => other (List.mem_cons_of_mem event member)) later)

end Continues

/-! ## Comments as they are printed -/

/-- A literal comment as it is printed. -/
def commentText (data : Text) : Text :=
  if (Event.sectionText? data).isSome = true then ['<', '!'] ++ data ++ ['>']
  else if data.head? = some '?' then ['<'] ++ data ++ ['>']
  else ['<', '!', '-', '-'] ++ data ++ ['-', '-', '>']

/-- A comment is printed with its dashes unless its data look like those of something else. -/
theorem commentText_of_not_mistaken {data : Text} (h : ¬Event.Mistaken data) :
    commentText data = ['<', '!', '-', '-'] ++ data ++ ['-', '-', '>'] := by
  obtain ⟨noSection, noMark⟩ := not_or.mp h
  rw [commentText, if_neg noSection, if_neg noMark]

/-- The text of a character data section is written as it is. -/
theorem text_section {content : Text} (absent : ¬ s.token <:+: content)
    (inside : d.inSection = true) : Draft.text s options d content = .ok (d.write content) := by
  unfold Draft.text
  rw [Sentinel.split_of_absent absent]
  dsimp only
  rw [plainText, literalText, keepsText, inside]
  rfl

/-- The events of a comment are written as `commentText`. -/
theorem takeAll_ofComment {data : Text} (unmarked : s.firstSlotIn? data = none) :
    ∃ d', takeAll s options d (Event.ofComment data) = .ok d' ∧ d'.chunks = d.chunks ∧
      d'.current = d.current ++ commentText data := by
  cases section? : Event.sectionText? data with
  | some text =>
    have whole := Event.eq_of_sectionText? section?
    have absent : ¬ s.token <:+: text := by
      intro inside
      refine Text.cut?_eq_none (Option.map_eq_none_iff.mp unmarked) (inside.trans ?_)
      exact ⟨Event.sectionOpening, [']', ']'], by rw [whole, List.append_assoc]⟩
    have printed : commentText data =
        '<' :: '!' :: Event.sectionOpening ++ text ++ [']', ']', '>'] := by
      rw [commentText, section?, whole]
      simp
    unfold Event.ofComment
    rw [section?, printed]
    cases text with
    | nil => exact ⟨_, rfl, rfl, by simp [write]⟩
    | cons c text =>
      let opened : Draft := { d.write ('<' :: '!' :: Event.sectionOpening) with inSection := true }
      have written : Draft.text s options opened (c :: text) = .ok (opened.write (c :: text)) :=
        text_section absent rfl
      refine ⟨{ (opened.write (c :: text)).write [']', ']', '>'] with inSection := false },
        ?_, rfl, ?_⟩
      · show (Draft.text s options opened (c :: text) >>= fun d =>
          takeAll s options d [.sectionEnd]) = _
        rw [written]
        rfl
      · simp [write, opened]
  | none =>
    unfold Event.ofComment
    rw [section?]
    dsimp only
    split
    · rename_i rest
      exact ⟨_, rfl, rfl, by simp [commentText, section?, write]⟩
    · rename_i other
      have printed : commentText data = ['<', '!', '-', '-'] ++ data ++ ['-', '-', '>'] := by
        refine commentText_of_not_mistaken (not_or.mpr ⟨by simp [section?], fun mark => ?_⟩)
        obtain ⟨rest, same⟩ := List.head?_eq_some_iff.mp mark
        exact other rest same
      have taken : Draft.comment s d data = .ok (d.write (commentText data)) := by
        unfold Draft.comment
        rw [Sentinel.slotOf?_of_firstSlotIn? unmarked, unmarked, printed]
        rfl
      refine ⟨d.write (commentText data), ?_, rfl, rfl⟩
      show (Draft.comment s d data >>= fun d => takeAll s options d []) = _
      rw [taken]
      rfl

end Draft

namespace State

/-! ## Comments as they are read -/

/-- A comment that ends at the next greater-than sign. -/
theorem reads_bogusComment {u : Text} (plain : ∀ c ∈ u, c ≠ '>' ∧ c ≠ null) (seen : Text) :
    Reads (.bogusComment seen) (u ++ ['>']) [.comment (seen ++ u)] .data := by
  induction u generalizing seen with
  | nil =>
    rw [List.append_nil]
    exact ⟨rfl, rfl⟩
  | cons c u ih =>
    obtain ⟨greater, nonnull⟩ := plain c List.mem_cons_self
    have later := ih (fun d member => plain d (List.mem_cons_of_mem c member)) (seen ++ [c])
    rw [List.append_assoc] at later
    refine .silent ?_ later
    show stepBogusComment seen c = _
    rw [stepBogusComment, if_neg greater, kept_of_ne nonnull]

end State

namespace Draft

/-- Without its dashes, a comment ends at the first greater-than sign. -/
theorem exists_lead {data : Text} (h : Event.Mistaken data) : ∃ lead c rest, data = c :: rest ∧
    commentText data = lead ++ (c :: (rest ++ ['>'])) ∧ c ≠ '>' ∧
      State.Reads .data (lead ++ [c]) [] (.bogusComment [c]) := by
  unfold commentText
  cases section? : Event.sectionText? data with
  | some text =>
    refine ⟨['<', '!'], '[', ['C', 'D', 'A', 'T', 'A', '['] ++ (text ++ [']', ']']),
      Event.eq_of_sectionText? section?, ?_, by decide, rfl, rfl⟩
    rw [Event.eq_of_sectionText? section?]
    simp [Event.sectionOpening]
  | none =>
    rcases h with isSection | mark
    · rw [section?] at isSection
      cases isSection
    · obtain ⟨rest, rfl⟩ := List.head?_eq_some_iff.mp mark
      exact ⟨['<'], '?', rest, rfl, rfl, by decide, rfl, rfl⟩

/-- What is printed for a comment is read as that comment, unless its data look like those of
something else and hold a greater-than sign. -/
theorem emitted_commentText {data : Text} (nulls : State.null ∉ data)
    (delimited : State.Reads (.comment .start []) (data ++ ['-', '-', '>']) [.comment data] .data) :
    State.data.emitted (commentText data) = [.comment data] ↔
      ¬(Event.Mistaken data ∧ '>' ∈ data) := by
  by_cases mistaken : Event.Mistaken data
  · obtain ⟨lead, c, rest, same, printed, other, opening⟩ := exists_lead mistaken
    rw [and_iff_right mistaken, printed]
    have nonnull : ∀ e ∈ rest, e ≠ State.null := by
      rintro e member rfl
      exact nulls (same ▸ List.mem_cons_of_mem c member)
    constructor
    · intro read inside
      rw [same] at inside
      obtain ⟨before, after, cut, first⟩ :=
        List.eq_append_cons_of_mem ((List.mem_cons.mp inside).resolve_left (Ne.symm other))
      have plain : ∀ e ∈ before, e ≠ '>' ∧ e ≠ State.null := by
        intro e member
        refine ⟨fun greater => first (greater ▸ member), nonnull e ?_⟩
        rw [cut]
        exact List.mem_append_left _ member
      have ended := (opening.append (State.reads_bogusComment plain [c])).told
      have split : lead ++ c :: (rest ++ ['>']) =
          lead ++ [c] ++ (before ++ ['>']) ++ (after ++ ['>']) := by
        rw [cut]
        simp
      -- The comment that is read has lost what follows the sign.
      rw [split, State.emitted_append, ended, same, cut] at read
      have shorter := congrArg List.length (Token.comment.inj (List.cons.inj read).1)
      simp at shorter
    · intro absent
      have plain : ∀ e ∈ rest, e ≠ '>' ∧ e ≠ State.null := by
        intro e member
        refine ⟨fun greater => absent ?_, nonnull e member⟩
        rw [same, ← greater]
        exact List.mem_cons_of_mem c member
      have whole := (opening.append (State.reads_bogusComment plain [c])).told
      rw [List.append_assoc, List.singleton_append, List.singleton_append] at whole
      rw [whole, same]
      rfl
  · rw [commentText_of_not_mistaken mistaken]
    have opening : State.Reads .data ['<', '!', '-', '-'] [] (.comment .start []) := ⟨rfl, rfl⟩
    have whole := (opening.append delimited).told
    rw [← List.append_assoc] at whole
    exact iff_of_true whole fun both => mistaken both.1

end Draft

/-- Lines do not go across a character that ends none. -/
theorem normalizeNewlines_after {c : Char} (notLine : c ≠ '\n') (notReturn : c ≠ '\r')
    (before after : Text) :
    normalizeNewlines (before ++ [c] ++ after) =
      normalizeNewlines (before ++ [c]) ++ normalizeNewlines after := by
  rw [List.append_assoc, List.singleton_append, normalizeNewlines_around notLine notReturn,
    normalizeNewlines_around notLine notReturn, List.append_assoc]
  rfl

/-- The tokens of a text with a comment in it. -/
theorem Token.read_comment {front data back : Text}
    (opened : State.data.after (normalizeNewlines (front ++ ['<', '!', '-', '-'])) =
      .comment .start [])
    (returns : '\r' ∉ data)
    (delimited : State.Reads (.comment .start []) (data ++ ['-', '-', '>']) [.comment data] .data) :
    Token.read (front ++ ['<', '!', '-', '-'] ++ (data ++ (['-', '-', '>'] ++ back))) =
      State.data.emitted (normalizeNewlines (front ++ ['<', '!', '-', '-'])) ++
        .comment data :: State.data.run (normalizeNewlines back) := by
  have opening : front ++ ['<', '!', '-', '-'] = front ++ ['<', '!', '-'] ++ ['-'] := by simp
  have inert : ∀ c ∈ data ++ ['-', '-', '>'], c ≠ '\r' := by
    rintro c member rfl
    rcases List.mem_append.mp member with inside | ending
    · exact returns inside
    · simp at ending
  rw [Token.read, opening, normalizeNewlines_after (by decide) (by decide), ← opening,
    ← List.append_assoc data, normalizeNewlines_inert inert, State.run_append, opened,
    delimited.run]
  rfl

namespace Template

variable {s : Sentinel} {options : Options} {segments : List Text} {template : Template}

/-- A literal comment of a skeleton that compiles is printed where it stands: in the chunk that is
being written there, after what has been written of it. It is printed verbatim unless its data begin
with a question mark or are `[CDATA[…]]`, and what is printed is read as the same comment unless,
moreover, there is a greater-than sign in it. -/
theorem comment_printed
    (compiled : (compile s options Event.source segments).result = .ok template)
    {front data back : Text}
    (joined : s.join segments =
      front ++ ['<', '!', '-', '-'] ++ data ++ ['-', '-', '>'] ++ back)
    (opened : State.data.after (normalizeNewlines (front ++ ['<', '!', '-', '-'])) =
      .comment .start [])
    (delimited : State.Reads (.comment .start []) (data ++ ['-', '-', '>']) [.comment data] .data)
    (returns : '\r' ∉ data) (nulls : State.null ∉ data) (unmarked : s.firstSlotIn? data = none) :
    ∃ before more, Draft.takeAll s options Draft.empty (Event.ofTokens
        (State.data.emitted (normalizeNewlines (front ++ ['<', '!', '-', '-'])))) = .ok before ∧
      template.chunks[before.chunks.length]? =
        some (before.current ++ Draft.commentText data ++ more) ∧
      (¬Event.Mistaken data →
        Draft.commentText data = ['<', '!', '-', '-'] ++ data ++ ['-', '-', '>']) ∧
      (State.data.emitted (Draft.commentText data) = [.comment data] ↔
        ¬(Event.Mistaken data ∧ '>' ∈ data)) := by
  obtain ⟨last, taken, chunks, _⟩ := exists_draft compiled
  obtain ⟨rest, read⟩ : ∃ rest, Token.read (s.join segments) =
      State.data.emitted (normalizeNewlines (front ++ ['<', '!', '-', '-'])) ++
        .comment data :: rest := by
    refine ⟨State.data.run (normalizeNewlines back), ?_⟩
    rw [joined, List.append_assoc, List.append_assoc]
    exact Token.read_comment opened returns delimited
  have noEnd := Event.endOfInput_not_mem (Token.read (s.join segments))
  have mark : ∀ c, Token.comment data ≠ .character c := fun _ => nofun
  rw [read, Event.ofTokens_append_cons _ mark, Draft.takeAll_append] at taken
  rw [read, Event.ofTokens_append_cons _ mark] at noEnd
  obtain ⟨before, found, onward⟩ := Draft.bind_eq_ok taken
  rw [Draft.takeAll_append] at onward
  obtain ⟨after, printed, later⟩ := Draft.bind_eq_ok onward
  obtain ⟨after', printed', same, written⟩ : ∃ d',
      Draft.takeAll s options before (Event.ofComment data) = .ok d' ∧ d'.chunks = before.chunks ∧
        d'.current = before.current ++ Draft.commentText data := Draft.takeAll_ofComment unmarked
  have equal : after' = after := Except.ok.inj (printed'.symm.trans printed)
  subst equal
  obtain ⟨more, chunk⟩ := (Draft.Continues.takeAll (fun member =>
    noEnd (List.mem_append_right _ (List.mem_append_right _ member))) later).chunk
  refine ⟨before, more, found, ?_, Draft.commentText_of_not_mistaken,
    Draft.emitted_commentText nulls delimited⟩
  rw [chunks, ← same, chunk, written]

/-- A comment after a slot, with a greater-than sign in it. -/
theorem comment_printed_after_slot :
    ∃ template, (compile simplest {} Event.source
        ["<p>".toList, "<!--a > b--></p>".toList]).result = .ok template ∧
      ∃ (before : Draft) (more : Text), template.chunks[before.chunks.length]? =
        some (before.current ++ "<!--a > b-->".toList ++ more) := by
  refine ⟨⟨["<p>".toList, "<!--a > b--></p>".toList], [.content], rfl⟩, rfl, ?_⟩
  obtain ⟨before, more, _, chunk, verbatim, _⟩ := @comment_printed simplest {}
    ["<p>".toList, "<!--a > b--></p>".toList]
    ⟨["<p>".toList, "<!--a > b--></p>".toList], [.content], rfl⟩ rfl
    ("<p>".toList ++ simplest.commentMarker 0) "a > b".toList "</p>".toList rfl rfl ⟨rfl, rfl⟩
    (by decide) (by decide) rfl
  refine ⟨before, more, ?_⟩
  rw [verbatim (by decide)] at chunk
  exact chunk

/-- The exceptions: data that begin with a question mark, and data like those of a section. -/
example :
    (compile simplest {} Event.source ["<!--?><b>x</b>-->".toList]).result =
      .ok ⟨["<?><b>x</b>>".toList], [], rfl⟩ ∧
    Event.read "<?><b>x</b>>".toList = [.instruction [] ['?'], .openTag ['b'] [], .text ['x'],
      .closeTag ['b'], .text ['>'], .endOfInput] ∧
    (compile simplest {} Event.source ["<!--[CDATA[><b>]]-->".toList]).result =
      .ok ⟨["<![CDATA[><b>]]>".toList], [], rfl⟩ ∧
    Event.read "<![CDATA[><b>]]>".toList = [.comment "[CDATA[".toList, .openTag ['b'] [],
      .text "]]>".toList, .endOfInput] :=
  ⟨rfl, rfl, rfl, rfl⟩

end Template

end HtmlTemplate

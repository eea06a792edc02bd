import HtmlTemplate.Proofs.Markup.Reread
import HtmlTemplate.Proofs.Template.Comments

/-!
# Templates without slots

A draft writes what it takes without slots as `Event.WrittenAs` says
(`Draft.exists_takeAll_writtenAs`), so the only chunk of a template without slots is read as the
markup it was made from, except that line feeds stand for carriage returns
(`Template.literal_read_again`).
-/

namespace HtmlTemplate

/-- Literal text is left as it is: the minifiers shorten nothing, and white space is not
collapsed. -/
structure Options.Verbatim (options : Options) : Prop where
  script : ∀ text, options.minifyScript text = .ok text
  style : ∀ text, options.minifyStyle text = .ok text
  spaced : options.collapse = false

/-! ## Events without tokens -/

/-- No token of slot markers is in what an event tells of. -/
structure Event.Literal (s : Sentinel) (event : Event) : Prop where
  named : event.Named s
  weightless : event.weight s = 0

theorem Ledger.count_of_attributesWeight {s : Sentinel} {attributes : List Attribute}
    (h : attributesWeight s attributes = 0) : ∀ a ∈ attributes, s.count a.value = 0 := by
  induction attributes with
  | nil => exact fun a member => absurd member List.not_mem_nil
  | cons b rest ih =>
    obtain ⟨first, others⟩ := Nat.add_eq_zero_iff.mp h
    intro a member
    rcases List.mem_cons.mp member with rfl | later
    · exact first
    · exact ih others a later

/-- A text without the token is told of without it. -/
theorem Sentinel.Absent.literal {s : Sentinel} {text : Text}
    (absent : s.Absent (normalizeNewlines text)) : ∀ event ∈ Event.read text, event.Literal s := by
  have alone : s.Fits {} .data Scan.start 0 [text] [] := .last _ _ _ _
  have names : ∀ event ∈ Event.ofTokens (Token.read text), event.Named s := by
    refine Event.named_ofTokens
      (alone.names (by decide) (fun segment member name inside => ?_) trivial)
    rw [List.mem_singleton.mp member] at inside
    exact absent.firstSlotIn?_of_name inside
  have all : ((⟨0, []⟩ : Ledger).addAll s (Token.read text)).total s ≤ 0 :=
    total_join_le (List.forall_mem_singleton.mpr absent) (List.cons_ne_nil text [])
  have within := (Ledger.within_ofTokens (s := s) ⟨0, []⟩ (Token.read text)).total (s := s)
  have sum := Event.sum_weight_le (s := s) ⟨0, []⟩ (Event.ofTokens (Token.read text))
  have zero : ((Event.ofTokens (Token.read text)).map (Event.weight s)).sum = 0 := by omega
  intro event member
  rcases List.mem_append.mp member with inside | last
  · exact ⟨names event inside, List.sum_eq_zero_iff.mp zero _ (List.mem_map_of_mem inside)⟩
  · rw [List.mem_singleton.mp last]
    exact ⟨trivial, rfl⟩

namespace Draft

variable {s : Sentinel} {options : Options} {d : Draft} {name t markup : Text}
  {attributes : List Attribute} {first events : List Event}

/-! ## Events as they are written -/

theorem write_write (d : Draft) (u v : Text) : (d.write u).write v = d.write (u ++ v) := by
  simp only [write, List.append_assoc]

/-- Adds markup after which other elements are open. -/
def writeTag (d : Draft) (u : Text) (openElements : List Text) : Draft :=
  { d.write u with openElements := openElements }

theorem writeTag_write (d : Draft) (u v : Text) (openElements : List Text) :
    (d.writeTag u openElements).write v = d.writeTag (u ++ v) openElements := by
  simp only [writeTag, write, List.append_assoc]

theorem writeTag_writeTag (d : Draft) (u v : Text) (openElements others : List Text) :
    (d.writeTag u openElements).writeTag v others = d.writeTag (u ++ v) others := by
  simp only [writeTag, write, List.append_assoc]

theorem adds_writeTag (outputs : Nat → Text) (d : Draft) (u : Text) (openElements : List Text) :
    Adds outputs d (d.writeTag u openElements) u [] := by
  have adds := adds_write outputs d u
  exact ⟨adds.slots, adds.even, adds.page⟩

theorem writeLiterals_literal (names : ∀ a ∈ attributes, s.firstSlotIn? a.name = none)
    (values : ∀ a ∈ attributes, s.count a.value = 0) :
    writeLiterals s d attributes = .ok (d.write (attributes.flatMap literalAttribute), []) := by
  induction attributes generalizing d with
  | nil =>
    show Except.ok (d, []) = _
    rw [List.flatMap_nil, write, List.append_nil]
  | cons a rest ih =>
    have none := Event.firstSlotIn?_of_count (values a List.mem_cons_self)
    rw [writeLiterals, names a List.mem_cons_self, none, Sentinel.slotOf?_of_firstSlotIn? none]
    dsimp only
    rw [ih (fun b member => names b (List.mem_cons_of_mem a member))
      (fun b member => values b (List.mem_cons_of_mem a member)), write_write, List.flatMap_cons]

theorem take_openTag (literal : (Event.openTag name attributes).Literal s) :
    take s options d (.openTag name attributes) = .ok (d.writeTag (startTagText name attributes)
      (if Vocabulary.isVoid name then d.openElements else name :: d.openElements)) := by
  show openTag s options d name attributes = _
  obtain ⟨⟨known, names⟩, weightless⟩ := literal
  have values := Ledger.count_of_attributesWeight weightless
  unfold openTag
  rw [known]
  dsimp only
  rw [writeLiterals_literal names values]
  show Except.ok _ = _
  rw [write_write, write_write, startTagText, List.append_assoc]
  split <;> rfl

theorem take_closeTag (literal : (Event.closeTag name).Literal s) :
    take s options d (.closeTag name) = .ok (if Vocabulary.isVoid name then d else
      d.writeTag (endTagText name) (closeElement name d.openElements)) := by
  show closeTag s d name = _
  have known : s.firstSlotIn? name = none := literal.named
  unfold closeTag
  rw [known]
  dsimp only
  split <;> rfl

/-- A text is written as the element around it asks for. -/
theorem take_text (verbatim : options.Verbatim) (literal : (Event.text t).Literal s) :
    take s options d (.text t) = .ok (d.write (if d.keepsText then t else Text.escapeText t)) := by
  show text s options d t = _
  unfold text
  rw [Sentinel.split_of_absent (Sentinel.not_infix_of_count literal.weightless)]
  dsimp only
  refine congrArg Except.ok ?_
  unfold plainText
  split
  · rename_i script
    have keeps : d.keepsText = true := by simp_all [keepsText]
    rw [minify, verbatim.script, keeps]
    rfl
  · split
    · rename_i style
      have keeps : d.keepsText = true := by simp_all [keepsText]
      rw [minify, verbatim.style, keeps]
      rfl
    · rw [literalText, verbatim.spaced]
      rfl

theorem takeAll_cons {d' : Draft} {event : Event} (h : take s options d event = .ok d')
    (rest : List Event) : takeAll s options d (event :: rest) = takeAll s options d' rest := by
  rw [takeAll, h]
  rfl

/-! ## Constructs -/

/-- In ordinary text, where text is escaped. -/
structure Plain (d : Draft) : Prop where
  outside : d.inSection = false
  escapes : ∀ name ∈ d.openElements, name ≠ Vocabulary.script ∧ name ≠ Vocabulary.style

theorem plain_empty : Draft.empty.Plain := ⟨rfl, fun _ member => absurd member List.not_mem_nil⟩

/-- Where an element is open, its name tells how text is written. -/
theorem keepsText_of_head? (outside : d.inSection = false)
    (inside : d.openElements.head? = some name) :
    d.keepsText = decide (name = Vocabulary.script ∨ name = Vocabulary.style) := by
  simp [keepsText, isInside, outside, inside, beq_eq_decide]

theorem Plain.keepsText (h : d.Plain) : d.keepsText = false := by
  cases inside : d.openElements with
  | nil => simp [Draft.keepsText, isInside, h.outside, inside]
  | cons name rest =>
    have other := h.escapes name (inside ▸ List.mem_cons_self)
    rw [keepsText_of_head? h.outside (by rw [inside]; rfl)]
    exact decide_eq_false fun same => same.elim other.1 other.2

theorem Plain.openElement (h : d.Plain) (content : State.content name = .data) :
    ∀ other ∈ name :: d.openElements, other ≠ Vocabulary.script ∧ other ≠ Vocabulary.style := by
  intro other member
  rcases List.mem_cons.mp member with rfl | member
  · unfold State.content at content
    split at content
    · cases content
    · rename_i plain
      exact not_or.mp plain
  · exact h.escapes other member

theorem mem_of_mem_closeElement {other : Text} {openElements : List Text}
    (h : other ∈ closeElement name openElements) : other ∈ openElements := by
  unfold closeElement at h
  split at h
  · exact (List.dropWhile_sublist _).mem (List.mem_of_mem_drop h)
  · exact h

/-- An element without tags in it, up to its end tag. -/
theorem takeAll_element (verbatim : options.Verbatim)
    (literal : ∀ event ∈ Event.openTag name attributes :: Event.ofText t, event.Literal s)
    (raw : State.content name ≠ .data) (outside : d.inSection = false) :
    takeAll s options d (.openTag name attributes :: Event.ofText t) =
      .ok (d.writeTag (startTagText name attributes ++ contentText name t)
        (name :: d.openElements)) := by
  rw [List.forall_mem_cons] at literal
  have opens : take s options d (.openTag name attributes) = _ := take_openTag literal.1
  rw [State.isVoid_eq_false_of_content raw] at opens
  rw [takeAll_cons opens]
  cases t with
  | nil =>
    have empty : contentText name [] = [] := by
      unfold contentText
      split <;> rfl
    rw [empty, List.append_nil]
    rfl
  | cons c t =>
    let opened := d.writeTag (startTagText name attributes) (name :: d.openElements)
    have keeps : opened.keepsText = _ := keepsText_of_head? outside rfl
    have taken : take s options opened (.text (c :: t)) = _ :=
      take_text verbatim (literal.2 _ List.mem_cons_self)
    rw [keeps, writeTag_write] at taken
    refine (takeAll_cons taken []).trans ?_
    rw [contentText]
    simp only [decide_eq_true_eq]
    rfl

variable (outputs : Nat → Text)

/-- A construct is written as it stands, and the draft is in ordinary text after it. -/
theorem exists_takeAll_construct (verbatim : options.Verbatim)
    (construct : Event.Construct first markup) (literal : ∀ event ∈ first, event.Literal s)
    (plain : d.Plain) :
    ∃ d', takeAll s options d first = .ok d' ∧ Adds outputs d d' markup [] ∧ d'.Plain := by
  cases construct with
  | @startTag name attributes _ content =>
    refine ⟨_, takeAll_cons (take_openTag (literal _ List.mem_cons_self)) [],
      adds_writeTag outputs d _ _, plain.outside, ?_⟩
    intro other member
    refine plain.openElement content other ?_
    unfold writeTag at member
    split at member
    · exact List.mem_cons_of_mem name member
    · exact member
  | @endTag name _ solid =>
    have taken : take s options d (.closeTag name) = _ :=
      take_closeTag (literal _ List.mem_cons_self)
    rw [solid] at taken
    exact ⟨_, takeAll_cons taken [], adds_writeTag outputs d _ _, plain.outside,
      fun other member => plain.escapes other (mem_of_mem_closeElement member)⟩
  | @element name t attributes _ raw _ =>
    rw [← List.cons_append, List.forall_mem_append, List.forall_mem_singleton] at literal
    let within := d.writeTag (startTagText name attributes ++ contentText name t)
      (name :: d.openElements)
    have opened : takeAll s options d (.openTag name attributes :: Event.ofText t) = .ok within :=
      takeAll_element verbatim literal.1 raw plain.outside
    have outer : closeElement name within.openElements = d.openElements := by
      simp [closeElement, within, writeTag]
    have closed : take s options within (.closeTag name) = _ := take_closeTag literal.2
    rw [State.isVoid_eq_false_of_content raw, outer] at closed
    replace closed : take s options within (.closeTag name) =
        .ok (within.writeTag (endTagText name) d.openElements) := closed
    rw [writeTag_writeTag, List.append_assoc] at closed
    refine ⟨_, ?_, adds_writeTag outputs d _ _, plain.outside, plain.escapes⟩
    rw [← List.cons_append, takeAll_append, opened]
    exact takeAll_cons closed []
  | @doctype name _ =>
    exact ⟨d.write (doctypeText name), rfl, adds_write outputs d _, plain.outside, plain.escapes⟩

/-- Events without slots are written as text and markup that are read as these events. -/
theorem exists_takeAll_writtenAs (verbatim : options.Verbatim)
    (written : Event.WrittenAs events markup) (literal : ∀ event ∈ events, event.Literal s)
    (plain : d.Plain) :
    ∃ d', takeAll s options d events = .ok d' ∧ Adds outputs d d' markup [] := by
  induction written generalizing d with
  | nil => exact ⟨d, rfl, .nothing rfl rfl rfl⟩
  | @text events markup c u _ ih =>
    rw [List.forall_mem_cons] at literal
    have taken : take s options d (.text (c :: u)) = _ := take_text verbatim literal.1
    rw [plain.keepsText] at taken
    have stays : (d.write (Text.escapeText (c :: u))).Plain := ⟨plain.outside, plain.escapes⟩
    obtain ⟨d', later, adds⟩ := ih literal.2 stays
    exact ⟨d', (takeAll_cons taken events).trans later, (adds_write outputs d _).trans adds⟩
  | @nothing events markup name void _ ih =>
    rw [List.forall_mem_cons] at literal
    have taken : take s options d (.closeTag name) = _ := take_closeTag literal.1
    rw [void] at taken
    obtain ⟨d', later, adds⟩ := ih literal.2 plain
    exact ⟨d', (takeAll_cons taken events).trans later, adds⟩
  | @construct first events written markup construct _ ih =>
    rw [List.forall_mem_append] at literal
    obtain ⟨between, taken, adds, stays⟩ :=
      exists_takeAll_construct outputs verbatim construct literal.1 plain
    obtain ⟨d', later, more⟩ := ih literal.2 stays
    refine ⟨d', ?_, adds.trans more⟩
    rw [takeAll_append, taken]
    exact later
  | @cut name t attributes _ raw _ =>
    exact ⟨_, takeAll_element verbatim literal raw plain.outside, adds_writeTag outputs d _ _⟩

end Draft

namespace Template

variable {s : Sentinel} {options : Options} {text : Text}

/-- A draft of events without slots is a template of one chunk. -/
theorem compile_literal {markup : Text} {d : Draft}
    (taken : Draft.takeAll s options Draft.empty (Event.ofTokens (Token.read text)) = .ok d)
    (adds : Draft.Adds (fun _ => []) Draft.empty d markup []) :
    (compile s options Event.source [text]).result = .ok ⟨[markup], [], rfl⟩ := by
  obtain ⟨current, chunks, slots, openElements, inSection, notes⟩ := d
  obtain rfl : slots = [] := adds.slots
  obtain rfl : chunks = [] := List.length_eq_zero_iff.mp (adds.even rfl)
  obtain rfl : current = markup := adds.page rfl
  show (ofReport s options 0 (Event.source text)).result = _
  have ended : Draft.takeAll s options Draft.empty (Event.source text).events = _ :=
    Draft.takeAll_append
  rw [ofReport, ended, taken]
  rfl

/-- The only chunk of a template without slots is read as the markup it was made from: the same tags
with the same attributes, texts and document types. What is lost are the end tags of elements
without content, and the carriage returns in texts and values, which are read as line feeds. -/
theorem literal_read_again (verbatim : options.Verbatim)
    (literal : ∀ event ∈ Event.read text, event.Literal s)
    (plain : ∀ event ∈ Event.read text, event.isRemark = false) :
    ∃ chunk, (compile s options Event.source [text]).result = .ok ⟨[chunk], [], rfl⟩ ∧
      Event.read chunk = (Event.joinTexts ((Event.read text).filter Event.stays)).map Event.lines ∧
      (Event.read chunk = Event.joinTexts ((Event.read text).filter Event.stays) ↔
        ∀ event ∈ Event.read text, ∀ u ∈ event.contents, '\r' ∉ u) := by
  have before : ∀ event ∈ Event.ofTokens (Token.read text), event ∈ Event.read text :=
    fun event member => List.mem_append_left _ member
  obtain ⟨chunk, written⟩ := Event.exists_writtenAs
    (Event.comment_not_mem fun event member => plain event (before event member))
  obtain ⟨d, taken, adds⟩ := Draft.exists_takeAll_writtenAs (fun _ => []) verbatim written
    (fun event member => literal event (before event member)) Draft.plain_empty
  have read : Event.read chunk =
      (Event.joinTexts ((Event.read text).filter Event.stays)).map Event.lines := written.read
  refine ⟨chunk, compile_literal taken adds, read, ?_⟩
  rw [read, Event.map_lines_eq_self_iff]

/-- A value with a reference, and texts around the end tag of an element without content. -/
theorem literal_read_again_text :
    Options.Verbatim {} ∧
    (∀ event ∈ Event.read "<p title=&lt>a</br>&amp".toList, event.Literal simplest) ∧
    (∀ event ∈ Event.read "<p title=&lt>a</br>&amp".toList, event.isRemark = false) ∧
    (compile simplest {} Event.source ["<p title=&lt>a</br>&amp".toList]).result =
      .ok ⟨["<p title=\"&lt;\">a&amp;".toList], [], rfl⟩ ∧
    Event.read "<p title=\"&lt;\">a&amp;".toList =
      [.openTag ['p'] [⟨"title".toList, ['<']⟩], .text ['a', '&'], .endOfInput] := by
  have verbatim : Options.Verbatim {} := ⟨fun _ => rfl, fun _ => rfl, rfl⟩
  have literal : ∀ event ∈ Event.read "<p title=&lt>a</br>&amp".toList, event.Literal simplest :=
    Sentinel.Absent.literal (by decide)
  have plain : ∀ event ∈ Event.read "<p title=&lt>a</br>&amp".toList, event.isRemark = false := by
    decide
  obtain ⟨chunk, compiled, _, same⟩ := literal_read_again verbatim literal plain
  have chunk_eq : (compile simplest {} Event.source ["<p title=&lt>a</br>&amp".toList]).result =
      .ok ⟨["<p title=\"&lt;\">a&amp;".toList], [], rfl⟩ := rfl
  rw [chunk_eq] at compiled
  cases compiled
  exact ⟨verbatim, literal, plain, chunk_eq, same.mpr (by decide)⟩

/-- The exception: a carriage return that is written as a reference is read as a line feed. -/
example :
    Event.read "a&#13;b".toList = [.text ['a', '\r', 'b'], .endOfInput] ∧
    (compile simplest {} Event.source ["a&#13;b".toList]).result =
      .ok ⟨[['a', '\r', 'b']], [], rfl⟩ ∧
    Event.read ['a', '\r', 'b'] = [.text ['a', '\n', 'b'], .endOfInput] :=
  ⟨rfl, rfl, rfl⟩

end Template

end HtmlTemplate

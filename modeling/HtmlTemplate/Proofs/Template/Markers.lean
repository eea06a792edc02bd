import HtmlTemplate.Proofs.Markup.Unmarked
import HtmlTemplate.Proofs.Output.Marking
import HtmlTemplate.Proofs.Template.Scripts

/-!
# Pages with and without markers

A host that wants to find content again has it put between two copies of a marker. The slots of a
page are filled with the same outputs with and without markers (`Template.Filled`), and where the
tokenizer stands in ordinary text up to each content slot, and no line end goes across the borders
of a text, the markers are comments and the page is otherwise read as it is without them
(`Template.markers_invisible`). In the content of `script`, `style`, `textarea` and `title` a
comment is text, and so is a marker.
-/

namespace HtmlTemplate

variable {options : Options} {line line' : Timeline}

/-! ## Templates do not depend on markers -/

namespace Draft

variable {s : Sentinel}

theorem pushAttributes_marking (adoptable : Bool) (d : Draft) (entries : List (Nat × Text)) :
    pushAttributes (options.marking adoptable) d entries = pushAttributes options d entries := by
  induction entries generalizing d with
  | nil => rfl
  | cons entry rest ih =>
    have first : pushAttribute (options.marking adoptable) d entry.1 entry.2 =
        pushAttribute options d entry.1 entry.2 := rfl
    unfold pushAttributes
    simp only [first, ih]

theorem pieces_marking (adoptable : Bool) (d : Draft) (parts : List Sentinel.Piece) :
    pieces (options.marking adoptable) d parts = pieces options d parts := by
  induction parts generalizing d with
  | nil => rfl
  | cons piece rest ih =>
    cases piece with
    | literal text => exact ih _
    | slot slot =>
      unfold pieces
      simp only [ih]

theorem take_marking (adoptable : Bool) (d : Draft) (event : Event) :
    take s (options.marking adoptable) d event = take s options d event := by
  cases event with
  | openTag name attributes =>
    unfold take openTag
    simp only [pushAttributes_marking]
  | text content =>
    unfold take text
    simp only [pieces_marking]
    rfl
  | _ => rfl

theorem takeAll_marking (adoptable : Bool) (d : Draft) (events : List Event) :
    takeAll s (options.marking adoptable) d events = takeAll s options d events := by
  induction events generalizing d with
  | nil => rfl
  | cons event rest ih =>
    unfold takeAll
    simp only [take_marking, ih]

end Draft

/-- A skeleton has the same template whether or not its host wants markers. -/
theorem Template.compile_marking (s : Sentinel) (options : Options) (adoptable : Bool)
    (source : EventSource) (segments : List Text) :
    compile s (options.marking adoptable) source segments = compile s options source segments := by
  unfold compile ofReport
  simp only [Draft.takeAll_marking]

/-! ## Slots with and without markers -/

namespace Slot

variable {kind : SlotKind} {text : Text}

/-- Markers only stand around content. -/
theorem write_marking_str (other : kind ≠ .content) (adoptable : Bool) :
    (write (options.marking adoptable) kind (.str text) line).1 =
      (write (options.marking false) kind (.str text) line').1 := by
  cases kind with
  | content => exact absurd rfl other
  | _ => rfl

theorem write_content_unmarked :
    (write (options.marking false) .content (.str text) line).1 = .ok (Text.escape text) := by
  rw [write_content_str, marker_of_not_adoptable rfl]
  simp

theorem write_content_marked : ∃ n, (write (options.marking true) .content (.str text) line).1 =
    .ok (markerText n ++ Text.escape text ++ markerText n) := by
  rw [write_content_str]
  exact ⟨line.markers + 1, rfl⟩

end Slot

namespace Template

/-! ## Slots that are filled -/

/-- A slot that is filled: its kind, its output without markers, and the chunk after it. -/
abbrev Filled := SlotKind × Text × Text

/-- What filled slots are in a page without markers. -/
def fill (slots : List Filled) : Text := slots.flatMap fun slot => slot.2.1 ++ slot.2.2

/-- What filled slots can be in a page with markers. -/
inductive Marks : List Filled → Text → Prop where
  | nil : Marks [] []
  | content {slots : List Filled} {page : Text} (n : Nat) (text chunk : Text) : Marks slots page →
    Marks ((.content, Text.escape text, chunk) :: slots)
      (Slot.markerText n ++ (Text.escape text ++ (Slot.markerText n ++ (chunk ++ page))))
  | other {slots : List Filled} {page : Text} {kind : SlotKind} (output chunk : Text) :
    kind ≠ .content → Marks slots page →
      Marks ((kind, output, chunk) :: slots) (output ++ (chunk ++ page))

/-- The slot of a part of a page is filled with a text. -/
def Fills (options : Options) (part : SlotKind × Value × Text) (slot : Filled) : Prop :=
  slot.1 = part.1 ∧ slot.2.2 = part.2.2 ∧ (∃ text, part.2.1 = .str text) ∧
    ∀ line, (Slot.write (options.marking false) part.1 part.2.1 line).1 = .ok slot.2.1

variable {parts : List (SlotKind × Value × Text)} {slots : List Filled} {page : Text}

/-- What is written to a page without markers is what its slots are filled with. -/
theorem exists_fills (texts : ∀ part ∈ parts, ∃ text, part.2.1 = .str text)
    (written : (writeSlots (options.marking false) parts line).1 = .ok page) :
    ∃ slots, List.Forall₂ (Fills options) parts slots ∧ page = fill slots := by
  induction parts generalizing line page with
  | nil =>
    cases written
    exact ⟨[], .nil, rfl⟩
  | cons part parts ih =>
    obtain ⟨kind, value, chunk⟩ := part
    obtain ⟨output, others, here, later, rfl⟩ := writeSlots_cons_eq_ok.mp written
    obtain ⟨slots, fills, rfl⟩ :=
      ih (fun part member => texts part (List.mem_cons_of_mem _ member)) later
    obtain ⟨text, rfl⟩ := texts _ List.mem_cons_self
    refine ⟨(kind, output, chunk) :: slots,
      .cons ⟨rfl, rfl, ⟨text, rfl⟩, fun other => ?_⟩ fills, rfl⟩
    by_cases content : kind = .content
    · subst content
      rw [Slot.write_content_unmarked] at here ⊢
      exact here
    · exact (Slot.write_marking_str content false).trans here

theorem writeSlots_unmarked (fills : List.Forall₂ (Fills options) parts slots) (line : Timeline) :
    (writeSlots (options.marking false) parts line).1 = .ok (fill slots) := by
  induction fills generalizing line with
  | nil => rfl
  | @cons part slot parts slots here _ ih =>
    obtain ⟨kind, value, chunk⟩ := part
    obtain ⟨kind', output, chunk'⟩ := slot
    obtain ⟨rfl, rfl, _, written⟩ := here
    exact writeSlots_cons_eq_ok.mpr ⟨output, fill slots, written line, ih _, rfl⟩

theorem writeSlots_marked (fills : List.Forall₂ (Fills options) parts slots) (line : Timeline) :
    ∃ page, (writeSlots (options.marking true) parts line).1 = .ok page ∧ Marks slots page := by
  induction fills generalizing line with
  | nil => exact ⟨[], rfl, .nil⟩
  | @cons part slot parts slots here _ ih =>
    obtain ⟨kind, value, chunk⟩ := part
    obtain ⟨kind', output, chunk'⟩ := slot
    obtain ⟨rfl, rfl, ⟨text, rfl⟩, written⟩ := here
    obtain ⟨page, later, marks⟩ :=
      ih (Slot.write (options.marking true) kind' (.str text) line).2
    by_cases content : kind' = .content
    · subst content
      obtain ⟨n, marked⟩ : ∃ n, (Slot.write (options.marking true) .content (.str text) line).1 =
          .ok (Slot.markerText n ++ Text.escape text ++ Slot.markerText n) :=
          Slot.write_content_marked
      have same : output = Text.escape text := by
        have plain := written line
        rw [Slot.write_content_unmarked] at plain
        exact (Except.ok.inj plain).symm
      subst same
      refine ⟨_, writeSlots_cons_eq_ok.mpr ⟨_, page, marked, later, rfl⟩, ?_⟩
      have all := Marks.content n text chunk' marks
      simp only [List.append_assoc]
      exact all
    · have plain : (Slot.write (options.marking true) kind' (.str text) line).1 = .ok output :=
        (Slot.write_marking_str content true).trans (written line)
      refine ⟨_, writeSlots_cons_eq_ok.mpr ⟨_, page, plain, later, rfl⟩, ?_⟩
      rw [List.append_assoc]
      exact .other output chunk' content marks

/-! ## Where markers are read -/

/-- A text that stands in ordinary text, up to it and after it, without a line end across its
borders. -/
structure Stands (front output rest : Text) : Prop where
  place : State.data.after (normalizeNewlines front) = .data
  begins : ¬LineAcross front (output ++ rest)
  ends : ¬LineAcross (front ++ output) rest

/-- All content of filled slots stands in ordinary text. -/
def AllStand (front : Text) (slots : List Filled) : Prop :=
  ∀ earlier output chunk later, slots = earlier ++ (.content, output, chunk) :: later →
    Stands (front ++ fill earlier) output (chunk ++ fill later)

theorem AllStand.tail {front : Text} {slot : Filled} (h : AllStand front (slot :: slots)) :
    AllStand (front ++ (slot.2.1 ++ slot.2.2)) slots := by
  intro earlier output chunk later same
  have all := h (slot :: earlier) output chunk later (by rw [same]; rfl)
  have front_eq : front ++ fill (slot :: earlier) =
      front ++ (slot.2.1 ++ slot.2.2) ++ fill earlier := by simp [fill]
  rw [front_eq] at all
  exact all

/-- A page with markers begins with a line feed only if the page without them does. -/
theorem Marks.head (h : Marks slots page) (line : page.head? = some '\n') :
    (fill slots).head? = some '\n' := by
  induction h with
  | nil => exact line
  | content n text chunk _ _ => cases line
  | other output chunk _ _ ih =>
    rw [← List.append_assoc, List.head?_append] at line
    rw [fill, List.flatMap_cons, List.head?_append]
    cases first : (output ++ chunk).head? with
    | none =>
      rw [first, Option.none_or] at line
      exact ih line
    | some c =>
      rw [first] at line
      rw [Option.some_or]
      exact line

theorem Marks.notAcross {before chunk : Text} (h : Marks slots page)
    (whole : ¬LineAcross before (chunk ++ fill slots)) : ¬LineAcross before (chunk ++ page) := by
  rintro ⟨last, first⟩
  refine whole ⟨last, ?_⟩
  rw [List.head?_append] at first ⊢
  cases begins : chunk.head? with
  | none =>
    rw [begins, Option.none_or] at first
    exact h.head first
  | some c =>
    rw [begins] at first
    exact first

/-- The state after a text that stands in ordinary text is that before it. -/
theorem Stands.after {front text rest : Text} (h : Stands front (Text.escape text) rest) :
    State.data.after (normalizeNewlines (front ++ Text.escape text)) = .data := by
  have whole : ¬LineAcross front (Text.escape text) := by
    rintro ⟨last, first⟩
    refine h.begins ⟨last, ?_⟩
    rw [List.head?_append, first]
    rfl
  rw [normalizeNewlines_append_of_not_across whole, State.after_append, h.place,
    Text.normalizeNewlines_escape]
  exact (State.reads_data_escape _).reached

/-- Where all content stands in ordinary text, the markers of a page are two comments for each
content slot, and without them the page is read as it is without markers. -/
theorem Marks.unmarked (h : Marks slots page) {front : Text} (stands : AllStand front slots) :
    Token.Unmarked (Token.read (front ++ page)) (Token.read (front ++ fill slots))
      (2 * (slots.map Prod.fst).count .content) := by
  induction h generalizing front with
  | nil => exact .refl _
  | @content slots page n text chunk marks ih =>
    have here := stands [] (Text.escape text) chunk slots rfl
    rw [show front ++ fill [] = front from List.append_nil front] at here
    -- The second marker is taken out after the first, and then those of the other slots.
    have first : Token.Unmarked
        (Token.read (front ++ (Slot.markerText n ++ (Text.escape text ++
          (Slot.markerText n ++ (chunk ++ page))))))
        (Token.read (front ++ (Text.escape text ++ (Slot.markerText n ++ (chunk ++ page))))) 1 := by
      refine Token.unmarked_read here.place ?_ n
      rintro ⟨last, begins⟩
      refine here.begins ⟨last, ?_⟩
      rw [List.head?_append] at begins ⊢
      cases some : (Text.escape text).head? with
      | none =>
        rw [some] at begins
        cases begins
      | some c =>
        rw [some] at begins
        exact begins
    have second := Token.unmarked_read here.after (marks.notAcross here.ends) n
    have others : Token.Unmarked (Token.read (front ++ Text.escape text ++ (chunk ++ page)))
        (Token.read (front ++ Text.escape text ++ (chunk ++ fill slots)))
        (2 * (slots.map Prod.fst).count .content) := by
      simpa only [List.append_assoc] using ih stands.tail
    rw [← List.append_assoc front (Text.escape text)] at first
    have whole : fill ((.content, Text.escape text, chunk) :: slots) =
        Text.escape text ++ (chunk ++ fill slots) := by simp [fill]
    have count : 2 * (((SlotKind.content, Text.escape text, chunk) :: slots).map Prod.fst).count
        .content = 1 + 1 + 2 * (slots.map Prod.fst).count .content := by
      rw [List.map_cons, List.count_cons_self]
      omega
    rw [whole, count, ← List.append_assoc front (Text.escape text) (chunk ++ fill slots)]
    exact (first.trans second).trans others
  | @other slots page kind output chunk noContent marks ih =>
    have all := ih stands.tail
    have count : (((kind, output, chunk) :: slots).map Prod.fst).count .content =
        (slots.map Prod.fst).count .content := by
      rw [List.map_cons, List.count_cons_of_ne noContent]
    have whole : fill ((kind, output, chunk) :: slots) = output ++ (chunk ++ fill slots) := by
      simp [fill]
    rw [count, whole]
    simp only [List.append_assoc] at all ⊢
    exact all

/-! ## Whole pages -/

section Pages

variable {template : Template} {texts : List Text} {html : Text}

theorem map_fst_of_fills (fills : List.Forall₂ (Fills options) parts slots) :
    slots.map Prod.fst = parts.map Prod.fst := by
  induction fills with
  | nil => rfl
  | cons here _ ih => rw [List.map_cons, List.map_cons, here.1, ih]

theorem str_of_mem_parts (texts : List Text) :
    ∀ part ∈ template.parts (texts.map .str), ∃ text, part.2.1 = .str text := by
  rintro ⟨kind, value, chunk⟩ member
  have inside := (List.of_mem_zip (List.of_mem_zip member).2).1
  obtain ⟨text, _, same⟩ := List.mem_map.mp inside
  exact ⟨text, same.symm⟩

theorem map_fst_parts (count : texts.length = template.slotCount) :
    (template.parts (texts.map .str)).map Prod.fst = template.slots := by
  refine List.map_fst_zip ?_
  rw [List.length_zip, List.length_map, List.length_drop, template.parity, count]
  exact Nat.le_min.mpr ⟨Nat.le_refl _, Nat.le_refl _⟩

/-- A page up to the text of a slot is made of the slots before it. -/
theorem front_eq_fill {earlier later : List Filled} {output chunk front text : Text}
    (count : texts.length = template.slotCount)
    (fills : List.Forall₂ (Fills options) (template.parts (texts.map .str))
      (earlier ++ (.content, output, chunk) :: later))
    (found : texts[earlier.length]? = some text)
    (begins : (template.front (options.marking false) ((texts.take earlier.length).map .str)
      line).1 = .ok front) :
    output = Text.escape text ∧ front = template.chunks.headD [] ++ fill earlier := by
  have kind : template.slots[earlier.length]? = some .content := by
    rw [← map_fst_parts count, ← map_fst_of_fills fills]
    simp
  have bound : earlier.length < texts.length := (List.getElem?_eq_some_iff.mp found).1
  have split : texts.map Value.str = (texts.take earlier.length).map .str ++
      .str text :: (texts.drop (earlier.length + 1)).map .str := by
    have cut := List.take_append_drop earlier.length texts
    rw [List.drop_eq_getElem_cons bound, (List.getElem?_eq_some_iff.mp found).2] at cut
    rw [← List.map_cons, ← List.map_append, cut]
  have length : ((texts.take earlier.length).map Value.str).length = earlier.length := by
    rw [List.length_map, List.length_take, Nat.min_eq_left (Nat.le_of_lt bound)]
  obtain ⟨next, others, apart⟩ := exists_parts_append (length ▸ kind)
    ((texts.drop (earlier.length + 1)).map .str)
  have whole := apart (.str text)
  rw [← split] at whole
  rw [whole] at fills
  have before : (template.parts ((texts.take earlier.length).map .str)).length =
      earlier.length := by
    have chunks : (template.chunks.drop 1).length = template.slots.length := by
      rw [List.length_drop, template.parity]
      rfl
    have slots : template.slots.length = texts.length := count.symm
    rw [parts, List.length_zip, List.length_zip, length, chunks, slots]
    omega
  have first := List.forall₂_take_append _ _ _ fills
  have second := List.forall₂_drop_append _ _ _ fills
  rw [List.take_left' before] at first
  rw [List.drop_left' before] at second
  obtain ⟨here, _⟩ := List.forall₂_cons.mp second
  obtain ⟨written, put, same⟩ := front_eq_ok begins
  rw [writeSlots_unmarked first] at put
  have plain := here.2.2.2 line
  rw [Slot.write_content_unmarked] at plain
  refine ⟨(Except.ok.inj plain).symm, ?_⟩
  rw [same, ← Except.ok.inj put, Slot.marker_of_not_adoptable rfl, List.append_nil]

/-- Markers do not show where content stands in ordinary text: if this is so for the page without
markers, up to each content slot and with no line end across the borders of its text, then the page
with markers is rendered as well, the markers are two comments for each content slot, and without
these comments, and with texts joined that are then beside each other, it is read as the page
without markers. -/
theorem markers_invisible
    (rendered : (template.render (options.marking false) (texts.map .str) line).1 =
      .ok (.ready html))
    (stands : ∀ slot text, template.slots[slot]? = some .content → texts[slot]? = some text →
      ∃ front rest, (template.front (options.marking false) ((texts.take slot).map .str) line).1 =
          .ok front ∧ html = front ++ (Text.escape text ++ rest) ∧
        Stands front (Text.escape text) rest) (line' : Timeline) :
    ∃ html' kept, (template.render (options.marking true) (texts.map .str) line').1 =
        .ok (.ready html') ∧
      Event.Unmarked (Event.read html') kept (2 * template.slots.count .content) ∧
      Event.joinTexts kept = Event.read html := by
  obtain ⟨count, page, written, rfl⟩ := render_str_eq_ok_iff.mp rendered
  obtain ⟨slots, fills, rfl⟩ := exists_fills (str_of_mem_parts texts) written
  obtain ⟨page', written', marks⟩ := writeSlots_marked fills line'
  have kinds : slots.map Prod.fst = template.slots :=
    (map_fst_of_fills fills).trans (map_fst_parts count)
  have all : AllStand (template.chunks.headD []) slots := by
    intro earlier output chunk later same
    subst same
    have kind : template.slots[earlier.length]? = some .content := by
      rw [← kinds]
      simp
    obtain ⟨text, found⟩ : ∃ text, texts[earlier.length]? = some text := by
      refine ⟨_, List.getElem?_eq_getElem ?_⟩
      rw [count]
      exact (List.getElem?_eq_some_iff.mp kind).1
    obtain ⟨front, rest, begins, split, here⟩ := stands _ text kind found
    obtain ⟨rfl, rfl⟩ := front_eq_fill count fills found begins
    have ends : chunk ++ fill later = rest := by
      simpa [fill] using split
    rw [ends]
    exact here
  obtain ⟨kept, unmarked, joined⟩ := Event.exists_unmarked_read (marks.unmarked all)
  rw [kinds] at unmarked
  exact ⟨_, kept, render_str_eq_ok_iff.mpr ⟨count, page', written', rfl⟩, unmarked, joined⟩

end Pages

/-- A paragraph with a text that looks like a tag. -/
theorem markers_invisible_paragraph :
    let template : Template := ⟨["<p>".toList, "</p>".toList], [.content], rfl⟩
    (compile simplest {} Event.source ["<p>".toList, "</p>".toList]).result = .ok template ∧
    (template.render (Options.marking {} false) [.str "<b>".toList] Timeline.start).1 =
      .ok (.ready "<p>&lt;b&gt;</p>".toList) ∧
    ∃ html' kept, (template.render (Options.marking {} true) [.str "<b>".toList]
        Timeline.start).1 = .ok (.ready html') ∧
      Event.Unmarked (Event.read html') kept 2 ∧
      Event.joinTexts kept = Event.read "<p>&lt;b&gt;</p>".toList := by
  intro template
  have rendered : (template.render (Options.marking {} false) (["<b>".toList].map .str)
      Timeline.start).1 = .ok (.ready "<p>&lt;b&gt;</p>".toList) := rfl
  refine ⟨rfl, rfl, markers_invisible rendered (fun slot text kind found => ?_) Timeline.start⟩
  cases slot with
  | zero =>
    cases found
    exact ⟨"<p>".toList, "</p>".toList, rfl, rfl, rfl, by decide, by decide⟩
  | succ slot => cases kind

/-- The exceptions: in elements without markup a marker is text, and a line end that ends a text and
goes on after it is cut by the marker. -/
example :
    let area : Template := ⟨["<textarea>".toList, "</textarea>".toList], [.content], rfl⟩
    let lines : Template := ⟨["<p>".toList, "\n</p>".toList], [.content], rfl⟩
    (compile simplest {} Event.source ["<textarea>".toList, "</textarea>".toList]).result =
      .ok area ∧
    (area.render (Options.marking {} true) [.str ['x']] Timeline.start).1 =
      .ok (.ready "<textarea><!--\x01:1-->x<!--\x01:1--></textarea>".toList) ∧
    Event.read "<textarea><!--\x01:1-->x<!--\x01:1--></textarea>".toList =
      [.openTag "textarea".toList [], .text "<!--\x01:1-->x<!--\x01:1-->".toList,
        .closeTag "textarea".toList, .endOfInput] ∧
    (compile simplest {} Event.source ["<p>".toList, "\n</p>".toList]).result = .ok lines ∧
    (lines.render (Options.marking {} true) [.str ['\r']] Timeline.start).1 =
      .ok (.ready "<p><!--\x01:1-->\r<!--\x01:1-->\n</p>".toList) ∧
    Event.read "<p>\r\n</p>".toList =
      [.openTag ['p'] [], .text ['\n'], .closeTag ['p'], .endOfInput] :=
  ⟨rfl, rfl, rfl, rfl, rfl, rfl⟩

end Template

end HtmlTemplate

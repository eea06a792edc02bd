import HtmlTemplate.Proofs.Markup.Shelter
import HtmlTemplate.Proofs.Template.StartTag

/-!
# Texts in scripts and styles

Literal markup is written to a page as it was read, and a text in a content slot with its less-than
signs escaped. `Template.front` is the page up to the text of a slot. Where it leaves the tokenizer
in a sheltered place of a script or style, the text in the slot can be any other one: the page has
the same tags (`Template.tags_unmoved`).
-/

namespace HtmlTemplate

namespace Slot

/-- What a text becomes in a content slot, and how the timeline goes on. -/
theorem write_content_str (options : Options) (text : Text) (line : Timeline) :
    write options .content (.str text) line =
      (.ok ((marker options line).1 ++ Text.escape text ++ (marker options line).1),
        (marker options line).2) := by
  have silent : Live.record (Content.write options (.str text)) (marker options line).2 =
      (Text.escape text, (marker options line).2) := Live.record_silent _ _
  simp only [write, content, Live.bind_apply, Live.pure_apply, silent]

end Slot

namespace Template

variable {options : Options} {template : Template} {line : Timeline} {html : Text}

/-- The page up to the text of the content slot after those of the values. -/
def front (options : Options) (template : Template) (values : List Value) :
    Live (Except RenderError Text) := do
  match ← writeSlots options (template.parts values) with
  | .error error => pure (.error error)
  | .ok text => do
    let marker ← Slot.marker options
    pure (.ok (template.chunks.headD [] ++ text ++ marker))

/-! ## Slots one after the other -/

theorem writeSlots_cons_eq_ok {kind : SlotKind} {value : Value} {chunk : Text}
    {rest : List (SlotKind × Value × Text)} :
    (writeSlots options ((kind, value, chunk) :: rest) line).1 = .ok html ↔
      ∃ text others, (Slot.write options kind value line).1 = .ok text ∧
        (writeSlots options rest (Slot.write options kind value line).2).1 = .ok others ∧
        html = text ++ chunk ++ others := by
  rw [writeSlots, Live.bind_apply]
  cases (Slot.write options kind value line).1 with
  | error failure => simp [Live.pure_apply]
  | ok text =>
    simp only [Live.bind_apply]
    cases (writeSlots options rest (Slot.write options kind value line).2).1 with
    | error failure => simp [Live.pure_apply]
    | ok others => simp [Live.pure_apply, eq_comm]

theorem writeSlots_append_eq_ok {first rest : List (SlotKind × Value × Text)} :
    (writeSlots options (first ++ rest) line).1 = .ok html ↔
      ∃ text others, (writeSlots options first line).1 = .ok text ∧
        (writeSlots options rest (writeSlots options first line).2).1 = .ok others ∧
        html = text ++ others := by
  induction first generalizing line html with
  | nil =>
    refine ⟨fun h => ⟨[], html, rfl, h, rfl⟩, ?_⟩
    rintro ⟨text, others, written, later, rfl⟩
    cases written
    exact later
  | cons part first ih =>
    obtain ⟨kind, value, chunk⟩ := part
    have goes : ∀ {text others}, (Slot.write options kind value line).1 = .ok text →
        (writeSlots options first (Slot.write options kind value line).2).1 = .ok others →
        (writeSlots options ((kind, value, chunk) :: first) line).2 =
          (writeSlots options first (Slot.write options kind value line).2).2 := by
      intro text others written later
      rw [writeSlots, Live.bind_apply]
      simp only [written, Live.bind_apply, later]
      rfl
    rw [List.cons_append, writeSlots_cons_eq_ok]
    simp only [ih]
    constructor
    · rintro ⟨text, _, written, ⟨others, more, later, last, rfl⟩, rfl⟩
      refine ⟨text ++ chunk ++ others, more, writeSlots_cons_eq_ok.mpr ⟨_, _, written, later, rfl⟩,
        ?_, by simp only [List.append_assoc]⟩
      rw [goes written later]
      exact last
    · rintro ⟨_, more, all, last, rfl⟩
      obtain ⟨text, others, written, later, rfl⟩ := writeSlots_cons_eq_ok.mp all
      rw [goes written later] at last
      exact ⟨text, _, written, ⟨others, more, later, last, rfl⟩, by simp only [List.append_assoc]⟩

/-- A value in the middle of others belongs to one slot, and the parts before it are those of the
values before it. -/
theorem exists_parts_append {kind : SlotKind} {earlier : List Value}
    (found : template.slots[earlier.length]? = some kind) (later : List Value) :
    ∃ chunk others, ∀ value, template.parts (earlier ++ value :: later) =
      template.parts earlier ++ (kind, value, chunk) :: others := by
  have bound : earlier.length < (template.chunks.drop 1).length := by
    rw [List.length_drop, template.parity]
    exact (List.getElem?_eq_some_iff.mp found).1
  unfold parts
  generalize template.chunks.drop 1 = chunks at bound
  generalize template.slots = kinds at found
  induction earlier generalizing kinds chunks with
  | nil =>
    match kinds, chunks, found, bound with
    | _ :: kinds, chunk :: chunks, found, _ =>
      cases found
      exact ⟨chunk, kinds.zip (later.zip chunks), fun value => rfl⟩
  | cons first earlier ih =>
    match kinds, chunks, found, bound with
    | first' :: kinds, chunk' :: chunks, found, bound =>
      obtain ⟨chunk, others, same⟩ := ih chunks (Nat.lt_of_succ_lt_succ bound) kinds found
      refine ⟨chunk, others, fun value => ?_⟩
      simp only [List.cons_append, List.zip_cons_cons, same]

theorem front_eq_ok {values : List Value} {front : Text}
    (h : (template.front options values line).1 = .ok front) :
    ∃ text, (writeSlots options (template.parts values) line).1 = .ok text ∧
      front = template.chunks.headD [] ++ text ++
        (Slot.marker options (writeSlots options (template.parts values) line).2).1 := by
  unfold Template.front at h
  rw [Live.bind_apply] at h
  cases written : (writeSlots options (template.parts values) line).1 with
  | error failure =>
    rw [written] at h
    cases h
  | ok text =>
    rw [written] at h
    cases h
    exact ⟨text, rfl, rfl⟩

/-! ## One text for another -/

/-- A page with a text in a sheltered place has the same tags with any other text there. -/
theorem tags_replaced {earlier later : List Text} {text text' : Text} {element front : Text}
    (found : template.slots[earlier.length]? = some .content)
    (begins : (template.front options (earlier.map .str) line).1 = .ok front)
    (sheltered : (State.data.after (normalizeNewlines front)).Sheltered element)
    (rendered : (template.render options ((earlier ++ text' :: later).map .str) line).1 =
      .ok (.ready html)) :
    ∃ html', (template.render options ((earlier ++ text :: later).map .str) line).1 =
      .ok (.ready html') ∧ Event.tags html' = Event.tags html := by
  have found' : template.slots[(earlier.map Value.str).length]? = some .content := by
    rwa [List.length_map]
  obtain ⟨chunk, others, parts⟩ := exists_parts_append found' (later.map .str)
  have split : ∀ text, template.parts ((earlier ++ text :: later).map .str) =
      template.parts (earlier.map .str) ++ (.content, .str text, chunk) :: others := by
    intro text
    rw [← parts (.str text), List.map_append, List.map_cons]
  obtain ⟨before, written, same⟩ := front_eq_ok begins
  obtain ⟨count, _, all, rfl⟩ := render_str_eq_ok_iff.mp rendered
  rw [split] at all
  obtain ⟨first, _, written', rest, rfl⟩ := writeSlots_append_eq_ok.mp all
  obtain rfl : before = first := Except.ok.inj (written.symm.trans written')
  obtain ⟨_, last, here, onward, rfl⟩ := writeSlots_cons_eq_ok.mp rest
  rw [Slot.write_content_str] at here onward
  cases here
  have counted : (earlier ++ text :: later).length = template.slotCount := by
    rw [← count, List.length_append, List.length_append, List.length_cons, List.length_cons]
  let marker := Slot.marker options (writeSlots options (template.parts (earlier.map .str)) line).2
  have replaced :
      (writeSlots options (template.parts ((earlier ++ text :: later).map .str)) line).1 =
      .ok (before ++ (marker.1 ++ Text.escape text ++ marker.1 ++ chunk ++ last)) := by
    rw [split]
    refine writeSlots_append_eq_ok.mpr ⟨before, _, written, ?_, rfl⟩
    refine writeSlots_cons_eq_ok.mpr ⟨marker.1 ++ Text.escape text ++ marker.1, last, ?_, ?_, rfl⟩
    · rw [Slot.write_content_str]
    · rw [Slot.write_content_str]
      exact onward
  refine ⟨_, render_str_eq_ok_iff.mpr ⟨counted, _, replaced, rfl⟩, ?_⟩
  have around := Event.tags_around sheltered (Text.less_not_mem_escape text)
    (Text.less_not_mem_escape text') (marker.1 ++ chunk ++ last)
  rw [same] at around
  simp only [List.append_assoc] at around ⊢
  exact around

/-- Texts in sheltered places of scripts and styles do not change the tags of a page: with other
texts there, and the same texts in all other slots, it is rendered as well and has the same tags. -/
theorem tags_unmoved {texts texts' : List Text} (count : texts.length = texts'.length)
    (rendered : (template.render options (texts'.map .str) line).1 = .ok (.ready html))
    (sheltered : ∀ slot, texts[slot]? ≠ texts'[slot]? →
      template.slots[slot]? = some .content ∧ ∃ front element,
        (template.front options ((texts'.take slot).map .str) line).1 = .ok front ∧
          (State.data.after (normalizeNewlines front)).Sheltered element) :
    ∃ html', (template.render options (texts.map .str) line).1 = .ok (.ready html') ∧
      Event.tags html' = Event.tags html := by
  -- The texts are put in from the last slot to the first, so that the page is still the one before
  -- up to the slot at hand.
  have mixed : ∀ remaining slot, slot + remaining = texts.length → ∃ html',
      (template.render options ((texts'.take slot ++ texts.drop slot).map .str) line).1 =
        .ok (.ready html') ∧ Event.tags html' = Event.tags html := by
    intro remaining
    induction remaining with
    | zero =>
      intro slot last
      have all : texts'.take slot ++ texts.drop slot = texts' := by
        rw [List.take_of_length_le (by omega), List.drop_eq_nil_of_le (by omega), List.append_nil]
      exact ⟨html, by rw [all]; exact rendered, rfl⟩
    | succ remaining ih =>
      intro slot more
      have bound : slot < texts.length := by omega
      have bound' : slot < texts'.length := by omega
      obtain ⟨page, later, tags⟩ := ih (slot + 1) (by omega)
      rw [List.take_succ_eq_append_getElem bound', List.append_assoc, List.singleton_append]
        at later
      rw [List.drop_eq_getElem_cons bound]
      by_cases same : texts[slot] = texts'[slot]
      · rw [same]
        exact ⟨page, later, tags⟩
      · obtain ⟨kind, front, element, begins, place⟩ := sheltered slot (by
          rw [List.getElem?_eq_getElem bound, List.getElem?_eq_getElem bound']
          exact fun equal => same (Option.some.inj equal))
        have length : (texts'.take slot).length = slot := by
          rw [List.length_take]
          omega
        rw [← length] at kind
        obtain ⟨html', written, unmoved⟩ := tags_replaced kind begins place later
        exact ⟨html', written, unmoved.trans tags⟩
  obtain ⟨html', written, tags⟩ := mixed texts.length 0 (Nat.zero_add _)
  exact ⟨html', written, tags⟩

/-- A script that quotes a text. Its end tag in the text is none in the page. -/
theorem tags_unmoved_quoted :
    ∃ template html, (compile simplest {} Event.source
        ["<script>x = \"".toList, "\";</script>".toList]).result = .ok template ∧
      (template.render {} [.str []] Timeline.start).1 = .ok (.ready html) ∧
      ∃ html', (template.render {} [.str "</script>".toList] Timeline.start).1 =
        .ok (.ready html') ∧ Event.tags html' = Event.tags html := by
  have compiled : (compile simplest {} Event.source
      ["<script>x = \"".toList, "\";</script>".toList]).result =
      .ok ⟨["<script>x = \"".toList, "\";</script>".toList], [.content], rfl⟩ := rfl
  refine ⟨_, "<script>x = \"\";</script>".toList, compiled, rfl, ?_⟩
  have count : ["</script>".toList].length = [([] : Text)].length := rfl
  refine tags_unmoved count rfl ?_
  intro slot differ
  cases slot with
  | zero => exact ⟨rfl, "<script>x = \"".toList, "script".toList, rfl, .content⟩
  | succ slot => exact absurd rfl differ

/-- The exception: after `</`, a text can be the name that makes it an end tag. -/
example :
    (compile simplest {} Event.source ["<script>x </".toList, "></script>".toList]).result =
      .ok ⟨["<script>x </".toList, "></script>".toList], [.content], rfl⟩ ∧
    Event.tags ("<script>x </".toList ++ Text.escape "script".toList ++ "></script>".toList) =
      [.openTag "script".toList [], .closeTag "script".toList, .closeTag "script".toList] ∧
    Event.tags ("<script>x </".toList ++ Text.escape [] ++ "></script>".toList) =
      [.openTag "script".toList [], .closeTag "script".toList] :=
  ⟨rfl, rfl, rfl⟩

end Template

end HtmlTemplate

import HtmlTemplate.Proofs.Template.Page

/-!
# Start tags of pages

A start tag is printed with its literal attributes first and then those with slots, in the order of
the slots (`Draft.printed`). Sorted, they are what the tag is meant to be for the texts in its slots
(`Draft.printed_perm`). The page of a template is that of the draft it was made from, so the text of
a start tag in it is what the draft adds for the tag, and this is read back as the start tag with
the texts of its slots (`Template.startTag_read_back`).
-/

namespace HtmlTemplate

namespace Draft

variable {s : Sentinel} {options : Options} {outputs : Nat → Text} {texts : List Text}

/-- The text of a boolean attribute that is on. -/
def trueWord : Text := ['t', 'r', 'u', 'e']

/-- An attribute with a slot as it is printed for a text in the slot, if it is. -/
def printedSlot? (options : Options) (texts : List Text) (entry : Nat × Text) : Option Printed :=
  match attributeKind options entry.2 with
  | .boolean _ => if texts.getD entry.1 [] = trueWord then some (.bare entry.2) else none
  | _ => some (.valued entry.2 (texts.getD entry.1 []))

/-- The attributes of a tag as they are printed for texts in its slots: those with slots come after
the others, in the order of the slots. -/
def printed (s : Sentinel) (options : Options) (texts : List Text) (attributes : List Attribute) :
    List Printed :=
  attributes.filterMap (literal? s) ++ (slotted s attributes).filterMap (printedSlot? options texts)

/-- What an attribute is meant to be for texts in the slots of its tag. -/
def meant? (s : Sentinel) (options : Options) (texts : List Text) (a : Attribute) :
    Option Attribute :=
  match s.slotOf? a.value with
  | none => some ⟨a.name, (normalizeNewlines a.value).map State.kept⟩
  | some slot =>
    match attributeKind options a.name with
    | .boolean _ => if texts.getD slot [] = trueWord then some ⟨a.name, []⟩ else none
    | _ => some ⟨a.name, (normalizeNewlines (texts.getD slot [])).map State.kept⟩

theorem name_of_meant? {a b : Attribute} (h : meant? s options texts a = some b) :
    b.name = a.name := by
  unfold meant? at h
  split at h
  · cases h
    rfl
  · split at h
    · split at h
      · cases h
        rfl
      · cases h
    · cases h
      rfl

theorem read_printedLiteral (a : Attribute) :
    (printedLiteral a).read = ⟨a.name, (normalizeNewlines a.value).map State.kept⟩ := by
  unfold printedLiteral
  split
  · rename_i bare
    rw [bare.1]
    rfl
  · rfl

/-- What is printed is what is meant. -/
theorem printed_perm (s : Sentinel) (options : Options) (texts : List Text)
    (attributes : List Attribute) :
    ((printed s options texts attributes).map Printed.read).Perm
      (attributes.filterMap (meant? s options texts)) := by
  induction attributes with
  | nil => exact .refl _
  | cons a rest ih =>
    rw [printed] at ih ⊢
    cases found : s.slotOf? a.value with
    | none =>
      have literal : literal? s a = some (printedLiteral a) := by rw [literal?, found]
      have meant : meant? s options texts a = some (printedLiteral a).read := by
        rw [meant?, found, read_printedLiteral]
      have slots : slotted s (a :: rest) = slotted s rest := by rw [slotted, found]
      rw [List.filterMap_cons_some literal, List.filterMap_cons_some meant, slots]
      exact ih.cons _
    | some slot =>
      have literal : literal? s a = none := by rw [literal?, found]
      have slots : slotted s (a :: rest) = insertSlotted (slot, a.name) (slotted s rest) := by
        rw [slotted, found]
      have meant : meant? s options texts a =
          (printedSlot? options texts (slot, a.name)).map Printed.read := by
        simp only [meant?, found, printedSlot?]
        split
        · split <;> rfl
        · rfl
      have moved := (insertSlotted_perm (slot, a.name) (slotted s rest)).filterMap
        (printedSlot? options texts)
      rw [List.filterMap_cons_none literal, slots]
      refine ((moved.append_left _).map _).trans ?_
      cases printing : printedSlot? options texts (slot, a.name) with
      | none =>
        rw [printing] at meant
        rw [List.filterMap_cons_none printing, List.filterMap_cons_none meant]
        exact ih
      | some item =>
        rw [printing] at meant
        rw [List.filterMap_cons_some printing, List.filterMap_cons_some meant]
        exact (List.perm_middle.map _).trans (ih.cons _)

theorem sorted_meant {attributes : List Attribute} (sorted : Attribute.Sorted attributes) :
    Attribute.Sorted (attributes.filterMap (meant? s options texts)) := by
  refine List.Pairwise.filterMap _ ?_ sorted
  intro a b less a' found b' found'
  rw [name_of_meant? found, name_of_meant? found']
  exact less

theorem names_printed {attributes : List Attribute}
    (names : ∀ a ∈ attributes, AttributeName a.name) :
    ∀ item ∈ printed s options texts attributes, AttributeName item.name := by
  intro item member
  have read := (printed_perm s options texts attributes).mem_iff.mp
    (List.mem_map_of_mem (f := Printed.read) member)
  obtain ⟨a, known, meant⟩ := List.mem_filterMap.mp read
  have name : item.read.name = item.name := by cases item <;> rfl
  rw [← name, name_of_meant? meant]
  exact names a known

/-- What a text becomes in a slot of an attribute. -/
def slotOutput (kind : SlotKind) (text : Text) : Text :=
  match kind with
  | .boolean name => if text = trueWord then ' ' :: name else []
  | _ => Text.escape text

theorem attributeKind_eq_boolean {name kind : Text}
    (h : attributeKind options name = .boolean kind) : kind = name := by
  unfold attributeKind at h
  split at h
  · cases h
  · split at h
    · exact (SlotKind.boolean.inj h).symm
    · split at h
      · cases h
      · split at h <;> cases h

/-- A slotted attribute adds to the page what is printed of it. -/
theorem slottedText_eq {entry : Nat × Text} (known : outputs entry.1 =
      slotOutput (attributeKind options entry.2) (texts.getD entry.1 [])) :
    slottedText options outputs entry =
      ((printedSlot? options texts entry).map Printed.text).getD [] := by
  unfold slottedText printedSlot?
  rw [known]
  cases kinded : attributeKind options entry.2 with
  | boolean name =>
    obtain rfl := attributeKind_eq_boolean kinded
    simp only [slotOutput]
    split <;> rfl
  | _ => rfl

theorem flatMap_slottedText {entries : List (Nat × Text)}
    (known : ∀ entry ∈ entries, outputs entry.1 =
      slotOutput (attributeKind options entry.2) (texts.getD entry.1 [])) :
    entries.flatMap (slottedText options outputs) =
      (entries.filterMap (printedSlot? options texts)).flatMap Printed.text := by
  induction entries with
  | nil => rfl
  | cons entry rest ih =>
    have later := ih fun other member => known other (List.mem_cons_of_mem entry member)
    rw [List.flatMap_cons, later, slottedText_eq (known entry List.mem_cons_self)]
    cases printing : printedSlot? options texts entry with
    | none =>
      rw [List.filterMap_cons_none printing]
      rfl
    | some item =>
      rw [List.filterMap_cons_some printing, List.flatMap_cons]
      rfl

theorem attributeKind_ne_content (options : Options) (name : Text) :
    attributeKind options name ≠ .content := by
  unfold attributeKind
  repeat' split
  all_goals
    intro same
    cases same

theorem mem_slotted {entry : Nat × Text} {attributes : List Attribute}
    (h : entry ∈ slotted s attributes) :
    ∃ a ∈ attributes, s.slotOf? a.value = some entry.1 ∧ a.name = entry.2 := by
  induction attributes with
  | nil => cases h
  | cons a rest ih =>
    have later : entry ∈ slotted s rest →
        ∃ b ∈ a :: rest, s.slotOf? b.value = some entry.1 ∧ b.name = entry.2 := by
      intro member
      obtain ⟨b, known, found⟩ := ih member
      exact ⟨b, List.mem_cons_of_mem a known, found⟩
    rw [slotted] at h
    split at h
    · rename_i slot found
      rcases List.mem_cons.mp ((insertSlotted_perm _ _).mem_iff.mp h) with rfl | member
      · exact ⟨a, List.mem_cons_self, found, rfl⟩
      · exact later member
    · exact later h

/-- A draft adds the start tag as it is printed. -/
theorem tagText_eq {name : Text} {attributes : List Attribute}
    (known : ∀ entry ∈ slotted s attributes, outputs entry.1 =
      slotOutput (attributeKind options entry.2) (texts.getD entry.1 [])) :
    tagText s options outputs name attributes =
      Printed.startTag name (printed s options texts attributes) := by
  rw [tagText, flatMap_slottedText known, printed, Printed.startTag, List.flatMap_append]
  simp only [List.append_assoc]

end Draft

/-! ## Pages of templates -/

namespace Template

variable {s : Sentinel} {options : Options} {segments : List Text} {template : Template}

/-- Slots that are written give a text for each of them, with its chunk after it. -/
theorem writeSlots_eq_ok {parts : List (SlotKind × Value × Text)} {line : Timeline} {html : Text}
    (h : (writeSlots options parts line).1 = .ok html) :
    ∃ outputs : Nat → Text,
      html = ((parts.map fun part => part.2.2).mapIdx fun slot chunk =>
        outputs slot ++ chunk).flatten ∧
      ∀ slot kind value chunk, parts[slot]? = some (kind, value, chunk) →
        ∃ line, (Slot.write options kind value line).1 = .ok (outputs slot) := by
  induction parts generalizing line html with
  | nil =>
    cases h
    exact ⟨fun _ => [], rfl, fun _ _ _ _ found => by cases found⟩
  | cons part rest ih =>
    obtain ⟨kind, value, chunk⟩ := part
    unfold writeSlots at h
    rw [Live.bind_apply] at h
    cases written : (Slot.write options kind value line).1 with
    | error failure =>
      rw [written] at h
      cases h
    | ok output =>
      rw [written] at h
      simp only [Live.bind_apply] at h
      cases later : (writeSlots options rest (Slot.write options kind value line).2).1 with
      | error failure =>
        rw [later] at h
        cases h
      | ok others =>
        rw [later] at h
        cases h
        obtain ⟨outputs, rfl, known⟩ := ih later
        refine ⟨fun slot => if slot = 0 then output else outputs (slot - 1), ?_, ?_⟩
        · simp [List.mapIdx_cons]
        · intro slot kind' value' chunk' found
          cases slot with
          | zero =>
            cases found
            exact ⟨line, written⟩
          | succ slot => exact known slot kind' value' chunk' found

/-- Chunks with a text before each but the first, as chunks with a text after each but the last. -/
theorem flatten_mapIdx_eq (outputs : Nat → Text) (chunks : List Text) (last : Text) :
    (chunks ++ [last]).headD [] ++
        (((chunks ++ [last]).drop 1).mapIdx fun slot chunk => outputs slot ++ chunk).flatten =
      (chunks.mapIdx fun slot chunk => chunk ++ outputs slot).flatten ++ last := by
  induction chunks generalizing outputs with
  | nil => simp
  | cons chunk rest ih =>
    have later := ih fun slot => outputs (slot + 1)
    obtain ⟨next, others, same⟩ : ∃ next others, rest ++ [last] = next :: others := by
      cases rest with
      | nil => exact ⟨_, _, rfl⟩
      | cons next rest => exact ⟨_, _, rfl⟩
    rw [same] at later
    simp only [List.cons_append, same, List.headD_cons, List.drop_succ_cons, List.drop_zero,
      List.mapIdx_cons, List.flatten_cons, List.append_assoc] at later ⊢
    rw [later]

theorem anyAsync_map_str (texts : List Text) : Value.anyAsync (texts.map .str) = false := by
  induction texts with
  | nil => rfl
  | cons text rest ih => simp [Value.anyAsync, Value.isAsync, ih]

/-- The slots that values are there for, each with its value and the chunk after it. -/
def parts (template : Template) (values : List Value) : List (SlotKind × Value × Text) :=
  template.slots.zip (values.zip (template.chunks.drop 1))

/-- A page of texts is the first chunk and the slots that are written after it. -/
theorem render_str_eq_ok_iff {texts : List Text} {line : Timeline} {html : Text} :
    (template.render options (texts.map .str) line).1 = .ok (.ready html) ↔
      texts.length = template.slotCount ∧ ∃ text,
        (writeSlots options (template.parts (texts.map .str)) line).1 = .ok text ∧
          html = template.chunks.headD [] ++ text := by
  unfold render checkCount
  by_cases count : (texts.map Value.str).length = template.slotCount
  · rw [if_pos count]
    rw [List.length_map] at count
    have same : template.slots.zip ((texts.map Value.str).zip (template.chunks.drop 1)) =
        template.parts (texts.map .str) := rfl
    simp only [anyAsync_map_str, Bool.false_eq_true, if_false, Live.bind_apply, write, same]
    cases (writeSlots options (template.parts (texts.map .str)) line).1 with
    | error failure => simp [Live.pure_apply]
    | ok text => simp [Live.pure_apply, count, eq_comm]
  · rw [if_neg count]
    rw [List.length_map] at count
    simp [Live.pure_apply, count]

/-- A page that is rendered from texts is its chunks with what each text becomes in its slot. -/
theorem render_str_eq_ok {texts : List Text} {line : Timeline} {html : Text}
    (h : (template.render options (texts.map .str) line).1 = .ok (.ready html)) :
    texts.length = template.slots.length ∧ ∃ outputs : Nat → Text,
      html = template.chunks.headD [] ++
        ((template.chunks.drop 1).mapIdx fun slot chunk => outputs slot ++ chunk).flatten ∧
      ∀ slot kind text, template.slots[slot]? = some kind → texts[slot]? = some text →
        ∃ line, (Slot.write options kind (.str text) line).1 = .ok (outputs slot) := by
  obtain ⟨count, text, written, rfl⟩ := render_str_eq_ok_iff.mp h
  have chunks : (template.chunks.drop 1).length = template.slots.length := by
    rw [List.length_drop, template.parity]
    rfl
  have length : (texts.map Value.str).length = template.slots.length := by
    rw [List.length_map]
    exact count
  have after : (template.parts (texts.map .str)).map (fun part => part.2.2) =
      template.chunks.drop 1 := by
    have pairs : ((template.parts (texts.map .str)).map Prod.snd).map Prod.snd =
        template.chunks.drop 1 := by
      rw [parts, List.map_snd_zip, List.map_snd_zip]
      · rw [length, chunks]
      · rw [List.length_zip]
        exact Nat.le_trans (Nat.min_le_right _ _) (Nat.le_of_eq chunks)
    rw [List.map_map] at pairs
    exact pairs
  obtain ⟨outputs, rfl, known⟩ := writeSlots_eq_ok written
  refine ⟨count, outputs, by rw [after], fun slot kind text kinds found => ?_⟩
  have bound : slot < (template.chunks.drop 1).length := by
    rw [chunks]
    exact (List.getElem?_eq_some_iff.mp kinds).1
  refine known slot kind (.str text) (template.chunks.drop 1)[slot] ?_
  rw [parts, List.getElem?_zip_eq_some, List.getElem?_zip_eq_some]
  refine ⟨kinds, ?_, List.getElem?_eq_getElem bound⟩
  rw [List.getElem?_map, found]
  rfl

/-- What a text becomes in the slot of an attribute. -/
theorem eq_slotOutput {kind : SlotKind} {text output : Text} {line : Timeline}
    (plain : ∀ name, kind ≠ .intent name) (outside : kind ≠ .content)
    (h : (Slot.write options kind (.str text) line).1 = .ok output) :
    output = Draft.slotOutput kind text := by
  cases kind with
  | event =>
    have written := congrArg Noted.result (@Slot.written_str options .event (by simp) text)
    have same : (Slot.write options .event (.str text) line).1 = .ok (Text.escape text) := written
    rw [same] at h
    exact (Except.ok.inj h).symm
  | boolean name =>
    have same : (Slot.write options (.boolean name) (.str text) line).1 =
        .ok (Draft.slotOutput (.boolean name) text) := by
      show Except.ok (if Slot.isOn (.str text) then _ else _) = _
      by_cases on : text = Draft.trueWord
      · simp [Slot.isOn, Draft.slotOutput, on, Draft.trueWord]
      · have off : ¬ text = ['t', 'r', 'u', 'e'] := on
        simp [Slot.isOn, Draft.slotOutput, on, off]
    rw [same] at h
    exact (Except.ok.inj h).symm
  | style =>
    exact (Except.ok.inj h).symm
  | generic =>
    exact (Except.ok.inj h).symm
  | intent name => exact absurd rfl (plain name)
  | content => exact absurd rfl outside

/-- What texts become in the slots of a start tag. -/
theorem outputs_of_slotted {attributes : List Attribute} {slots : List SlotKind} {texts : List Text}
    {outputs : Nat → Text}
    (kinds : ∀ entry ∈ Draft.slotted s attributes,
      slots[entry.1]? = some (Draft.attributeKind options entry.2))
    (count : texts.length = slots.length)
    (plain : ∀ a ∈ attributes, ∀ slot, s.slotOf? a.value = some slot →
      ∀ intent, Draft.attributeKind options a.name ≠ .intent intent)
    (known : ∀ slot kind text, slots[slot]? = some kind → texts[slot]? = some text →
      ∃ line, (Slot.write options kind (.str text) line).1 = .ok (outputs slot)) :
    ∀ entry ∈ Draft.slotted s attributes, outputs entry.1 =
      Draft.slotOutput (Draft.attributeKind options entry.2) (texts.getD entry.1 []) := by
  intro entry member
  obtain ⟨a, inside, slot, name⟩ := Draft.mem_slotted member
  have kind := kinds entry member
  have bound : entry.1 < texts.length := by
    rw [count]
    exact (List.getElem?_eq_some_iff.mp kind).1
  have text : texts[entry.1]? = some (texts.getD entry.1 []) := by
    rw [List.getD_eq_getElem?_getD, List.getElem?_eq_getElem bound]
    rfl
  obtain ⟨line, written⟩ := known entry.1 _ _ kind text
  exact eq_slotOutput (name ▸ plain a inside entry.1 slot)
    (Draft.attributeKind_ne_content options entry.2) written

/-- The draft of a skeleton that compiles, right before the end of the input. -/
theorem exists_draft (h : (compile s options Event.source segments).result = .ok template) :
    ∃ d, Draft.takeAll s options Draft.empty (Event.ofTokens (Token.read (s.join segments))) =
      .ok d ∧
      template.chunks = d.chunks ++ [d.current] ∧ template.slots = d.slots := by
  have report : (ofReport s options (segments.length - 1)
      (Event.source (s.join segments))).result = .ok template := h
  unfold ofReport at report
  split at report
  · cases report
  · rename_i last taken
    have taken : Draft.takeAll s options Draft.empty
        (Event.ofTokens (Token.read (s.join segments)) ++ [.endOfInput]) = .ok last := taken
    rw [Draft.takeAll_append] at taken
    obtain ⟨d, found, ended⟩ := Draft.bind_eq_ok taken
    cases ended
    refine ⟨d, found, ?_⟩
    have draft : (ofDraft (segments.length - 1)
        { d with current := [], chunks := d.chunks ++ [d.current] }).result = .ok template := report
    unfold ofDraft at draft
    split at draft
    · simp only at draft
      split at draft
      · rename_i parts
        unfold ofParts? at parts
        split at parts
        · cases parts
          cases draft
          exact ⟨rfl, rfl⟩
        · cases parts
      · cases draft
    · cases draft

/-- Whatever texts the slots of a skeleton get, the text of a start tag in the page is read back as
that start tag: with its literal attributes, with the texts of its slots as the values of their
attributes, with the boolean attributes that are on, and with nothing else. The one exception is an
attribute whose name begins with an equals sign and which is printed right after a bare name. -/
theorem startTag_read_back
    (compiled : (compile s options Event.source segments).result = .ok template)
    {before after : List Event} {name : Text} {attributes : List Attribute}
    (events : Event.read (s.join segments) = before ++ .openTag name attributes :: after)
    (plain : ∀ a ∈ attributes, ∀ slot, s.slotOf? a.value = some slot →
      ∀ intent, Draft.attributeKind options a.name ≠ .intent intent)
    {texts : List Text}
    (apart : (Draft.printed s options texts attributes).IsChain Printed.Apart)
    {line : Timeline} {html : Text}
    (rendered : (template.render options (texts.map .str) line).1 = .ok (.ready html)) :
    ∃ (d d' : Draft) (outputs : Nat → Text) (tag rest : Text),
      Draft.takeAll s options Draft.empty before = .ok d ∧
      Draft.take s options d (.openTag name attributes) = .ok d' ∧
      (∀ slot kind text, template.slots[slot]? = some kind → texts[slot]? = some text →
        ∃ line, (Slot.write options kind (.str text) line).1 = .ok (outputs slot)) ∧
      html = d.page outputs ++ (tag ++ rest) ∧ d'.page outputs = d.page outputs ++ tag ∧
      Token.read tag =
        [.startTag name (attributes.filterMap (Draft.meant? s options texts)) false] := by
  obtain ⟨last, taken, chunks, slots⟩ := exists_draft compiled
  obtain ⟨count, outputs, rfl, known⟩ := render_str_eq_ok rendered
  obtain ⟨later, same⟩ := Event.ofTokens_of_read (fun same => by cases same) events
  obtain ⟨selfClosing, read⟩ : ∃ selfClosing,
      .startTag name attributes selfClosing ∈ Token.read (s.join segments) := by
    refine Event.exists_of_openTag_mem ?_
    rw [same]
    exact List.mem_append_right _ List.mem_cons_self
  have named : (⟨false, name, attributes⟩ : Tag).Named := Token.named_read _ _ read
  have noEnd := Event.endOfInput_not_mem (Token.read (s.join segments))
  rw [same, Draft.takeAll_append] at taken
  rw [same] at noEnd
  obtain ⟨d, found, onward⟩ := Draft.bind_eq_ok taken
  obtain ⟨d', opened, others⟩ := Draft.bind_eq_ok onward
  obtain ⟨begun, begunKinds, begins⟩ := Draft.adds_takeAll outputs
    (fun member => noEnd (List.mem_append_left _ member)) found
  obtain ⟨⟨tagKinds, adds⟩, kinded⟩ := Draft.adds_openTag outputs opened
  obtain ⟨rest, restKinds, ends⟩ := Draft.adds_takeAll outputs
    (fun member => noEnd (List.mem_append_right _ (List.mem_cons_of_mem _ member))) others
  have kinds : ∀ entry ∈ Draft.slotted s attributes,
      template.slots[entry.1]? = some (Draft.attributeKind options entry.2) := by
    intro entry member
    rw [slots, ends.slots, List.getElem?_append_left]
    · exact kinded entry member
    · exact (List.getElem?_eq_some_iff.mp (kinded entry member)).1
  have even : (Draft.empty).chunks.length = (Draft.empty).slots.length := rfl
  have page : last.page outputs = d.page outputs ++
      (Draft.tagText s options outputs name attributes ++ rest) := by
    rw [ends.page (adds.even (begins.even even)), adds.page (begins.even even), List.append_assoc]
  refine ⟨d, d', outputs, _, rest, found, opened, known, ?_, adds.page (begins.even even), ?_⟩
  · rw [← page, chunks, flatten_mapIdx_eq]
    rfl
  · rw [Draft.tagText_eq (outputs_of_slotted kinds count plain known)]
    exact Token.read_startTag named.name (Draft.names_printed named.attributes) apart
      (Draft.sorted_meant named.sorted) (Draft.printed_perm s options texts attributes)

/-- A literal attribute, a slot under a name that begins with an equals sign, and a switch. -/
theorem startTag_read_back_input :
    ∃ template line, (compile simplest {} Event.source
        ["<input type=a =x=".toList, " checked=".toList, ">".toList]).result = .ok template ∧
      (template.render {} [.str "a b\"".toList, .str "true".toList] line).1 =
        .ok (.ready "<input type=\"a\" =x=\"a b&quot;\" checked>".toList) ∧
      ∃ (tag rest : Text), "<input type=\"a\" =x=\"a b&quot;\" checked>".toList = tag ++ rest ∧
        Token.read tag = [.startTag "input".toList [⟨"=x".toList, "a b\"".toList⟩,
          ⟨"checked".toList, []⟩, ⟨"type".toList, "a".toList⟩] false] := by
  have compiled : (compile simplest {} Event.source
      ["<input type=a =x=".toList, " checked=".toList, ">".toList]).result =
      .ok ⟨["<input type=\"a\" =x=\"".toList, "\"".toList, ">".toList],
        [.generic, .boolean "checked".toList], rfl⟩ := rfl
  have events : Event.read (simplest.join
      ["<input type=a =x=".toList, " checked=".toList, ">".toList]) =
      [] ++ .openTag "input".toList [⟨"=x".toList, simplest.attributeMarker 0⟩,
        ⟨"checked".toList, simplest.attributeMarker 1⟩, ⟨"type".toList, "a".toList⟩] ::
        [.endOfInput] := rfl
  have rendered : (Template.render {} ⟨["<input type=\"a\" =x=\"".toList, "\"".toList, ">".toList],
        [.generic, .boolean "checked".toList], rfl⟩
      (["a b\"".toList, "true".toList].map .str) ⟨0, 0, 0, 0, []⟩).1 =
      .ok (.ready "<input type=\"a\" =x=\"a b&quot;\" checked>".toList) := rfl
  have plain : ∀ a ∈ [(⟨"=x".toList, simplest.attributeMarker 0⟩ : Attribute),
        ⟨"checked".toList, simplest.attributeMarker 1⟩, ⟨"type".toList, "a".toList⟩],
      ∀ slot, simplest.slotOf? a.value = some slot →
        ∀ intent, Draft.attributeKind {} a.name ≠ .intent intent := by
    intro a member slot _ intent same
    have kinds : ∀ name ∈ ["=x".toList, "checked".toList, "type".toList],
        Draft.attributeKind {} name ∈ [.generic, .boolean "checked".toList] := by decide
    have known := kinds a.name (List.mem_map_of_mem (f := Attribute.name) member)
    rw [same] at known
    simp at known
  refine ⟨_, _, compiled, rendered, ?_⟩
  obtain ⟨d, d', outputs, tag, rest, found, _, _, page, _, read⟩ :=
    startTag_read_back compiled events plain (by decide) rendered
  cases found
  exact ⟨tag, rest, page, read⟩

/-- The exception: after a bare name, the text of a slot is read as more attributes. -/
example :
    (compile simplest {} Event.source ["<input =foo=".toList, " checked>".toList]).result =
      .ok ⟨["<input checked =foo=\"".toList, "\">".toList], [.generic], rfl⟩ ∧
    Token.read ("<input checked =foo=\"".toList ++ Text.escape "a onclick=alert(1) ".toList ++
        "\">".toList) =
      [.startTag "input".toList [⟨"\"".toList, []⟩, ⟨"checked".toList, "foo=\"a".toList⟩,
        ⟨"onclick".toList, "alert(1)".toList⟩] false] :=
  ⟨rfl, rfl⟩

end Template

end HtmlTemplate

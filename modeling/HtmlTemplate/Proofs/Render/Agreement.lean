import HtmlTemplate.Proofs.Render.Ended
import HtmlTemplate.Proofs.Render.Stream

/-!
# All ways to send a page agree

A page can be rendered at once, after waiting for its values, or in fragments. Where all values
settle and all transformations of attributes succeed, each way gives the text of the page that a
host would have rendered that had waited for the values before, and delays make no difference
(`Template.outputs_agree`).
-/

namespace HtmlTemplate

variable {options : Options}

/-! ## Slots -/

namespace Slot

/-- The transformation of an attribute, if the slot has one, does not fail for a value. -/
def Accepts (options : Options) (kind : SlotKind) (value : Value) : Prop :=
  ∀ name transform reason, kind = .intent name →
    Entries.get? name options.intents = some transform →
    (transform none value).result ≠ .error reason

/-- The text of a value in a slot. -/
def text (options : Options) (kind : SlotKind) (value : Value) : Text :=
  match (written options kind value).result with
  | .ok text => text
  | .error _ => []

theorem written_of_accepts {kind : SlotKind} {value : Value} (h : Accepts options kind value) :
    (written options kind value).result = .ok (text options kind value) := by
  have fine : ∀ error, (written options kind value).result ≠ .error error := by
    intro error
    cases kind with
    | intent name =>
      simp only [written, intent]
      cases found : Entries.get? name options.intents with
      | none => exact fun same => by cases same
      | some transform =>
        have accepted := fun reason => h name transform reason rfl found
        cases result : (transform none value).result with
        | error reason => exact absurd result (accepted reason)
        | ok value =>
          simp only [Noted.bind_result, result]
          cases value <;> exact fun same => by cases same
    | _ => exact fun same => by cases same
  unfold text
  cases result : (written options kind value).result with
  | ok text => rfl
  | error error => exact absurd result (fine error)

/-- Values that have settled are written like the values that a host would have supplied. -/
theorem written_resolved {kind : SlotKind} {value : Value}
    (fair : value.Fair options (Template.slotMode options kind)) :
    (written options kind (value.resolved options (Template.slotMode options kind))).result =
      (written options kind (value.replaced options (Template.slotMode options kind))).result := by
  cases kind with
  | content =>
    have same := fair.write_resolved
    exact congrArg Except.ok same
  | _ => rw [Value.resolved_eq_replaced rfl fair]

theorem text_resolved {kind : SlotKind} {value : Value}
    (fair : value.Fair options (Template.slotMode options kind)) :
    text options kind (value.resolved options (Template.slotMode options kind)) =
      text options kind (value.replaced options (Template.slotMode options kind)) := by
  unfold text
  rw [written_resolved fair]

end Slot

/-! ## Pages -/

namespace Template

/-- The chunks of a page with the values of the slots between them. -/
def page (options : Options) (template : Template) (values : List Value) : Text :=
  template.chunks.headD [] ++
    ((template.slots.zip (values.zip (template.chunks.drop 1))).map fun (kind, value, chunk) =>
      Slot.text options kind value ++ chunk).flatten

/-- The values of the slots with everything that has to be waited for replaced by what it resolves
to. -/
def replacedSlots (options : Options) (template : Template) (values : List Value) : List Value :=
  List.zipWith (fun kind => Value.replaced options (slotMode options kind)) template.slots values

/-- What the values of the slots resolve to. -/
def resolvedSlots (options : Options) (template : Template) (values : List Value) : List Value :=
  List.zipWith (fun kind => Value.resolved options (slotMode options kind)) template.slots values

/-- The values of the slots settle, and everything in them can be written. In content, what replaces
an object is replaced at most `depth` times in a row, and the host has the patience for that. -/
structure Agreeable (options : Options) (depth : Nat) (template : Template) (values : List Value) :
    Prop where
  count : values.length = template.slotCount
  settles : ∀ p ∈ template.slots.zip values, p.2.Fair options ⟨p.1.isContent, depth⟩
  accepts : ∀ p ∈ template.slots.zip values,
    Slot.Accepts options p.1 (p.2.replaced options (slotMode options p.1))
  patient : depth ≤ options.expansions

theorem zip_zipWith {α β γ δ : Type} (g : α → β → γ) (as : List α) (bs : List β) (cs : List δ) :
    as.zip ((List.zipWith g as bs).zip cs) =
      (as.zip (bs.zip cs)).map fun (a, b, c) => (a, g a b, c) := by
  induction as generalizing bs cs with
  | nil => rfl
  | cons a as ih =>
    cases bs with
    | nil => rfl
    | cons b bs =>
      cases cs with
      | nil => rfl
      | cons c cs => exact congrArg _ (ih bs cs)

theorem mem_zip_of_mem_zip_zip {α β γ : Type} {as : List α} {bs : List β} {cs : List γ}
    {a : α} {b : β} {c : γ} (h : (a, b, c) ∈ as.zip (bs.zip cs)) : (a, b) ∈ as.zip bs := by
  induction as generalizing bs cs with
  | nil => cases h
  | cons a' as ih =>
    cases bs with
    | nil => cases h
    | cons b' bs =>
      cases cs with
      | nil => cases h
      | cons c' cs =>
        rcases List.mem_cons.mp h with same | later
        · cases same
          exact List.mem_cons_self
        · exact List.mem_cons_of_mem _ (ih later)

/-! ### Writing all slots -/

theorem writeSlots_result (plain : options.adoptable = false)
    {slots : List (SlotKind × Value × Text)} (fine : ∀ p ∈ slots,
      (Slot.written options p.1 p.2.1).result = .ok (Slot.text options p.1 p.2.1))
    (line : Timeline) :
    (writeSlots options slots line).1 =
      .ok (slots.map fun (kind, value, chunk) =>
        Slot.text options kind value ++ chunk).flatten := by
  induction slots generalizing line with
  | nil => rfl
  | cons first rest ih =>
    obtain ⟨kind, value, chunk⟩ := first
    have here : (Slot.write options kind value line).1 = .ok (Slot.text options kind value) := by
      rw [Slot.write_eq_record plain]
      exact fine _ List.mem_cons_self
    rcases slot : Slot.write options kind value line with ⟨result, line₁⟩
    rw [slot] at here
    cases here
    have there := ih (fun p member => fine p (List.mem_cons_of_mem _ member)) line₁
    rcases others : writeSlots options rest line₁ with ⟨result, line₂⟩
    rw [others] at there
    cases there
    simp only [writeSlots, Live.bind_apply, slot, others, Live.pure_apply, List.map_cons,
      List.flatten_cons]

theorem write_result (plain : options.adoptable = false) {template : Template}
    {values : List Value} (fine : ∀ p ∈ template.slots.zip (values.zip (template.chunks.drop 1)),
      (Slot.written options p.1 p.2.1).result = .ok (Slot.text options p.1 p.2.1))
    (line : Timeline) :
    (template.write options values line).1 = .ok (template.page options values) := by
  have slots := writeSlots_result plain fine line
  rcases written : writeSlots options (template.slots.zip (values.zip (template.chunks.drop 1)))
    line with ⟨result, line'⟩
  rw [written] at slots
  cases slots
  simp only [write, Live.bind_apply, written, Live.pure_apply]
  rfl

/-- The pages of values that are written alike are the same. -/
theorem page_zipWith (template : Template) (values : List Value) {g h : SlotKind → Value → Value}
    (alike : ∀ p ∈ template.slots.zip values,
      Slot.text options p.1 (g p.1 p.2) = Slot.text options p.1 (h p.1 p.2)) :
    template.page options (List.zipWith g template.slots values) =
      template.page options (List.zipWith h template.slots values) := by
  unfold page
  rw [zip_zipWith, zip_zipWith, List.map_map, List.map_map]
  refine congrArg (fun texts => template.chunks.headD [] ++ List.flatten texts)
    (List.map_congr_left fun p member => ?_)
  obtain ⟨kind, value, chunk⟩ := p
  exact congrArg (· ++ chunk) (alike (kind, value) (mem_zip_of_mem_zip_zip member))

theorem write_zipWith (plain : options.adoptable = false) (template : Template)
    (values : List Value) {g : SlotKind → Value → Value}
    (fine : ∀ p ∈ template.slots.zip values,
      (Slot.written options p.1 (g p.1 p.2)).result = .ok (Slot.text options p.1 (g p.1 p.2)))
    (line : Timeline) :
    (template.write options (List.zipWith g template.slots values) line).1 =
      .ok (template.page options (List.zipWith g template.slots values)) := by
  refine write_result plain (fun p member => ?_) line
  rw [zip_zipWith] at member
  obtain ⟨⟨kind, value, chunk⟩, inside, rfl⟩ := List.mem_map.mp member
  exact fine (kind, value) (mem_zip_of_mem_zip_zip inside)

section Agreeable

variable {template : Template} {values : List Value} {depth : Nat}

theorem Agreeable.fair (h : Agreeable options depth template values) :
    ∀ p ∈ template.slots.zip values, p.2.Fair options (slotMode options p.1) :=
  fun p member => (h.settles p member).mono h.patient

theorem Agreeable.page_resolvedSlots (h : Agreeable options depth template values) :
    template.page options (template.resolvedSlots options values) =
      template.page options (template.replacedSlots options values) :=
  page_zipWith template values fun p member => Slot.text_resolved (h.fair p member)

theorem Agreeable.write_replacedSlots (h : Agreeable options depth template values)
    (plain : options.adoptable = false) (line : Timeline) :
    (template.write options (template.replacedSlots options values) line).1 =
      .ok (template.page options (template.replacedSlots options values)) :=
  write_zipWith plain template values
    (fun p member => Slot.written_of_accepts (h.accepts p member)) line

theorem Agreeable.write_resolvedSlots (h : Agreeable options depth template values)
    (plain : options.adoptable = false) (line : Timeline) :
    (template.write options (template.resolvedSlots options values) line).1 =
      .ok (template.page options (template.replacedSlots options values)) := by
  rw [← h.page_resolvedSlots]
  refine write_zipWith plain template values (fun p member => ?_) line
  rw [Slot.written_resolved (h.fair p member), Slot.text_resolved (h.fair p member)]
  exact Slot.written_of_accepts (h.accepts p member)

theorem length_replacedSlots (count : values.length = template.slotCount) :
    (template.replacedSlots options values).length = template.slotCount := by
  rw [replacedSlots, List.length_zipWith, count, slotCount, Nat.min_self]

theorem length_resolvedSlots (options : Options) (count : values.length = template.slotCount) :
    (template.resolvedSlots options values).length = template.slotCount := by
  rw [resolvedSlots, List.length_zipWith, count, slotCount, Nat.min_self]

/-- Nothing has to be waited for after replacing. -/
theorem Agreeable.anyAsync_replacedSlots (h : Agreeable options depth template values) :
    Value.anyAsync (template.replacedSlots options values) = false := by
  refine Value.anyAsync_eq_false.mpr fun v member => ?_
  rw [replacedSlots, ← List.map_uncurry_zip_eq_zipWith] at member
  obtain ⟨p, inside, rfl⟩ := List.mem_map.mp member
  exact Value.isAsync_replaced (h.fair p inside)

/-- Values that are there are their own replacements. -/
theorem replacedSlots_of_not_async (count : values.length = template.slotCount)
    (silent : Value.anyAsync values = false) : template.replacedSlots options values = values := by
  have each := Value.anyAsync_eq_false.mp silent
  clear silent
  unfold replacedSlots
  rw [slotCount] at count
  generalize template.slots = slots at count
  induction slots generalizing values with
  | nil => exact (List.length_eq_zero_iff.mp count).symm
  | cons kind slots ih =>
    cases values with
    | nil => cases count
    | cons v rest =>
      rw [List.zipWith_cons_cons, Value.replaced_of_not_async _ (each v List.mem_cons_self),
        ih (fun u member => each u (List.mem_cons_of_mem v member)) (Nat.succ.inj count)]

/-! ### Rendering -/

/-- A render whose values are there is ready at once. -/
theorem render_of_not_async (count : values.length = template.slotCount)
    (silent : Value.anyAsync values = false) {text : Text} {line : Timeline}
    (written : (template.write options values line).1 = .ok text) :
    (template.render options values line).1 = .ok (.ready text) := by
  rw [render_of_instant options count silent, written]
  rfl

/-- Values that arrive settle with what they resolve to. -/
theorem fates_of_arrives
    (arrives : ∀ p ∈ template.slots.zip values, p.2.Arrives options (slotMode options p.1)) :
    template.fates options values = (template.resolvedSlots options values).map .settles := by
  rw [fates, resolvedSlots, ← List.map_uncurry_zip_eq_zipWith, List.map_map]
  exact List.map_congr_left fun p member => (arrives p member).fate_eq

/-- A page that waits for values that arrive is written with what they resolve to. -/
theorem await_of_arrives
    (arrives : ∀ p ∈ template.slots.zip values, p.2.Arrives options (slotMode options p.1))
    (line : Timeline) :
    ∃ line',
      ((Rendered.pending ⟨template, template.freshSlots options values⟩).await options line).1 =
        some (template.write options (template.resolvedSlots options values) line').1 := by
  obtain ⟨said, last, awaited, ended⟩ := await_ended options template values line
  rw [Fate.joined_eq_settles.mpr (fates_of_arrives arrives)] at ended
  rw [awaited]
  generalize Task.allSettledBy options line.now _ = tick at ended
  generalize last.now = now at ended
  cases ended with
  | written line' => exact ⟨line', rfl⟩

/-- A page that waits ends with its text, whenever somebody starts to wait. -/
theorem Agreeable.await_pending (h : Agreeable options depth template values)
    (plain : options.adoptable = false) (line : Timeline) :
    ((Rendered.pending ⟨template, template.freshSlots options values⟩).await options line).1 =
      some (.ok (template.page options (template.replacedSlots options values))) := by
  obtain ⟨line', said⟩ := await_of_arrives (fun p member => (h.fair p member).arrives) line
  rw [h.write_resolvedSlots plain] at said
  exact said

/-! ### Streaming -/

/-- What stands in a slot comes to the same as the fragments that it is sent in. -/
theorem alone_slotPlan (plain : options.adoptable = false) (slot : Nat) {kind : SlotKind}
    {value : Value} (fair : value.Fair options (slotMode options kind))
    (accepts : Slot.Accepts options kind (value.replaced options (slotMode options kind))) :
    ∃ texts : List Text,
      (∀ now, (Fragments.slotPlan options slot kind value).map (Step.alone options now) =
        texts.map (fun text => some (.ok text))) ∧
      texts.flatten = Slot.text options kind (value.replaced options (slotMode options kind)) := by
  unfold Fragments.slotPlan
  split
  · rename_i items
    refine ⟨[] :: (Value.leavesOf (.array items)).map (fun leaf =>
      (Content.write options (leaf.resolved options (slotMode options .content))).result) ++ [[]],
      fun now => ?_, ?_⟩
    · have leaf : ∀ v ∈ Value.leaves items,
          Step.alone options now (.resolving slot .element (.fresh (slotMode options .content) v)) =
            some (.ok (Content.write options
              (v.resolved options (slotMode options .content))).result) :=
        fun v member => Step.alone_of_settles plain now slot .element
          (Value.leaf_of_elements Value.Fair.elements fair v member).arrives.fate_eq
      simp only [List.map_append, List.map_cons, List.map_nil, List.map_map,
        Step.alone_literal, Value.leavesOf]
      congr 2
      exact List.map_congr_left leaf
    · rw [List.flatten_append, List.flatten_cons, List.nil_append]
      exact (List.append_nil _).trans fair.write_leaves
  · refine ⟨[Slot.text options kind (value.replaced options (slotMode options kind))],
      fun now => ?_, List.flatten_singleton⟩
    rw [List.map_singleton, List.map_singleton,
      Step.alone_of_settles plain now slot _ fair.arrives.fate_eq]
    show [some (Slot.written options kind _).result] = _
    rw [Slot.written_resolved fair, Slot.written_of_accepts accepts]

theorem alone_planFrom (plain : options.adoptable = false) (slot : Nat)
    {slots : List (SlotKind × Value × Text)}
    (fair : ∀ p ∈ slots, p.2.1.Fair options (slotMode options p.1))
    (accepts : ∀ p ∈ slots,
      Slot.Accepts options p.1 (p.2.1.replaced options (slotMode options p.1))) :
    ∃ texts : List Text,
      (∀ now, (Fragments.planFrom options slot slots).map (Step.alone options now) =
        texts.map (fun text => some (.ok text))) ∧
      texts.flatten = (slots.map fun (kind, value, chunk) =>
        Slot.text options kind (value.replaced options (slotMode options kind)) ++
          chunk).flatten := by
  induction slots generalizing slot with
  | nil => exact ⟨[], fun _ => rfl, rfl⟩
  | cons first rest ih =>
    obtain ⟨kind, value, chunk⟩ := first
    obtain ⟨here, steps, written⟩ :=
      alone_slotPlan plain slot (fair _ List.mem_cons_self) (accepts _ List.mem_cons_self)
    obtain ⟨there, steps', written'⟩ := ih (slot + 1)
      (fun p member => fair p (List.mem_cons_of_mem _ member))
      fun p member => accepts p (List.mem_cons_of_mem _ member)
    refine ⟨here ++ chunk :: there, fun now => ?_, ?_⟩
    · rw [Fragments.planFrom, List.map_append, List.map_cons, steps, steps', Step.alone_literal,
        List.map_append, List.map_cons]
    · rw [List.flatten_append, List.flatten_cons, written, written', List.map_cons,
        List.flatten_cons, List.append_assoc]

theorem Agreeable.results (h : Agreeable options depth template values)
    (plain : options.adoptable = false) :
    ∃ texts : List Text,
      (∀ now, template.results options values now = texts.map (fun text => some (.ok text))) ∧
      texts.flatten = template.page options (template.replacedSlots options values) := by
  have inside : ∀ p ∈ template.slots.zip (values.zip (template.chunks.drop 1)),
      (p.1, p.2.1) ∈ template.slots.zip values := fun p member => mem_zip_of_mem_zip_zip member
  obtain ⟨texts, steps, written⟩ := alone_planFrom plain 0
    (fun p member => h.fair _ (inside p member)) fun p member => h.accepts _ (inside p member)
  refine ⟨template.chunks.headD [] :: texts, fun now => ?_, ?_⟩
  · rw [Template.results, plan, List.map_cons, steps, Step.alone_literal, List.map_cons]
  · rw [List.flatten_cons, written, page, replacedSlots, zip_zipWith, List.map_map]
    rfl

theorem sent_of_texts (texts : List Text) :
    Fragments.sent (texts.map fun text => some (.ok text)) = (texts, .complete) := by
  induction texts with
  | nil => rfl
  | cons text rest ih => rw [List.map_cons, Fragments.sent, ih]

theorem Agreeable.stream (h : Agreeable options depth template values)
    (plain : options.adoptable = false) (line : Timeline) :
    ∃ fragments, (template.stream options values line).1 = .ok (fragments, .complete) ∧
      (fragments.map Prod.snd).flatten =
        template.page options (template.replacedSlots options values) := by
  obtain ⟨line', started, later⟩ := fragments_eq_plan plain template h.count line
  have drained := Fragments.drain_eq plain (onTheWay_plan plain template values line')
  obtain ⟨texts, results, whole⟩ := h.results plain
  replace drained := drained.trans (congrArg Fragments.sent (results line'.now))
  rw [sent_of_texts] at drained
  obtain ⟨given, ending⟩ := Prod.ext_iff.mp drained
  refine ⟨_, ?_, (congrArg List.flatten given).trans whole⟩
  simp only [Template.stream, Live.bind_apply, started]
  exact congrArg (fun ending => Except.ok (_, ending)) ending

/-! ### Delays -/

/-- What the values of the slots are replaced by has nothing to do with delays. -/
theorem replacedSlots_undelayed (values : List Value) :
    template.replacedSlots options (values.map Value.undelayed) =
      template.replacedSlots options values := by
  rw [replacedSlots, List.zipWith_map_right]
  simp only [Value.replaced_undelayed]
  rfl

theorem agreeable_undelayed :
    Agreeable options depth template (values.map Value.undelayed) ↔
      Agreeable options depth template values := by
  have zipped : template.slots.zip (values.map Value.undelayed) =
      (template.slots.zip values).map (Prod.map id Value.undelayed) := List.zip_map_right
  constructor
  · intro ⟨count, settles, accepts, patient⟩
    rw [zipped] at settles accepts
    refine ⟨(List.length_map _).symm.trans count, fun p member => ?_, fun p member => ?_, patient⟩
    · exact Value.fair_undelayed.mp (settles _ (List.mem_map_of_mem member))
    · have accepted := accepts _ (List.mem_map_of_mem member)
      rw [Prod.map_snd, Value.replaced_undelayed] at accepted
      exact accepted
  · intro ⟨count, settles, accepts, patient⟩
    refine ⟨(List.length_map _).trans count, fun p member => ?_, fun p member => ?_, patient⟩
    · rw [zipped] at member
      obtain ⟨q, inside, rfl⟩ := List.mem_map.mp member
      exact Value.fair_undelayed.mpr (settles q inside)
    · rw [zipped] at member
      obtain ⟨q, inside, rfl⟩ := List.mem_map.mp member
      rw [Prod.map_snd, Value.replaced_undelayed]
      exact accepts q inside

theorem told_of_texts (texts : List Text) (n : Nat) :
    Fragments.told (texts.map fun text => some (.ok text)) n = some (texts[n]?.map .ok) := by
  induction texts generalizing n with
  | nil => rfl
  | cons text rest ih =>
    cases n with
    | zero => rfl
    | succ n => exact ih n

/-- All ways to send a page agree: rendered at once or after a wait, streamed to its end, and asked
for fragment by fragment. The text is that of a host that waited for the values first, and delays
make no difference to it. -/
theorem outputs_agree (plain : options.adoptable = false)
    (h : Agreeable options depth template values) :
    ∃ text,
      (∀ line, (template.render options (template.replacedSlots options values) line).1 =
        .ok (.ready text)) ∧
      ∀ delayed, delayed.map Value.undelayed = values.map Value.undelayed → ∀ line,
        (∃ rendered, (template.render options delayed line).1 = .ok rendered ∧
          ∀ later, (rendered.await options later).1 = some (.ok text)) ∧
        (∃ fragments, (template.stream options delayed line).1 = .ok (fragments, .complete) ∧
          (fragments.map Prod.snd).flatten = text) ∧
        ∃ f texts, (template.fragments options delayed line).1 = .ok f ∧
          List.flatten texts = text ∧
          ∀ later n, match Fragments.asked options n f later with
            | (f, later) => (f.next options later).1.2 = some (texts[n]?.map .ok) := by
  refine ⟨template.page options (template.replacedSlots options values), fun line => ?_,
    fun delayed same line => ?_⟩
  · exact render_of_not_async (length_replacedSlots h.count) h.anyAsync_replacedSlots
      (h.write_replacedSlots plain line)
  · have h' : Agreeable options depth template delayed :=
      agreeable_undelayed.mp (same ▸ agreeable_undelayed.mpr h)
    have settled : template.replacedSlots options delayed =
        template.replacedSlots options values := by
      rw [← replacedSlots_undelayed delayed, same, replacedSlots_undelayed]
    rw [← settled]
    refine ⟨?_, h'.stream plain line, ?_⟩
    · by_cases waits : Value.anyAsync delayed = true
      · refine ⟨.pending ⟨template, template.freshSlots options delayed⟩, ?_,
          h'.await_pending plain⟩
        simp only [render, checkCount, if_pos h'.count, waits, if_true]
        rfl
      · have silent : Value.anyAsync delayed = false := by simpa using waits
        have written := h'.write_replacedSlots plain line
        rw [replacedSlots_of_not_async h'.count silent] at written ⊢
        exact ⟨_, render_of_not_async h'.count silent written, fun _ => rfl⟩
    · obtain ⟨line', started, _⟩ := fragments_eq_plan plain template h'.count line
      obtain ⟨texts, results, whole⟩ := h'.results plain
      refine ⟨_, texts, congrArg Prod.fst started, whole, fun later n => ?_⟩
      have told := (Fragments.next_asked plain n (onTheWay_plan plain template delayed later)).1
      rw [results later.now] at told
      exact told.trans (told_of_texts texts n)

end Agreeable

/-- An element and one of its attributes. -/
def linkTo : Template :=
  ⟨["<a href=\"".toList, "\">".toList, "</a>".toList], [.generic, .content], rfl⟩

/-- A future in an array of content, behind a value that a producer makes. -/
def late : List Value :=
  [.deferred .text none (.resolves 1 none (.int 3)),
    .array [.resolves 2 none (.str ['<']), .placeholder .html (.str ['!'])]]

theorem agreeable_late : Agreeable {} 0 linkTo late where
  count := rfl
  settles p member := by
    rcases List.mem_cons.mp member with rfl | member
    · exact .deferred (.resolves (.base rfl fun _ => .int))
    · rw [List.mem_singleton.mp member]
      refine .array fun v inside => ?_
      rcases List.mem_cons.mp inside with rfl | inside
      · exact .resolves (.base rfl fun _ => .str)
      · rw [List.mem_singleton.mp inside]
        exact .placeholder (.base rfl fun _ => .str)
  accepts p member name transform reason same found := by cases found
  patient := Nat.zero_le _

theorem outputs_agree_late :
    ({} : Options).adoptable = false ∧ Agreeable {} 0 linkTo late ∧
      ∃ fragments, (linkTo.stream {} late Timeline.start).1 = .ok (fragments, .complete) ∧
        (fragments.map Prod.snd).flatten = "<a href=\"3\">&lt;!</a>".toList := by
  obtain ⟨text, ready, sent⟩ := outputs_agree rfl agreeable_late
  obtain ⟨_, ⟨fragments, complete, same⟩, _⟩ := sent late rfl Timeline.start
  refine ⟨rfl, agreeable_late, fragments, complete, same.trans ?_⟩
  have page : (linkTo.render {} (linkTo.replacedSlots {} late) Timeline.start).1 =
      .ok (.ready "<a href=\"3\">&lt;!</a>".toList) := by rfl
  rw [ready] at page
  cases page
  rfl

end Template

end HtmlTemplate

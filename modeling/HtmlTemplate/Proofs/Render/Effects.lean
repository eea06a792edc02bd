import HtmlTemplate.Proofs.Render.Streamed
import HtmlTemplate.Proofs.Value.Effects

/-!
# Effects of a page

However a page is had, each producer in its values is called once, and in content each component is
rendered and each object replaced once (`Template.effects_once`). Nothing of this happens before
somebody waits: rendering a page that has to wait, and planning its fragments, tell only of
themselves.
-/

namespace HtmlTemplate

variable {options : Options}

namespace Value

/-! ## Leaves -/

theorem leaves_map_supplied (items : List Value) :
    leaves (items.map supplied) = (leaves items).map supplied := by
  have each : ∀ v, leavesOf (supplied v) = (leavesOf v).map supplied := by
    intro v
    induction v using elementInduction with
    | array items ih =>
      rw [supplied_array, leavesOf, leavesOf, leaves_eq_flatMap, leaves_eq_flatMap,
        List.flatMap_map, List.flatMap_congr ih, List.map_flatMap]
    | _ => rfl
  rw [leaves_eq_flatMap, leaves_eq_flatMap, List.flatMap_map, List.map_flatMap]
  exact List.flatMap_congr fun v _ => each v

theorem producers_leaves (v : Value) : (leavesOf v).flatMap producers = v.producers :=
  flatMap_leavesOf producersOf_eq_flatMap v

end Value

/-! ## Slots -/

namespace Slot

variable {kind : SlotKind} {value : Value}

theorem toldResolved_supplied (options : Options) (kind : SlotKind) (value : Value) :
    (toldResolved options kind value).Perm
      (value.producers.map .called ++ toldResolved options kind value.supplied) := by
  rw [toldResolved, toldResolved, Value.resolved_supplied, ← List.append_assoc]
  exact (Value.told_supplied _ value).append_right _

theorem toldResolved_effects (calm : value.Calm options options.expansions) :
    ((toldResolved options .content value).filter Note.isEffect).Perm
      ((value.effects options).filter Note.isEffect) :=
  calm.told_effects (Nat.le_refl _) (Nat.le_refl _) false

/-- What is told of a slot when its value has its effects once. -/
structure Once (options : Options) (delivery : Delivery) (kind : SlotKind)
    (value : Value) : Prop where
  /-- Each producer in the value is called, and all else is as if the value had no producers. -/
  called : (told options delivery kind value).Perm
    (value.producers.map .called ++ told options delivery kind value.supplied)
  supplied : value.supplied.producers = []
  /-- In content, each component is rendered and each object replaced, if these yield nothing to
  wait for. -/
  effects : kind = .content → value.Calm options options.expansions →
    ((told options delivery kind value).filter Note.isEffect).Perm
      ((value.effects options).filter Note.isEffect)

theorem once_ready (silent : value.isAsync = false) (kind : SlotKind) :
    Once options .ready kind value where
  called := by
    rw [Value.producers_of_not_async silent, Value.supplied_of_not_async silent]
    exact .refl _
  supplied := Value.producers_supplied value
  effects content calm := by
    subst content
    exact .of_eq ((calm.still silent).write_effects (Nat.le_refl _) (Nat.le_refl _))

theorem once_pending (options : Options) (kind : SlotKind) (value : Value) :
    Once options .pending kind value where
  called := toldResolved_supplied options kind value
  supplied := Value.producers_supplied value
  effects content calm := by
    subst content
    exact toldResolved_effects calm

/-- The leaves of an array have its effects. -/
theorem once_leaves (items : List Value) : Once options .streamed .content (.array items) where
  called := by
    have each := List.Perm.flatMap_left (Value.leaves items) fun leaf _ =>
      toldResolved_supplied options .content leaf
    have producers : (Value.leaves items).flatMap Value.producers = (Value.array items).producers :=
      Value.producers_leaves (.array items)
    rw [Value.supplied_array, told, told, Value.leaves_map_supplied,
      List.flatMap_map, ← producers, List.map_flatMap]
    exact each.trans (List.flatMap_append_perm _ _ _).symm
  supplied := Value.producers_supplied _
  effects _ calm := by
    have leaves : ∀ leaf ∈ Value.leaves items, leaf.Calm options options.expansions :=
      Value.leaf_of_elements (v := .array items) Value.Calm.elements calm
    have each := List.Perm.flatMap_left (Value.leaves items) fun leaf member =>
      toldResolved_effects (leaves leaf member)
    rw [← List.filter_flatMap, ← List.filter_flatMap] at each
    have whole : (Value.leaves items).flatMap (Value.effects options) =
        (Value.array items).effects options := Value.effectsWith_leaves _ (.array items)
    rwa [whole] at each

theorem once_streamed (kind : SlotKind) (value : Value) : Once options .streamed kind value := by
  have whole := once_pending options
  have none := Value.producers_supplied
  cases kind with
  | content =>
    cases value with
    | array items => exact once_leaves items
    | _ => exact ⟨(whole _ _).called, none _, (whole _ _).effects⟩
  | _ => exact ⟨(whole _ _).called, none _, (whole _ _).effects⟩

end Slot

/-! ## Plans -/

/-- What is told from one moment to the other is not of effects. -/
def Timeline.Idle (line line' : Timeline) : Prop :=
  ∃ notes, line.Tells notes line' ∧ ∀ note ∈ notes, note.isEffect = false

namespace Timeline.Idle

variable {a b c : Timeline}

theorem silent (same : b.journal = a.journal) : a.Idle b :=
  ⟨[], .silent same, fun _ member => by cases member⟩

theorem trans (h : a.Idle b) (h' : b.Idle c) : a.Idle c := by
  obtain ⟨notes, tells, idle⟩ := h
  obtain ⟨notes', tells', idle'⟩ := h'
  exact ⟨notes ++ notes', tells.trans tells', fun note member =>
    (List.mem_append.mp member).elim (idle note) (idle' note)⟩

theorem note {note : Note} (idle : note.isEffect = false) (line : Timeline) :
    line.Idle (Live.note note line).2 :=
  ⟨[note], .record (.note note) line, fun _ member => List.mem_singleton.mp member ▸ idle⟩

end Timeline.Idle

namespace Fragments

theorem idle_slotSteps (options : Options) (slot : Nat) (kind : SlotKind) (value : Value)
    (line : Timeline) :
    line.Idle (slotSteps options slot kind value line).2 ∧
      (slotSteps options slot kind value line).1.flatMap (Step.told options) =
        Slot.told options .streamed kind value := by
  have alone : ∀ kind,
      [Step.resolving slot (.slot kind) (.fresh (Template.slotMode options kind) value)].flatMap
        (Step.told options) = Slot.toldResolved options kind value := fun kind => List.append_nil _
  cases kind with
  | content =>
    cases value with
    | array items =>
      have drawn : line.Idle (Slot.marker options line).2 :=
        .silent (by unfold Slot.marker; split <;> rfl)
      refine ⟨drawn.trans (.note rfl _), ?_⟩
      show (_ :: _ ++ [_]).flatMap (Step.told options) = _
      rw [List.flatMap_append, List.flatMap_cons, List.flatMap_map]
      exact List.append_nil _
    | _ => exact ⟨.silent rfl, alone _⟩
  | _ => exact ⟨.silent rfl, alone _⟩

theorem idle_stepsFrom (options : Options) (slot : Nat) (slots : List (SlotKind × Value × Text))
    (line : Timeline) :
    line.Idle (stepsFrom options slot slots line).2 ∧
      (stepsFrom options slot slots line).1.flatMap (Step.told options) =
        slots.flatMap fun p => Slot.told options .streamed p.1 p.2.1 := by
  induction slots generalizing slot line with
  | nil => exact ⟨.silent rfl, rfl⟩
  | cons first rest ih =>
    obtain ⟨kind, value, chunk⟩ := first
    obtain ⟨idle, told⟩ := idle_slotSteps options slot kind value line
    obtain ⟨idle', told'⟩ := ih (slot + 1) (slotSteps options slot kind value line).2
    refine ⟨idle.trans idle', ?_⟩
    simp only [stepsFrom, Live.bind_apply, Live.pure_apply, List.flatMap_append,
      List.flatMap_cons, told, told']
    rfl

end Fragments

namespace Template

variable {template : Template} {values : List Value} {line : Timeline}

/-- To plan a page has no effects, and of its steps is to be told what is of its slots. -/
theorem idle_fragments (count : values.length = template.slotCount) {f : Fragments}
    {line' : Timeline} (planned : template.fragments options values line = (.ok f, line')) :
    line.Idle line' ∧ ∃ steps, f = .ofSteps steps ∧ steps.flatMap (Step.told options) =
      (template.slots.zip values).flatMap fun p => Slot.told options .streamed p.1 p.2 := by
  obtain ⟨idle, told⟩ := Fragments.idle_stepsFrom options 0
    (template.slots.zip (values.zip (template.chunks.drop 1))) line
  rw [fragments_apply options count] at planned
  cases planned
  refine ⟨idle, _, rfl, ?_⟩
  rw [List.flatMap_cons, told, ← zip_values count, List.flatMap_map]
  rfl

/-- A page that has to wait has no effects before it is waited for. -/
theorem idle_render (count : values.length = template.slotCount) {page : PendingText}
    {line' : Timeline}
    (rendered : template.render options values line = (.ok (.pending page), line')) :
    line.Idle line' ∧ page = ⟨template, template.freshSlots options values⟩ := by
  cases waits : Value.anyAsync values with
  | true =>
    rw [render_of_waits options count waits] at rendered
    cases rendered
    exact ⟨.note rfl line, rfl⟩
  | false =>
    rw [render_of_instant options count waits] at rendered
    cases wrote : (template.write options values line).1 <;> rw [wrote] at rendered <;>
      cases rendered

/-! ## Main result -/

/-- Everything that a page tells is told of its slots, and all their values have their effects
once. -/
structure Once (options : Options) (template : Template) (values : List Value) (delivery : Delivery)
    (start last : Timeline) : Prop where
  told : ∃ told, start.Tells told last ∧ told.Perm
    ((template.slots.zip values).flatMap fun p => Slot.told options delivery p.1 p.2)
  slots : ∀ p ∈ template.slots.zip values, Slot.Once options delivery p.1 p.2

/-- However a page is had, its values have their effects once, and nothing of it happens before
somebody waits for the page or for its fragments. -/
theorem effects_once (options : Options) (count : values.length = template.slotCount)
    (line : Timeline) :
    (∀ text last, template.render options values line = (.ok (.ready text), last) →
      template.Once options values .ready line last) ∧
    (∀ page line', template.render options values line = (.ok (.pending page), line') →
      line.Idle line' ∧ ∀ start text last,
        (Rendered.pending page).await options start = (some (.ok text), last) →
        template.Once options values .pending start last) ∧
    (∀ f line', template.fragments options values line = (.ok f, line') →
      line.Idle line' ∧ ∀ start sent last, f.drain options start = ((sent, .complete), last) →
        template.Once options values .streamed start last) := by
  refine ⟨?_, ?_, ?_⟩
  · intro text last rendered
    obtain ⟨silent, told⟩ := tells_ready count rendered
    refine ⟨⟨_, told, .refl _⟩, ?_⟩
    intro p member
    have present : p.2.isAsync = false :=
      Value.anyAsync_eq_false.mp silent p.2 (List.of_mem_zip member).2
    exact Slot.once_ready present p.1
  · intro page line' rendered
    obtain ⟨idle, rfl⟩ := idle_render count rendered
    refine ⟨idle, ?_⟩
    intro start text last awaited
    exact ⟨tells_pending count awaited, fun p _ => Slot.once_pending options p.1 p.2⟩
  · intro f line' planned
    obtain ⟨idle, steps, rfl, due⟩ := idle_fragments count planned
    refine ⟨idle, ?_⟩
    intro start sent last drained
    obtain ⟨_, told, tells, all⟩ := Fragments.tells_drain drained
    rw [due] at all
    exact ⟨⟨told, tells, all⟩, fun p _ => Slot.once_streamed p.1 p.2⟩

/-- An attribute, and content after it. -/
def portrait : Template := ⟨[['p'], ['q'], ['r']], [.generic, .content], rfl⟩

/-- A host whose transformer takes objects with a key. -/
def replacing : Options := { transformers := [(['k'], fun value => pure value)] }

/-- A text from a producer, and a list with a component that renders an object, and with one that
comes after two ticks. -/
def busy : List Value :=
  [.deferred .text (some ['p']) (.str ['v']),
    .array [.component (some ['d']) (.object [(['k'], .str ['s'])]),
      .resolves 2 none (.component (some ['e']) .null)]]

theorem effects_once_portrait :
    ∃ f line' sent last told, portrait.fragments replacing busy .start = (.ok f, line') ∧
      f.drain replacing line' = ((sent, .complete), last) ∧ line'.Tells told last ∧
      (told.filter Note.isEffect).Perm
        [.called (some ['p']), .rendered (some ['d']), .transformed ['k'],
          .rendered (some ['e'])] := by
  have complete : ((portrait.fragments replacing busy .start).1.toOption.map fun f =>
      (f.drain replacing (portrait.fragments replacing busy .start).2).1.2) = some .complete := by
    decide +kernel
  rcases planned : portrait.fragments replacing busy .start with ⟨result, line'⟩
  rw [planned] at complete
  cases result with
  | error error => cases complete
  | ok f =>
    replace complete : (f.drain replacing line').1.2 = .complete := Option.some.inj complete
    rcases drained : f.drain replacing line' with ⟨⟨sent, ending⟩, last⟩
    rw [drained] at complete
    cases complete
    have once := ((effects_once replacing rfl .start).2.2 f line' planned).2 line' sent last drained
    obtain ⟨told, tells, all⟩ := once.told
    exact ⟨f, line', sent, last, told, rfl, drained, tells, (all.filter _).trans (.of_eq rfl)⟩

end Template

end HtmlTemplate

import HtmlTemplate.Proofs.Render.Agreement
import HtmlTemplate.Proofs.Value.Pieces

/-!
# What a markup placeholder inserts

A placeholder for markup in content is waited for, and what is inserted then is made of the texts of
the pieces of its value, one after the other and with nothing between them; a stream sends the same.
The pieces are the leaves of the value if none of them is a component or an object that a
transformer takes, which happens only in an array without any element that has to be waited for
(`Template.markup_inserted`).
-/

namespace HtmlTemplate

variable {options : Options}

namespace Value

/-- What a placeholder for markup inserts for its value. -/
def inserted (options : Options) (v : Value) : Text :=
  (v.pieces options options.expansions).flatMap rawText

/-- The value is a placeholder of a kind for another one, deferred or not. -/
def IsPlaceholder (value : Value) (kind : PlaceholderKind) (v : Value) : Prop :=
  value = .placeholder kind v ∨ ∃ name, value = .deferred kind name v

theorem IsPlaceholder.isAsync {kind : PlaceholderKind} {v value : Value}
    (h : value.IsPlaceholder kind v) : isAsync value = true := by
  rcases h with rfl | ⟨name, rfl⟩ <;> rfl

/-- A placeholder for markup resolves to the markup that it inserts. -/
theorem IsPlaceholder.resolved {v value : Value} (h : value.IsPlaceholder .html v) :
    value.resolved options (Template.slotMode options .content) = .html (v.inserted options) := by
  have same : (v.resolved options ⟨true, options.expansions⟩).markup.result = v.inserted options :=
    markup_resolved options.expansions v
  rw [← same]
  rcases h with rfl | ⟨name, rfl⟩ <;> rfl

theorem IsPlaceholder.arrives {kind : PlaceholderKind} {v value : Value} {mode : Mode}
    (h : value.IsPlaceholder kind v) (arrives : Arrives options mode value) :
    Arrives options mode v := by
  rcases h with rfl | ⟨name, rfl⟩
  · cases arrives with
    | placeholder inside => exact inside
  · cases arrives with
    | deferred inside => exact inside

end Value

namespace Fragments

/-- The steps of each slot are among those of the page. -/
theorem mem_planFrom {slots : List (SlotKind × Value × Text)} {slot i : Nat} {kind : SlotKind}
    {value : Value} {chunk : Text} (found : slots[i]? = some (kind, value, chunk)) :
    ∀ s ∈ slotPlan options (slot + i) kind value, s ∈ planFrom options slot slots := by
  induction slots generalizing slot i with
  | nil => cases found
  | cons first rest ih =>
    obtain ⟨kind', value', chunk'⟩ := first
    intro s member
    cases i with
    | zero =>
      cases found
      exact List.mem_append_left _ member
    | succ i =>
      rw [Nat.add_succ, ← Nat.succ_add] at member
      have later : s ∈ planFrom options (slot + 1) rest := ih (by simpa using found) s member
      exact List.mem_append_right _ (List.mem_cons_of_mem _ later)

end Fragments

namespace Template

variable {template : Template} {values : List Value}

theorem mem_plan {slot : Nat} {kind : SlotKind} {value : Value}
    (place : template.slots[slot]? = some kind) (found : values[slot]? = some value) :
    ∀ s ∈ Fragments.slotPlan options slot kind value, s ∈ template.plan options values := by
  have inside : slot < (template.chunks.drop 1).length := by
    obtain ⟨bound, _⟩ := List.getElem?_eq_some_iff.mp place
    rw [List.length_drop, template.parity]
    exact bound
  have chunk := List.getElem?_eq_getElem inside
  have together : (template.slots.zip (values.zip (template.chunks.drop 1)))[slot]? =
      some (kind, value, (template.chunks.drop 1)[slot]) := by
    rw [List.getElem?_zip_eq_some]
    exact ⟨place, List.getElem?_zip_eq_some.mpr ⟨found, chunk⟩⟩
  intro s member
  refine List.mem_cons_of_mem _ (Fragments.mem_planFrom (i := slot) together s ?_)
  rwa [Nat.zero_add]

/-- Where all futures settle, a placeholder for markup in a content slot inserts the texts of the
pieces of its value, with nothing between them, both in a page that is waited for and in a stream.
These are its leaves, through arrays, futures, placeholders, components and transformed objects,
exactly if no component or object that a transformer takes is left among the pieces. -/
theorem markup_inserted (count : values.length = template.slotCount)
    (arrives : ∀ p ∈ template.slots.zip values, p.2.Arrives options (slotMode options p.1))
    {slot : Nat} {v value : Value} (place : template.slots[slot]? = some .content)
    (found : values[slot]? = some value) (markup : value.IsPlaceholder .html v) (line : Timeline) :
    (∃ page line', template.render options values line = (.ok (.pending page), line') ∧
      ∃ line'', ((Rendered.pending page).await options line').1 =
        some (template.write options (template.resolvedSlots options values) line'').1) ∧
    (∃ settled, (template.resolvedSlots options values)[slot]? = some settled ∧
      (Content.write options settled).result = v.inserted options) ∧
    (options.adoptable = false → ∃ step ∈ template.plan options values,
      step = .resolving slot (.slot .content) (.fresh (slotMode options .content) value) ∧
      ∀ now, Step.alone options now step = some (.ok (v.inserted options))) ∧
    (v.pieces options options.expansions = v.markupLeaves options options.expansions ↔
      ∀ piece ∈ v.pieces options options.expansions, piece.isStandIn options = false) := by
  have pair : (SlotKind.content, value) ∈ template.slots.zip values := by
    refine List.mem_of_getElem? (i := slot) ?_
    rw [List.getElem?_zip_eq_some]
    exact ⟨place, found⟩
  have waits : Value.anyAsync values = true := by
    cases silent : Value.anyAsync values with
    | true => rfl
    | false =>
      have still := Value.anyAsync_eq_false.mp silent value (List.mem_of_getElem? found)
      rw [markup.isAsync] at still
      cases still
  refine ⟨?_, ?_, fun plain => ?_, ?_⟩
  · exact ⟨_, _, render_of_waits options count waits line, await_of_arrives arrives _⟩
  · refine ⟨value.resolved options (slotMode options .content), ?_, ?_⟩
    · rw [resolvedSlots, List.getElem?_zipWith, place, found]
    · rw [markup.resolved]
      rfl
  · refine ⟨_, mem_plan place found _ ?_, rfl, fun now => ?_⟩
    · rcases markup with rfl | ⟨name, rfl⟩ <;> exact List.mem_cons_self
    · rw [Step.alone_of_settles plain now slot _ (arrives _ pair).fate_eq, markup.resolved]
      rfl
  · have fine : v.Arrives options ⟨true, options.expansions⟩ := markup.arrives (arrives _ pair)
    exact fine.pieces_eq_leaves rfl

/-- One paragraph. -/
def paragraph : Template := ⟨["<p>".toList, "</p>".toList], [.content], rfl⟩

/-- A list of one component that renders a list of two texts. -/
def rendered : Value := .array [.component none (.array [.str ['a'], .str ['b']])]

/-- A component in a list without any element that has to be waited for keeps the comma of its text,
which is not between the leaves. -/
theorem markup_inserted_paragraph :
    (∃ settled, (paragraph.resolvedSlots {} [.placeholder .html rendered])[0]? = some settled ∧
      (Content.write {} settled).result = "a,b".toList) ∧
    (rendered.markupLeaves {} ({} : Options).expansions).flatMap Value.rawText = "ab".toList ∧
    rendered.pieces {} ({} : Options).expansions ≠
      rendered.markupLeaves {} ({} : Options).expansions := by
  have arrives : ∀ p ∈ paragraph.slots.zip [Value.placeholder .html rendered],
      p.2.Arrives {} (slotMode {} p.1) := by
    intro p member
    obtain rfl := List.mem_singleton.mp member
    refine .placeholder (.array fun v inside => ?_)
    obtain rfl := List.mem_singleton.mp inside
    refine .component fun _ => .array fun v inside => ?_
    rcases List.mem_cons.mp inside with rfl | inside
    · exact .str
    · obtain rfl := List.mem_singleton.mp inside
      exact .str
  obtain ⟨_, settled, _, exact⟩ := @markup_inserted {} paragraph [.placeholder .html rendered] rfl
    arrives 0 rendered _ rfl rfl (.inl rfl) Timeline.start
  refine ⟨settled, rfl, fun same => ?_⟩
  have left := exact.mp same (.component none (.array [.str ['a'], .str ['b']])) List.mem_cons_self
  cases left

/-- Beside a future the same component is looked into. -/
example : (Value.inserted {} (.array [.component none (.array [.str ['a'], .str ['b']]),
    .resolves 1 none (.str ['c'])])) = "abc".toList := rfl

end Template

end HtmlTemplate

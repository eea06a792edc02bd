import HtmlTemplate.Proofs.Render.Agreement
import HtmlTemplate.Proofs.Value.Overlooked

/-!
# What a page that waits leaves out

A page that waits is written with what its values resolve to. If all their futures settle, nothing
in content that has to be waited for is left out of it, but for what resolving overlooks: something
behind a component or a transformer, in an array without any element that has to be waited for
(`Template.pending_overlooks`).
-/

namespace HtmlTemplate

variable {options : Options}

namespace Template

variable {template : Template} {values : List Value}

/-- A page that waits for values whose futures all settle is written with what they resolve to. In a
content slot, this leaves out something that has to be waited for exactly if resolving the value of
the slot overlooks something. -/
theorem pending_overlooks (discreet : options.Discreet)
    (count : values.length = template.slotCount) (waits : Value.anyAsync values = true)
    (arrives : ∀ p ∈ template.slots.zip values, p.2.Arrives options (slotMode options p.1))
    (line : Timeline) :
    ∃ page line', template.render options values line = (.ok (.pending page), line') ∧
      (∃ line'', ((Rendered.pending page).await options line').1 =
        some (template.write options (template.resolvedSlots options values) line'').1) ∧
      ∀ (slot : Nat) (value : Value), template.slots[slot]? = some .content →
        values[slot]? = some value →
        ∃ settled, (template.resolvedSlots options values)[slot]? = some settled ∧
          ((∃ shape, .unresolved shape ∈ (Content.write options settled).notes) ↔
            value.Overlooked options options.expansions) := by
  have check : template.checkCount values = .ok () := if_pos count
  refine ⟨⟨template, template.freshSlots options values⟩,
    (Live.note (.renderWaits values.length) line).2, ?_, ?_, ?_⟩
  · simp only [render, check, waits, if_true]
    rfl
  · exact await_of_arrives arrives _
  · intro slot value kind found
    refine ⟨value.resolved options (slotMode options .content), ?_, ?_⟩
    · rw [resolvedSlots, List.getElem?_zipWith, kind, found]
    · have pair : (SlotKind.content, value) ∈ template.slots.zip values := by
        refine List.mem_of_getElem? (i := slot) ?_
        rw [List.getElem?_zip_eq_some]
        exact ⟨kind, found⟩
      exact (Value.noted_iff_leavesOut discreet).trans
        ((arrives _ pair).leavesOut_resolved rfl rfl (Nat.le_refl _))

/-- Two paragraphs. -/
def paragraphs : Template :=
  ⟨["<p>".toList, "</p><p>".toList, "</p>".toList], [.content, .content], rfl⟩

/-- A list of one component that renders a text a tick later, and a text a tick later. -/
def hidden : List Value :=
  [.array [.component none (.resolves 1 none (.str ['x']))], .resolves 1 none (.str ['y'])]

theorem pending_overlooks_hidden :
    ∃ page line', paragraphs.render {} hidden Timeline.start = (.ok (.pending page), line') ∧
      (∃ line'', ((Rendered.pending page).await {} line').1 =
        some (paragraphs.write {} (paragraphs.resolvedSlots {} hidden) line'').1) ∧
      ∃ settled, (paragraphs.resolvedSlots {} hidden)[0]? = some settled ∧
        ∃ shape, .unresolved shape ∈ (Content.write {} settled).notes := by
  have discreet : ({} : Options).Discreet := by
    intro entries transformed found
    cases found
  have arrives : ∀ p ∈ paragraphs.slots.zip hidden,
      p.2.Arrives {} (slotMode {} p.1) := by
    intro p member
    simp only [paragraphs, hidden, List.zip_cons_cons, List.zip_nil_right, List.mem_cons,
      List.not_mem_nil, or_false] at member
    rcases member with rfl | rfl
    · refine .array fun v inside => ?_
      rw [List.mem_singleton.mp inside]
      exact .component fun _ => .resolves .str
    · exact .resolves .str
  obtain ⟨page, line', rendered, awaited, slots⟩ :=
    pending_overlooks discreet rfl rfl arrives Timeline.start
  refine ⟨page, line', rendered, awaited, ?_⟩
  obtain ⟨settled, found, exact⟩ := slots 0 _ rfl rfl
  exact ⟨settled, found, exact.mpr (.array rfl List.mem_cons_self (.component .resolves))⟩

/-- Nothing stands in the first paragraph. -/
example : ((Rendered.pending ⟨paragraphs, paragraphs.freshSlots {} hidden⟩).await {}
    Timeline.start).1 = some (.ok "<p></p><p>y</p>".toList) := rfl

end Template

end HtmlTemplate

import HtmlTemplate.Proofs.Await
import HtmlTemplate.Proofs.Output.Slot
import HtmlTemplate.Proofs.Task.Wake
import HtmlTemplate.Render.Whole

/-!
# Pages that wait

A page that waits polls the values of its slots as one group, and is written when the last of them
has settled. Whoever waits for it waits soundly (`PendingText.sound_waiting`).
-/

namespace HtmlTemplate

variable {options : Options}

namespace PendingText

/-- The values of the slots as one task. -/
def task (page : PendingText) : Task := .group page.slots.members page.slots.ready

/-- The page may be polled. -/
def Ready (line : Timeline) (page : PendingText) : Prop := page.task.Ready line

/-- Nothing is left to do before the next timer rings. -/
def Quiet (now : Nat) (page : PendingText) : Prop := page.task.Quiet now

/-- What a poll of a page does, given what the poll of its slots did. -/
theorem poll_apply {page : PendingText} {line line' : Timeline} {p : Polled Group}
    (polled : page.slots.poll (Task.poll options) line = (p, line')) :
    poll options page line =
      match p.state.verdict with
      | .waiting => (({ page with slots := p.state }, .nothing p.again), line')
      | .failed slot reason =>
        (({ page with slots := p.state }, .said (.error (.rejected slot reason))), line')
      | .settled values =>
        (({ page with slots := p.state }, .said (page.template.write options values line').1),
          (page.template.write options values line').2) := by
  simp only [poll, Live.bind_apply, polled]
  cases p.state.verdict <;> rfl

/-- A poll with nothing to say leaves the page waiting for its slots. -/
theorem polled_of_nothing {page page' : PendingText} {line line' : Timeline}
    {reply : Reply (Except RenderError Text)} (silent : ∀ text, reply ≠ .said text)
    (polled : poll options page line = ((page', reply), line')) :
    ∃ p, page.slots.poll (Task.poll options) line = (p, line') ∧
      page' = { page with slots := p.state } ∧ p.state.verdict = .waiting ∧
      reply = .nothing p.again := by
  rcases group : page.slots.poll (Task.poll options) line with ⟨p, line₁⟩
  rw [poll_apply group] at polled
  cases verdict : p.state.verdict with
  | waiting =>
    rw [verdict] at polled
    cases polled
    exact ⟨p, rfl, rfl, verdict, rfl⟩
  | failed slot reason =>
    rw [verdict] at polled
    cases polled
    exact absurd rfl (silent _)
  | settled values =>
    rw [verdict] at polled
    cases polled
    exact absurd rfl (silent _)

theorem becomes {page : PendingText} {line line' : Timeline} {p : Polled Group}
    (ready : Ready line page) (polled : page.slots.poll (Task.poll options) line = (p, line')) :
    Task.GroupBecomes options line.now line page.slots (p, line') := by
  rw [← polled]
  exact Task.becomes_groupPoll (Task.polls_readyAt line.now _) page.slots line rfl ready
    (Nat.le_refl _)

theorem sound_waiting : (waiting options).Sound Ready Quiet where
  again {line page page' line'} ready polled := by
    obtain ⟨p, group, rfl, _, said⟩ := polled_of_nothing (fun _ same => by cases same) polled
    have again : p.again = true := by
      cases again : p.again with
      | true => rfl
      | false =>
        rw [again] at said
        cases said
    obtain ⟨later, kept, settles, _⟩ := becomes ready group
    have lessens : Task.Sized options (Task.poll options) := Task.polls_lessens
    have less := (Task.size_groupPoll lessens page.slots line).2.2
    rw [group] at less
    exact ⟨later, kept, less again, settles⟩
  waiting {line page page' line'} ready polled := by
    obtain ⟨p, group, rfl, verdict, said⟩ := polled_of_nothing (fun _ same => by cases same) polled
    have silent : p.again = false := by
      cases again : p.again with
      | true =>
        rw [again] at said
        cases said
      | false => rfl
    obtain ⟨later, kept, settles, quiet⟩ := becomes ready group
    exact ⟨later, kept, quiet silent verdict, settles⟩
  due quiet found := Task.Quiet.nextDue? quiet options found
  wake {line page due} ready quiet found := by
    have bounds := Task.Quiet.nextDue? quiet options found
    have next : ∀ later, page.task.nextDue? = some later → due ≤ later := fun later found' =>
      Nat.le_of_eq (Option.some.inj (found.symm.trans found'))
    have bound : page.task.settledBy options due ≤ max due (page.task.settledBy options line.now) :=
      Task.Quiet.settledBy_le quiet due
    refine ⟨Task.Ready.wake ready quiet next, ?_⟩
    show (page.task.wake due).settledBy options due ≤ _
    rw [Task.settledBy_wake]
    exact Nat.le_trans bound (Nat.max_le.mpr ⟨bounds.2, Nat.le_refl _⟩)

end PendingText

/-! ## Pages that wait or not -/

namespace Template

variable {template : Template} {values : List Value}

theorem render_of_miscounted (options : Options) {error : RenderError}
    (check : template.checkCount values = .error error) (line : Timeline) :
    template.render options values line = (.error error, line) := by
  simp only [render, check]
  rfl

theorem render_of_waits (options : Options) (count : values.length = template.slotCount)
    (waits : Value.anyAsync values = true) (line : Timeline) :
    template.render options values line =
      (.ok (.pending ⟨template, template.freshSlots options values⟩),
        (Live.note (.renderWaits values.length) line).2) := by
  have check : template.checkCount values = .ok () := if_pos count
  simp only [render, check, waits, if_true]
  rfl

theorem render_of_instant (options : Options) (count : values.length = template.slotCount)
    (instant : Value.anyAsync values = false) (line : Timeline) :
    template.render options values line =
      ((template.write options values line).1.map .ready,
        (template.write options values line).2) := by
  have check : template.checkCount values = .ok () := if_pos count
  simp only [render, check, instant, Bool.false_eq_true, if_false, Live.bind_apply]
  cases (template.write options values line).1 <;> rfl

end Template

end HtmlTemplate

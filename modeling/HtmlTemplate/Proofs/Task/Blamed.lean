import HtmlTemplate.Proofs.Task.Fate
import HtmlTemplate.Proofs.Task.Reduces
import HtmlTemplate.Proofs.Value.Reached

/-!
# Why tasks fail

A task fails for the reason of a rejecting future that is asked for on its way, and a group for the
reason of the member that it names. Which reasons there are is known from the start
(`Task.MayFail`): a reduction brings no new one (`Task.Reduces.mayFail`), so that a value fails only
for a reason for which it rejects (`Task.rejects_of_reduces`).
-/

namespace HtmlTemplate

variable {options : Options}

namespace Task

/-- A reason for which a task may fail. -/
inductive MayFail (options : Options) (reason : Text) : Task → Prop
  | fresh {mode value} :
      value.Rejects options mode reason → MayFail options reason (fresh mode value)
  | asleep {mode timer name value} : value.Rejects options mode reason →
      MayFail options reason (asleep mode timer name (.ok value))
  | rejected {mode timer name} : MayFail options reason (asleep mode timer name (.error reason))
  | convert {kind inner} : MayFail options reason inner →
      MayFail options reason (convert kind inner)
  | group {members ready t} : t ∈ members → MayFail options reason t →
      MayFail options reason (group members ready)
  | done : MayFail options reason (done (.error reason))

/-! ## Groups -/

theorem failed_of_after {v : Value} {verdict : Verdict} {member : Nat} {reason : Text}
    (failed : verdict.after v = .failed member reason) :
    ∃ n, n + 1 = member ∧ verdict = .failed n reason := by
  cases verdict with
  | failed n _ =>
    cases failed
    exact ⟨n, rfl, rfl⟩
  | _ => cases failed

theorem failed_of_behind {verdict : Verdict} {member : Nat} {reason : Text}
    (failed : verdict.behind = .failed member reason) :
    ∃ n, n + 1 = member ∧ verdict = .failed n reason := by
  cases verdict with
  | failed n _ =>
    cases failed
    exact ⟨n, rfl, rfl⟩
  | _ => cases failed

theorem member_of_failedTogether {members : List Task} {member : Nat} {reason : Text}
    (verdict : Group.verdictTogether members = .failed member reason) :
    members[member]? = some (done (.error reason)) := by
  induction members generalizing member with
  | nil => cases verdict
  | cons t rest ih =>
    rcases settled_cases t with ⟨v, rfl⟩ | ⟨reason', rfl⟩ | unsettled
    · obtain ⟨n, rfl, failed⟩ := failed_of_after verdict
      exact ih failed
    · cases verdict
      rfl
    · rw [verdictTogether_of_unsettled unsettled] at verdict
      obtain ⟨n, rfl, failed⟩ := failed_of_behind verdict
      exact ih failed

theorem member_of_failedInTurn {members : List Task} {member : Nat} {reason : Text}
    (verdict : Group.verdictInTurn members = .failed member reason) :
    members[member]? = some (done (.error reason)) := by
  induction members generalizing member with
  | nil => cases verdict
  | cons t rest ih =>
    rcases settled_cases t with ⟨v, rfl⟩ | ⟨reason', rfl⟩ | unsettled
    · obtain ⟨n, rfl, failed⟩ := failed_of_after verdict
      exact ih failed
    · cases verdict
      rfl
    · rw [verdictInTurn_of_unsettled unsettled] at verdict
      cases verdict

/-- The member that a verdict names has failed for the reason that it gives. -/
theorem member_of_failed {g : Group} {member : Nat} {reason : Text}
    (verdict : g.verdict = .failed member reason) :
    g.members[member]? = some (done (.error reason)) := by
  obtain ⟨members, ready⟩ := g
  cases ready with
  | none => exact member_of_failedTogether verdict
  | some ready => exact member_of_failedInTurn verdict

/-! ## Reductions -/

variable {reason : Text} {t u : Task} {notes : List Note}

/-- A group fails for the reasons of its members. -/
theorem mayFail_of_task {g : Group} (fails : MayFail options reason g.task) :
    MayFail options reason (group g.members g.ready) := by
  unfold Group.task at fails
  cases verdict : g.verdict with
  | waiting =>
    rw [verdict] at fails
    exact fails
  | failed member reason' =>
    rw [verdict] at fails
    cases fails
    exact .group (List.mem_of_getElem? (member_of_failed verdict)) .done
  | settled values =>
    rw [verdict] at fails
    cases fails

/-- A reduction brings no new reason to fail. -/
theorem Reduces.mayFail (h : Reduces options t notes u) (fails : MayFail options reason u) :
    MayFail options reason t := by
  induction h with
  | refl => exact fails
  | trans _ _ ih ih' => exact ih (ih' fails)
  | transformed found =>
    cases fails with
    | fresh rejects =>
      obtain ⟨delay, name, reached⟩ := rejects
      exact .fresh ⟨delay, name, .replacement found reached⟩
  | rendered content =>
    cases fails with
    | fresh rejects =>
      obtain ⟨delay, name, reached⟩ := rejects
      exact .fresh ⟨delay, name, .body content reached⟩
  | resolves =>
    cases fails with
    | asleep rejects =>
      obtain ⟨delay, name, reached⟩ := rejects
      exact .fresh ⟨delay, name, .resolves reached⟩
  | rejects =>
    cases fails with
    | rejected => exact .fresh ⟨_, _, .here⟩
  | settled =>
    cases fails with
    | fresh rejects => exact .asleep rejects
  | rejected =>
    cases fails with
    | done => exact .rejected
  | placeholder =>
    cases fails with
    | convert fails =>
      cases fails with
      | fresh rejects =>
        obtain ⟨delay, name, reached⟩ := rejects
        exact .fresh ⟨delay, name, .placeholder reached⟩
  | called =>
    cases fails with
    | convert fails =>
      cases fails with
      | fresh rejects =>
        obtain ⟨delay, name, reached⟩ := rejects
        exact .fresh ⟨delay, name, .deferred reached⟩
  | inside _ ih =>
    cases fails with
    | convert fails => exact .convert (ih fails)
  | unconverted =>
    cases fails with
    | done => exact .convert .done
  | array waits =>
    cases fails with
    | group member fails =>
      obtain ⟨item, inside, rfl⟩ := List.mem_map.mp member
      cases fails with
      | fresh rejects =>
        obtain ⟨delay, name, reached⟩ := rejects
        exact .fresh ⟨delay, name, .element waits inside reached⟩
  | member found _ ih =>
    cases fails with
    | group inside fails =>
      rcases List.mem_or_eq_of_mem_set inside with inside | rfl
      · exact .group inside fails
      · exact .group (List.mem_of_getElem? found) (ih fails)
  | queued _ =>
    cases fails with
    | group inside fails => exact .group inside fails
  | verdict => exact mayFail_of_task fails
  | _ => cases fails

/-- Nor do reductions of tasks, each in its place. -/
theorem EachReduces.mayFail {members others : List Task} (h : EachReduces options members others)
    {i : Nat} (fails : ∃ u, others[i]? = some u ∧ MayFail options reason u) :
    ∃ t, members[i]? = some t ∧ MayFail options reason t := by
  obtain ⟨u, found, fails⟩ := fails
  obtain ⟨t, notes, first, reduces⟩ := h i u found
  exact ⟨t, first, reduces.mayFail fails⟩

/-- Waking brings no new reason to fail. -/
theorem mayFail_of_wakeEach {tick : Nat} {members : List Task} {i : Nat}
    (fails : ∃ u, (wakeEach tick members)[i]? = some u ∧ MayFail options reason u) :
    ∃ t, members[i]? = some t ∧ MayFail options reason t := by
  obtain ⟨u, found, fails⟩ := fails
  rw [wakeEach_eq_map, List.getElem?_map] at found
  obtain ⟨t, first, rfl⟩ := Option.map_eq_some_iff.mp found
  exact ⟨t, first, (reduces_wake options tick t).mayFail fails⟩

end Task

end HtmlTemplate

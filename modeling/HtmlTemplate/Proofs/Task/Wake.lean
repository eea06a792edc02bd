import HtmlTemplate.Proofs.Task.Quiet

/-!
# Waking tasks

Between two ticks a quiet task only waits. Before its next timer rings, waking it changes nothing;
when the timer rings, the members of a large group that were waiting for it stand in the queue, each
of them once, and the task is ready to be polled.
-/

namespace HtmlTemplate

variable {options : Options}

namespace Task

/-- Induction on a task, with a group's members taken one by one. -/
@[elab_as_elim]
theorem memberInduction {motive : Task → Prop}
    (fresh : ∀ mode value, motive (fresh mode value))
    (asleep : ∀ mode timer name outcome, motive (asleep mode timer name outcome))
    (forever : motive forever)
    (convert : ∀ kind inner, motive inner → motive (convert kind inner))
    (group : ∀ members ready, (∀ t ∈ members, motive t) → motive (group members ready))
    (done : ∀ result, motive (done result)) (t : Task) : motive t :=
  @Task.rec motive (fun members => ∀ t ∈ members, motive t) fresh asleep forever convert group done
    (fun _ member => by cases member)
    (fun _ _ head tail t member => (List.mem_cons.mp member).elim (· ▸ head) (tail t)) t

/-! ## The earliest of several moments -/

/-- The earliest of several moments. -/
def earliest : List (Option Nat) → Option Nat
  | [] => none
  | a :: rest => earlier a (earliest rest)

theorem nextDueAmong?_eq (members : List Task) :
    nextDueAmong? members = earliest (members.map nextDue?) := by
  induction members with
  | nil => rfl
  | cons t rest ih => simp only [nextDueAmong?, List.map_cons, earliest, ih]

theorem ringingAmong?_eq (tick : Nat) (members : List Task) :
    ringingAmong? tick members = earliest (members.map (ringing? tick)) := by
  induction members with
  | nil => rfl
  | cons t rest ih => simp only [ringingAmong?, List.map_cons, earliest, ih]

theorem earlier_eq_none {a b : Option Nat} : earlier a b = none ↔ a = none ∧ b = none := by
  cases a <;> cases b <;> simp [earlier]

theorem earliest_eq_none {moments : List (Option Nat)} :
    earliest moments = none ↔ ∀ a ∈ moments, a = none := by
  induction moments with
  | nil => simp [earliest]
  | cons a rest ih => simp [earliest, earlier_eq_none, ih]

/-- The earliest moment is one of them, and none of the others comes before it. -/
theorem earliest_eq_some {moments : List (Option Nat)} {a : Nat} (h : earliest moments = some a) :
    some a ∈ moments ∧ ∀ b, some b ∈ moments → a ≤ b := by
  induction moments generalizing a with
  | nil => cases h
  | cons first rest ih =>
    cases others : earliest rest with
    | none =>
      rw [earliest, others] at h
      obtain rfl : first = some a := by cases first <;> exact h
      refine ⟨List.mem_cons_self, fun b member => ?_⟩
      rcases List.mem_cons.mp member with same | member
      · exact Nat.le_of_eq (Option.some.inj same).symm
      · cases earliest_eq_none.mp others _ member
    | some c =>
      obtain ⟨member, least⟩ := ih others
      rw [earliest, others] at h
      cases first with
      | none =>
        obtain rfl : c = a := Option.some.inj h
        refine ⟨List.mem_cons_of_mem _ member, fun b member => ?_⟩
        rcases List.mem_cons.mp member with same | member
        · cases same
        · exact least b member
      | some b =>
        obtain rfl : min b c = a := by simpa [earlier] using h
        refine ⟨?_, fun d member => ?_⟩
        · rcases Nat.le_total b c with le | le
          · rw [Nat.min_eq_left le]
            exact List.mem_cons_self
          · rw [Nat.min_eq_right le]
            exact List.mem_cons_of_mem _ member
        · rcases List.mem_cons.mp member with same | member
          · exact Option.some.inj same ▸ Nat.min_le_left _ _
          · exact Nat.le_trans (Nat.min_le_right _ _) (least d member)

theorem nextDueAmong?_eq_some {members : List Task} {due : Nat}
    (h : nextDueAmong? members = some due) :
    (∃ t ∈ members, nextDue? t = some due) ∧
      ∀ t ∈ members, ∀ later, nextDue? t = some later → due ≤ later := by
  rw [nextDueAmong?_eq] at h
  obtain ⟨member, least⟩ := earliest_eq_some h
  exact ⟨List.mem_map.mp member, fun t member later found =>
    least later (List.mem_map.mpr ⟨t, member, found⟩)⟩

/-- The next of some timers rings no later than the next timer of each. -/
theorem exists_nextDueAmong? {members : List Task} {t : Task} {later : Nat} (member : t ∈ members)
    (found : nextDue? t = some later) : ∃ due ≤ later, nextDueAmong? members = some due := by
  cases among : nextDueAmong? members with
  | none =>
    rw [nextDueAmong?_eq, earliest_eq_none] at among
    rw [among _ (List.mem_map.mpr ⟨t, member, rfl⟩)] at found
    cases found
  | some due => exact ⟨due, (nextDueAmong?_eq_some among).2 t member later found, rfl⟩

/-! ## What rings -/

theorem ringingAmong?_eq_none {tick : Nat} {members : List Task} :
    ringingAmong? tick members = none ↔ ∀ t ∈ members, ringing? tick t = none := by
  rw [ringingAmong?_eq, earliest_eq_none]
  simp

/-- No timer rings by a tick exactly when the next one rings later. -/
theorem ringing?_eq_none {tick : Nat} {t : Task} :
    ringing? tick t = none ↔ ∀ due, nextDue? t = some due → tick < due := by
  induction t using memberInduction with
  | fresh mode value => simp [ringing?, nextDue?]
  | asleep mode timer name outcome =>
    simp only [ringing?, nextDue?, Option.some.injEq, forall_eq']
    split <;> simp <;> omega
  | forever => simp [ringing?, nextDue?]
  | convert kind inner ih => exact ih
  | group members ready ih =>
    simp only [ringing?, nextDue?, ringingAmong?_eq_none]
    constructor
    · intro silent due found
      obtain ⟨⟨t, member, found⟩, _⟩ := nextDueAmong?_eq_some found
      exact (ih t member).mp (silent t member) due found
    · intro later t member
      refine (ih t member).mpr fun due found => ?_
      obtain ⟨first, le, among⟩ := exists_nextDueAmong? member found
      exact Nat.lt_of_lt_of_le (later first among) le
  | done result => simp [ringing?, nextDue?]

/-- While a quiet task waits, its next timer rings later, but no later than it has settled. -/
theorem Quiet.nextDue? {now due : Nat} {t : Task} (h : Quiet now t) (options : Options)
    (found : nextDue? t = some due) : now < due ∧ due ≤ settledBy options now t := by
  induction h generalizing due with
  | @asleep _ timer _ outcome later =>
    obtain rfl : timer.due = due := by simpa [Task.nextDue?] using found
    cases outcome with
    | ok value => exact ⟨later, Nat.le_add_right _ _⟩
    | error reason => exact ⟨later, Nat.le_refl _⟩
  | forever => cases found
  | convert _ ih => exact ih found
  | group _ _ ih =>
    obtain ⟨⟨t, member, found⟩, _⟩ := nextDueAmong?_eq_some found
    obtain ⟨later, le⟩ := ih t member found
    exact ⟨later, Nat.le_trans le (settledBy_le_all member)⟩
  | done => cases found

/-! ## The queue after the timers have rung -/

theorem mem_insertRinging {entry other : Nat × Nat} {entries : List (Nat × Nat)} :
    other ∈ Group.insertRinging entry entries ↔ other = entry ∨ other ∈ entries := by
  induction entries with
  | nil => simp [Group.insertRinging]
  | cons first rest ih =>
    unfold Group.insertRinging
    split
    · simp
    · simp only [List.mem_cons, ih]
      exact or_left_comm

theorem nodup_insertRinging {entry : Nat × Nat} {entries : List (Nat × Nat)}
    (absent : ∀ other ∈ entries, other.2 ≠ entry.2) (nodup : (entries.map Prod.snd).Nodup) :
    ((Group.insertRinging entry entries).map Prod.snd).Nodup := by
  induction entries with
  | nil => simp [Group.insertRinging]
  | cons first rest ih =>
    obtain ⟨missing, nodup⟩ := List.nodup_cons.mp nodup
    unfold Group.insertRinging
    split
    · refine List.nodup_cons.mpr ⟨fun member => ?_, List.nodup_cons.mpr ⟨missing, nodup⟩⟩
      obtain ⟨other, member, same⟩ := List.mem_map.mp member
      exact absent other member same
    · refine List.nodup_cons.mpr ⟨fun member => ?_,
        ih (fun other member => absent other (List.mem_cons_of_mem _ member)) nodup⟩
      obtain ⟨other, member, same⟩ := List.mem_map.mp member
      rcases mem_insertRinging.mp member with rfl | member
      · exact absent first List.mem_cons_self same.symm
      · exact missing (List.mem_map.mpr ⟨other, member, same⟩)

theorem mem_ringingFrom {tick index number i : Nat} {members : List Task} :
    (number, i) ∈ Group.ringingFrom tick index members ↔
      ∃ j t, i = index + j ∧ members[j]? = some t ∧ ringing? tick t = some number := by
  induction members generalizing index with
  | nil => simp [Group.ringingFrom]
  | cons s rest ih =>
    have split : (∃ j t, i = index + j ∧ (s :: rest)[j]? = some t ∧ ringing? tick t = some number) ↔
        (i = index ∧ ringing? tick s = some number) ∨
          ∃ j t, i = index + 1 + j ∧ rest[j]? = some t ∧ ringing? tick t = some number := by
      constructor
      · rintro ⟨j, t, rfl, found, rings⟩
        cases j with
        | zero =>
          obtain rfl : s = t := by simpa using found
          exact .inl ⟨rfl, rings⟩
        | succ j => exact .inr ⟨j, t, by omega, by simpa using found, rings⟩
      · rintro (⟨rfl, rings⟩ | ⟨j, t, rfl, found, rings⟩)
        · exact ⟨0, s, rfl, rfl, rings⟩
        · exact ⟨j + 1, t, by omega, by simpa using found, rings⟩
    rw [split]
    unfold Group.ringingFrom
    cases rings : ringing? tick s with
    | none => simp [ih]
    | some first =>
      simp only [mem_insertRinging, ih, Prod.mk.injEq, Option.some.injEq]
      rw [and_comm, eq_comm (a := number)]

theorem nodup_ringingFrom (tick index : Nat) (members : List Task) :
    ((Group.ringingFrom tick index members).map Prod.snd).Nodup := by
  induction members generalizing index with
  | nil => simp [Group.ringingFrom]
  | cons s rest ih =>
    unfold Group.ringingFrom
    split
    · refine nodup_insertRinging (fun other member => ?_) (ih (index + 1))
      obtain ⟨j, t, same, _⟩ := mem_ringingFrom.mp member
      simp only [same]
      omega
    · exact ih (index + 1)

/-- Whoever is woken joins those whose turn was to come. -/
theorem mem_wakeReady {tick i : Nat} {members : List Task} {ready : List Nat} :
    i ∈ Group.wakeReady tick members ready ↔
      i ∈ ready ∨ ∃ t, members[i]? = some t ∧ ringing? tick t ≠ none := by
  have rings : (∃ t, members[i]? = some t ∧ ringing? tick t ≠ none) ↔
      i ∈ (Group.ringingFrom tick 0 members).map Prod.snd := by
    simp only [List.mem_map, Prod.exists, exists_eq_right, mem_ringingFrom, Nat.zero_add]
    constructor
    · rintro ⟨t, found, rings⟩
      obtain ⟨number, rings⟩ := Option.ne_none_iff_exists'.mp rings
      exact ⟨number, i, t, rfl, found, rings⟩
    · rintro ⟨number, j, t, rfl, found, rings⟩
      exact ⟨t, found, by simp [rings]⟩
  rw [rings, Group.wakeReady, List.mem_append, List.mem_filter]
  simp only [Bool.not_eq_true', List.contains_eq_mem, decide_eq_false_iff_not]
  by_cases already : i ∈ ready <;> simp [already]

theorem nodup_wakeReady {ready : List Nat} (nodup : ready.Nodup) (tick : Nat)
    (members : List Task) : (Group.wakeReady tick members ready).Nodup := by
  refine List.nodup_append.mpr ⟨nodup, (nodup_ringingFrom tick 0 members).filter _, ?_⟩
  intro i member j new same
  simp only [List.mem_filter, Bool.not_eq_true', List.contains_eq_mem,
    decide_eq_false_iff_not] at new
  exact new.2 (same ▸ member)

/-! ## Waking -/

theorem wakeEach_eq_map (tick : Nat) (members : List Task) :
    wakeEach tick members = members.map (wake tick) := by
  induction members with
  | nil => rfl
  | cons t rest ih => simp only [wakeEach, List.map_cons, ih]

@[simp] theorem isSettled_wake (tick : Nat) (t : Task) : isSettled (wake tick t) = isSettled t := by
  cases t <;> simp [wake, isSettled]

/-- Timers ring only for members that have not settled, so the queue stays fit. -/
theorem fit_wakeReady {members : List Task} {ready : List Nat}
    (fit : Queue.Fit isSettled ⟨members, ready⟩) (tick : Nat) :
    Queue.Fit isSettled ⟨members.map (wake tick), Group.wakeReady tick members ready⟩ := by
  refine ⟨nodup_wakeReady fit.nodup tick members, fun i member => ?_⟩
  have woken : ∀ {t : Task}, members[i]? = some t → isSettled t = false →
      ∃ s, (members.map (wake tick))[i]? = some s ∧ isSettled s = false :=
    fun {t} found unsettled =>
      ⟨wake tick t, by simp [found], by rw [isSettled_wake, unsettled]⟩
  rcases mem_wakeReady.mp member with member | ⟨t, found, rings⟩
  · obtain ⟨t, found, unsettled⟩ := fit.unsettled i member
    exact woken found unsettled
  · refine woken found ?_
    cases t with
    | done result => exact absurd rfl rings
    | _ => rfl

/-- Nobody is woken when no timer rings. -/
theorem wakeReady_of_silent {tick : Nat} {members : List Task}
    (silent : ∀ t ∈ members, ringing? tick t = none) (ready : List Nat) :
    Group.wakeReady tick members ready = ready := by
  have nobody : Group.ringingFrom tick 0 members = [] := by
    refine List.eq_nil_iff_forall_not_mem.mpr fun entry member => ?_
    obtain ⟨j, t, _, found, rings⟩ := mem_ringingFrom.mp member
    rw [silent t (List.mem_of_getElem? found)] at rings
    cases rings
  rw [Group.wakeReady, nobody]
  exact List.append_nil ready

/-- Before the next timer rings, waking changes nothing. -/
theorem wake_of_silent {tick : Nat} {t : Task} (h : ringing? tick t = none) : wake tick t = t := by
  induction t using memberInduction with
  | convert kind inner ih => rw [wake, ih h]
  | group members ready ih =>
    have silent := ringingAmong?_eq_none.mp h
    have same : members.map (wake tick) = members :=
      (List.map_congr_left fun t member => ih t member (silent t member)).trans
        (List.map_id members)
    rw [wake, wakeEach_eq_map, same]
    cases ready with
    | none => rfl
    | some ready => rw [Option.map_some, wakeReady_of_silent silent]
  | _ => rfl

/-- A quiet task stays quiet until its next timer rings. -/
theorem Quiet.of_silent {now tick : Nat} {t : Task} (h : Quiet now t)
    (silent : ringing? tick t = none) : Quiet tick t := by
  induction h with
  | asleep => exact .asleep (ringing?_eq_none.mp silent _ rfl)
  | forever => exact .forever
  | convert _ ih => exact .convert (ih silent)
  | group _ empty ih =>
    have silent := ringingAmong?_eq_none.mp silent
    exact .group (fun t member => ih t member (silent t member)) empty
  | done => exact .done

/-- When the next timer rings, a quiet task can be polled again. -/
theorem Ready.wake {line : Timeline} {t : Task} (ready : Ready line t) (quiet : Quiet line.now t)
    {tick : Nat} (next : ∀ due, Task.nextDue? t = some due → tick ≤ due) :
    Ready { line with now := tick } (wake tick t) := by
  induction ready with
  | fresh => cases quiet
  | asleep _ number => exact .asleep (next _ rfl) number
  | forever => exact .forever
  | convert _ ih =>
    cases quiet with
    | convert quiet => exact .convert (ih quiet next)
  | @together members _ ih =>
    cases quiet with
    | group quiet =>
      rw [Task.wake, wakeEach_eq_map]
      refine .together fun t member => ?_
      obtain ⟨s, inside, rfl⟩ := List.mem_map.mp member
      refine ih s inside (quiet s inside) fun due found => ?_
      obtain ⟨first, le, among⟩ := exists_nextDueAmong? inside found
      exact Nat.le_trans (next first among) le
  | @inTurn members queue _ fit turn ih =>
    cases quiet with
    | group quiet empty =>
      obtain rfl : queue = [] := empty
      rw [Task.wake, wakeEach_eq_map, Option.map_some]
      refine .inTurn (fun t member => ?_) (fit_wakeReady fit tick) fun i t woken => ?_
      · obtain ⟨s, inside, rfl⟩ := List.mem_map.mp member
        refine ih s inside (quiet s inside) fun due found => ?_
        obtain ⟨first, le, among⟩ := exists_nextDueAmong? inside found
        exact Nat.le_trans (next first among) le
      · obtain ⟨s, found, rfl⟩ : ∃ s, members[i]? = some s ∧ Task.wake tick s = t := by
          simpa using woken
        by_cases silent : ringing? tick s = none
        · rw [wake_of_silent silent]
          exact .inr ((quiet s (List.mem_of_getElem? found)).of_silent silent)
        · exact .inl (mem_wakeReady.mpr (.inr ⟨s, found, silent⟩))
  | done => exact .done

/-- Waking does not change by when a task settles. -/
theorem settledBy_wake (now tick : Nat) (t : Task) :
    settledBy options now (wake tick t) = settledBy options now t := by
  induction t using memberInduction with
  | convert kind inner ih => exact ih
  | group members ready ih =>
    simp only [wake, settledBy]
    induction members with
    | nil => rfl
    | cons s rest ihRest =>
      simp only [wakeEach, allSettledBy, ih s List.mem_cons_self,
        ihRest fun t member => ih t (List.mem_cons_of_mem s member)]
  | _ => rfl

end Task

end HtmlTemplate

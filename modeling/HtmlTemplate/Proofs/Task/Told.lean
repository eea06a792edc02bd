import HtmlTemplate.Proofs.Task.Fate
import HtmlTemplate.Proofs.Task.Reduces
import HtmlTemplate.Proofs.Value.Reached
import HtmlTemplate.Proofs.Value.Told
import Mathlib.Data.List.Basic

/-!
# What is told of a task

For a task that settles with a value, it is known from the start with which one (`Task.outcome`) and
what will be told of it (`Task.told`). Reductions change neither how it ends (`Task.Reduces.fate`)
nor that account: what was told on the way and what is still to be told are together what was to be
told at first (`Task.Reduces.told`). So once a task has settled, all of it has been told, each note
as often as it was due (`Task.told_of_done`).
-/

namespace HtmlTemplate

variable {options : Options}

/-- A whole value settles as it is. -/
theorem Value.Whole.fate_eq {mode : Mode} {v : Value} (h : v.Whole options mode) :
    v.fate options mode = .settles v := by
  cases h with
  | array silent => rw [fate_array, silent]; rfl
  | object plain => rw [fate, fateWith, plain]; rfl
  | unmatched none => simp only [fate, fateWith, fateObject, none, if_true]
  | component plain => rw [fate, fateWith, plain]; rfl
  | _ => rfl

/-- Nothing is told of resolving a whole value. -/
theorem Value.Whole.told_eq {mode : Mode} {v : Value} (h : v.Whole options mode) :
    v.told options mode = [] := by
  cases h with
  | array silent => rw [told_array, silent]; rfl
  | object plain => rw [told, toldWith, plain]; rfl
  | unmatched none => exact told_unmatched none
  | component plain => rw [told, toldWith, plain]; rfl
  | _ => rfl

namespace Task

variable {t u : Task} {notes : List Note}

/-! ## The end -/

/-- A reduction does not change how a task ends. -/
theorem Reduces.fate (h : Reduces options t notes u) : u.fate options = t.fate options := by
  induction h with
  | trans _ _ ih ih' => exact ih'.trans ih
  | available whole => exact whole.fate_eq.symm
  | transformed found =>
    simp only [Task.fate, Value.fate, Value.fateWith, Value.fateObject, found, if_true]
  | rendered content => simp only [Task.fate, Value.fate, Value.fateWith, if_pos content]
  | inside _ ih => simp only [Task.fate, ih]
  | @array mode items waits =>
    rw [Task.fate, Task.fate, fates_eq_map, Value.fate_array, if_pos waits, List.map_map]
    rfl
  | member found _ ih =>
    rw [Task.fate, Task.fate, fates_eq_map, fates_eq_map, Queue.map_set_eq found ih]
  | queued way => rw [Task.fate, Task.fate, joined_congr way]
  | verdict => rw [fate_task, Task.fate, fates_eq_map]
  | _ => rfl

mutual

/-- The value that a task settles with. -/
def outcome (options : Options) : Task → Value
  | fresh mode value => value.resolved options mode
  | asleep mode _ _ (.ok value) => value.resolved options mode
  | convert kind inner => (convertValue kind (outcome options inner)).result
  | group members _ => .array (outcomes options members)
  | done (.ok value) => value
  | _ => .null

/-- The values that tasks settle with. -/
def outcomes (options : Options) : List Task → List Value
  | [] => []
  | t :: rest => outcome options t :: outcomes options rest

end

theorem outcomes_eq_map (members : List Task) :
    outcomes options members = members.map (outcome options) := by
  induction members with
  | nil => rfl
  | cons t rest ih => simp only [outcomes, List.map_cons, ih]

/-- A task that settles does so with its outcome. -/
theorem outcome_of_settles {v : Value} (settles : t.fate options = .settles v) :
    v = t.outcome options := by
  induction t using memberInduction generalizing v with
  | fresh mode value => exact Value.eq_resolved_of_settles settles
  | asleep mode timer name outcome =>
    cases outcome with
    | ok value => exact Value.eq_resolved_of_settles settles
    | error reason => cases settles
  | forever => cases settles
  | convert kind inner ih =>
    obtain ⟨w, inside, rfl⟩ := Fate.map_eq_settles.mp settles
    rw [outcome, ← ih inside]
  | group members ready ih =>
    rw [fate, fates_eq_map] at settles
    obtain ⟨values, joined, rfl⟩ := Fate.map_eq_settles.mp settles
    have fates := Fate.joined_eq_settles.mp joined
    rw [outcome, outcomes_eq_map]
    clear settles joined
    induction members generalizing values with
    | nil => rw [List.map_eq_nil_iff.mp fates.symm]; rfl
    | cons s rest ihRest =>
      cases values with
      | nil => cases fates
      | cons w values =>
        obtain ⟨first, fates⟩ := List.cons.inj fates
        have others := ihRest (fun t member => ih t (List.mem_cons_of_mem s member)) values fates
        rw [List.map_cons, ← ih s List.mem_cons_self first, Value.array.inj others]
  | done result =>
    cases result with
    | ok value => exact (Fate.settles.inj settles).symm
    | error reason => cases settles

/-! ## The account -/

mutual

/-- What is told of a task from now on, if it settles with a value. -/
def told (options : Options) : Task → List Note
  | fresh mode value => value.told options mode
  | asleep mode _ name (.ok value) => .settled name :: value.told options mode
  | asleep _ _ name (.error _) => [.settled name]
  | convert kind inner => told options inner ++ (convertValue kind (outcome options inner)).notes
  | group members _ => toldEach options members
  | _ => []

/-- What is told of tasks from now on. -/
def toldEach (options : Options) : List Task → List Note
  | [] => []
  | t :: rest => told options t ++ toldEach options rest

end

theorem toldEach_eq_flatMap (members : List Task) :
    toldEach options members = members.flatMap (told options) := by
  induction members with
  | nil => rfl
  | cons t rest ih => rw [toldEach, List.flatMap_cons, ih]

theorem flatMap_set_perm {α β : Type} {f : α → List β} {l : List α} {i : Nat} {a b : α}
    {told : List β} (found : l[i]? = some a) (same : (told ++ f b).Perm (f a)) :
    (told ++ (l.set i b).flatMap f).Perm (l.flatMap f) := by
  induction l generalizing i with
  | nil => cases found
  | cons c rest ih =>
    cases i with
    | zero =>
      cases found
      rw [List.set_cons_zero, List.flatMap_cons, List.flatMap_cons, ← List.append_assoc]
      exact same.append_right _
    | succ i =>
      rw [List.set_cons_succ, List.flatMap_cons, List.flatMap_cons]
      have others := (ih (i := i) (by simpa using found)).append_left (f c)
      exact (List.perm_append_comm_assoc _ _ _).trans others

theorem settles_of_member {members : List Task} {ready : Option (List Nat)} {v : Value}
    (settles : (group members ready).fate options = .settles v) (member : t ∈ members) :
    ∃ w, t.fate options = .settles w := by
  rw [fate, fates_eq_map] at settles
  obtain ⟨values, joined, _⟩ := Fate.map_eq_settles.mp settles
  have inside : t.fate options ∈ values.map .settles := by
    rw [← Fate.joined_eq_settles.mp joined]
    exact List.mem_map.mpr ⟨t, member, rfl⟩
  obtain ⟨w, _, same⟩ := List.mem_map.mp inside
  exact ⟨w, same.symm⟩

theorem told_task {g : Group} {v : Value} (settles : g.task.fate options = .settles v) :
    g.task.told options = (group g.members g.ready).told options := by
  unfold Group.task at settles ⊢
  cases verdict : g.verdict with
  | waiting => rfl
  | failed member reason =>
    rw [verdict] at settles
    cases settles
  | settled values =>
    have silent : (values.map fun v => done (.ok v)).flatMap (told options) = [] :=
      List.flatMap_eq_nil_iff.mpr fun t member => by
        obtain ⟨w, _, rfl⟩ := List.mem_map.mp member
        rfl
    rw [members_of_settled verdict]
    show [] = toldEach options (values.map fun v => done (.ok v))
    rw [toldEach_eq_flatMap, silent]

/-- What was told on the way and what is still to be told is what was to be told. -/
theorem Reduces.told (h : Reduces options t notes u) {v : Value}
    (settles : t.fate options = .settles v) :
    (notes ++ u.told options).Perm (t.told options) := by
  -- What a placeholder tells depends on the value that it converts, so the task has to settle.
  induction h generalizing v with
  | refl => exact .refl _
  | trans first _ ih ih' =>
    rw [List.append_assoc]
    exact ((ih' (first.fate.trans settles)).append_left _).trans (ih settles)
  | available whole => exact .of_eq whole.told_eq.symm
  | transformed found => exact .of_eq (Value.told_transformed found).symm
  | rendered content => exact .of_eq (Value.told_component content _ _).symm
  | inside first ih =>
    obtain ⟨w, inside, _⟩ := Fate.map_eq_settles.mp settles
    rw [Task.told, Task.told, ← outcome_of_settles inside,
      ← outcome_of_settles (first.fate.trans inside), ← List.append_assoc]
    exact (ih inside).append_right _
  | converted => exact .of_eq (List.append_nil _)
  | unconverted => cases settles
  | @array mode items waits =>
    refine .of_eq ?_
    rw [List.nil_append, Task.told, Task.told, toldEach_eq_flatMap, List.flatMap_map,
      Value.told_array, if_pos waits]
    rfl
  | member found _ ih =>
    obtain ⟨w, inside⟩ := settles_of_member settles (List.mem_of_getElem? found)
    rw [Task.told, Task.told, toldEach_eq_flatMap, toldEach_eq_flatMap]
    exact flatMap_set_perm found (ih inside)
  | queued way => exact .refl _
  | @verdict g =>
    have same : g.task.fate options = (group g.members g.ready).fate options :=
      Reduces.verdict.fate
    exact .of_eq (told_task (same.trans settles))
  | _ => exact .refl _

/-- Once a task has settled with a value, all that was due has been told of it. -/
theorem told_of_done {v : Value} (h : Reduces options t notes (done (.ok v))) :
    t.fate options = .settles v ∧ notes.Perm (t.told options) := by
  have settles : t.fate options = .settles v := h.fate.symm
  have told := h.told settles
  rw [Task.told, List.append_nil] at told
  · exact ⟨settles, told⟩
  all_goals simp

/-- Nothing is told when timers ring, and nothing else is due. -/
theorem outcome_wake (tick : Nat) (t : Task) :
    outcome options (wake tick t) = outcome options t := by
  induction t using memberInduction with
  | convert kind inner ih => simp only [wake, outcome, ih]
  | group members ready ih =>
    rw [wake, outcome, outcome, outcomes_eq_map, outcomes_eq_map, wakeEach_eq_map, List.map_map]
    exact congrArg Value.array (List.map_congr_left ih)
  | _ => rfl

theorem told_wake (tick : Nat) (t : Task) : (wake tick t).told options = t.told options := by
  induction t using memberInduction with
  | convert kind inner ih => rw [wake, told, told, ih, outcome_wake]
  | group members ready ih =>
    rw [wake, wakeEach_eq_map, told, told, toldEach_eq_flatMap, toldEach_eq_flatMap,
      List.flatMap_map]
    exact List.flatMap_congr ih
  | _ => rfl

end Task

end HtmlTemplate

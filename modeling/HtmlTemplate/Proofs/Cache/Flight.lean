import HtmlTemplate.Cache.Shared
import Mathlib.Data.List.Induction

/-!
# The turns of the calls for one skeleton

`Flight` says how the turns of the calls for one skeleton fill the cell of its entry, one after the
other. That they are a single flight (`SingleFlight`) follows from the turns alone.
-/

namespace HtmlTemplate

/-! ## The turns of one skeleton -/

/-- The turns of the calls for one skeleton, and the cell that they fill. -/
inductive Flight : List Turn → Cell → Prop where
  | nobody : Flight [] .empty
  | begins {before} (id call serial) :
    Flight before .empty → Flight (before ++ [⟨id, call, .begins serial⟩]) (.busy call serial)
  | fails {before call serial} (id error) :
    Flight before (.busy call serial) → Flight (before ++ [⟨id, call, .ends (.error error)⟩]) .empty
  | succeeds {before call serial} (id template) :
    Flight before (.busy call serial) →
      Flight (before ++ [⟨id, call, .ends (.ok ⟨serial, template⟩)⟩]) (.full ⟨serial, template⟩)
  | gets {before stored} (id call) :
    Flight before (.full stored) →
      Flight (before ++ [⟨id, call, .returns (.ok stored)⟩]) (.full stored)
  | givesUp {before cell id call error} :
    Flight before cell → ⟨id, call, .ends (.error error)⟩ ∈ before →
      Flight (before ++ [⟨id, call, .returns (.error error)⟩]) cell

/-- The calls whose functions run after these turns. -/
def running (log : List Turn) : List Nat :=
  log.foldl (fun calls turn =>
    match turn.act with
    | .begins _ => turn.call :: calls
    | .ends _ => calls.erase turn.call
    | .returns _ => calls) []

/-- The calls that fill a cell. -/
def Cell.fillers : Cell → List Nat
  | .busy call _ => [call]
  | _ => []

/-- What a single flight is: the turns of the calls for one skeleton. -/
structure SingleFlight (log : List Turn) : Prop where
  /-- No two functions run at once. -/
  alone : ∀ before, before <+: log → (running before).length ≤ 1
  /-- After a function has succeeded, none begins and none ends. -/
  once : log.Pairwise fun earlier later =>
    ∀ stored, earlier.act = .ends (.ok stored) → ∃ result, later.act = .returns result
  /-- All calls that succeed return the same template. -/
  same : ∀ turn ∈ log, ∀ other ∈ log, ∀ stored stored', turn.act = .returns (.ok stored) →
    other.act = .returns (.ok stored') → stored = stored'
  /-- It is the one that a function has made before. -/
  made : ∀ before turn stored, before ++ [turn] <+: log → turn.act = .returns (.ok stored) →
    ∃ other ∈ before, other.act = .ends (.ok stored)
  /-- A call that fails returns the error of its own function. -/
  own : ∀ before turn error, before ++ [turn] <+: log → turn.act = .returns (.error error) →
    ⟨turn.id, turn.call, .ends (.error error)⟩ ∈ before

theorem running_append (log : List Turn) (turn : Turn) :
    running (log ++ [turn]) =
      match turn.act with
      | .begins _ => turn.call :: running log
      | .ends _ => (running log).erase turn.call
      | .returns _ => running log := by
  rw [running, List.foldl_append]
  rfl

namespace Flight

variable {log before : List Turn} {cell : Cell} {turn : Turn} {stored : StoredTemplate}

/-- The function of a call runs while the call fills the cell. -/
theorem running_eq (h : Flight log cell) : running log = cell.fillers := by
  induction h with
  | nobody => rfl
  | begins id call serial _ ih =>
    rw [running_append, ih]
    rfl
  | fails id error _ ih =>
    rw [running_append, ih]
    exact List.erase_cons_head _ _
  | succeeds id template _ ih =>
    rw [running_append, ih]
    exact List.erase_cons_head _ _
  | gets id call _ ih =>
    rw [running_append]
    exact ih
  | givesUp _ _ ih =>
    rw [running_append]
    exact ih

/-- A template that was made or returned is the one in the cell. -/
theorem full (h : Flight log cell) (member : turn ∈ log)
    (act : turn.act = .ends (.ok stored) ∨ turn.act = .returns (.ok stored)) :
    cell = .full stored := by
  induction h with
  | nobody => exact absurd member List.not_mem_nil
  | begins id call serial _ ih =>
    rcases List.mem_append.mp member with early | last
    · cases ih early
    · cases List.mem_singleton.mp last
      rcases act with act | act <;> cases act
  | fails id error _ ih =>
    rcases List.mem_append.mp member with early | last
    · cases ih early
    · cases List.mem_singleton.mp last
      rcases act with act | act <;> cases act
  | succeeds id template _ ih =>
    rcases List.mem_append.mp member with early | last
    · cases ih early
    · cases List.mem_singleton.mp last
      rcases act with act | act <;> cases act
      rfl
  | gets id call _ ih =>
    rcases List.mem_append.mp member with early | last
    · exact ih early
    · cases List.mem_singleton.mp last
      rcases act with act | act <;> cases act
      rfl
  | givesUp _ _ ih =>
    rcases List.mem_append.mp member with early | last
    · exact ih early
    · cases List.mem_singleton.mp last
      rcases act with act | act <;> cases act

/-- A template in the cell was made. -/
theorem made (h : Flight log (.full stored)) : ∃ turn ∈ log, turn.act = .ends (.ok stored) := by
  generalize same : Cell.full stored = cell at h
  induction h with
  | nobody => cases same
  | begins => cases same
  | fails => cases same
  | succeeds id template _ _ =>
    cases same
    exact ⟨_, List.mem_append_right _ (List.mem_singleton_self _), rfl⟩
  | gets id call _ ih =>
    obtain ⟨turn, member, act⟩ := ih same
    exact ⟨turn, List.mem_append_left _ member, act⟩
  | givesUp _ _ ih =>
    obtain ⟨turn, member, act⟩ := ih same
    exact ⟨turn, List.mem_append_left _ member, act⟩

/-- What was seen before was a flight too. -/
theorem of_prefix (h : Flight log cell) (early : before <+: log) : ∃ cell, Flight before cell := by
  induction h with
  | nobody => exact ⟨_, List.prefix_nil.mp early ▸ nobody⟩
  | begins id call serial flight ih =>
    rcases List.prefix_concat_iff.mp early with rfl | early
    · exact ⟨_, flight.begins id call serial⟩
    · exact ih early
  | fails id error flight ih =>
    rcases List.prefix_concat_iff.mp early with rfl | early
    · exact ⟨_, flight.fails id error⟩
    · exact ih early
  | succeeds id template flight ih =>
    rcases List.prefix_concat_iff.mp early with rfl | early
    · exact ⟨_, flight.succeeds id template⟩
    · exact ih early
  | gets id call flight ih =>
    rcases List.prefix_concat_iff.mp early with rfl | early
    · exact ⟨_, flight.gets id call⟩
    · exact ih early
  | givesUp flight ended ih =>
    rcases List.prefix_concat_iff.mp early with rfl | early
    · exact ⟨_, flight.givesUp ended⟩
    · exact ih early

/-- The last turn of a flight, after the others. -/
theorem last (h : Flight (log ++ [turn]) cell) : ∃ old, Flight log old ∧
    match turn.act with
    | .begins serial => old = .empty ∧ cell = .busy turn.call serial
    | .ends _ => ∃ serial, old = .busy turn.call serial
    | .returns (.ok stored) => old = .full stored
    | .returns (.error error) => ⟨turn.id, turn.call, .ends (.error error)⟩ ∈ log := by
  generalize whole : log ++ [turn] = all at h
  cases h with
  | nobody => exact absurd whole (by simp)
  | begins id call serial flight =>
    obtain ⟨rfl, rfl⟩ := List.append_singleton_inj.mp whole
    exact ⟨_, flight, rfl, rfl⟩
  | fails id error flight =>
    obtain ⟨rfl, rfl⟩ := List.append_singleton_inj.mp whole
    exact ⟨_, flight, _, rfl⟩
  | succeeds id template flight =>
    obtain ⟨rfl, rfl⟩ := List.append_singleton_inj.mp whole
    exact ⟨_, flight, _, rfl⟩
  | gets id call flight =>
    obtain ⟨rfl, rfl⟩ := List.append_singleton_inj.mp whole
    exact ⟨_, flight, rfl⟩
  | givesUp flight ended =>
    obtain ⟨rfl, rfl⟩ := List.append_singleton_inj.mp whole
    exact ⟨_, flight, ended⟩

/-- After a function has succeeded, calls only return. -/
theorem returns_of_ends (h : Flight (log ++ [turn]) cell) {earlier : Turn} (member : earlier ∈ log)
    (act : earlier.act = .ends (.ok stored)) : ∃ result, turn.act = .returns result := by
  obtain ⟨old, flight, shape⟩ := h.last
  have full := flight.full member (Or.inl act)
  cases done : turn.act with
  | begins serial =>
    rw [done, full] at shape
    cases shape.1
  | ends result =>
    rw [done, full] at shape
    obtain ⟨serial, same⟩ := shape
    cases same
  | returns result => exact ⟨result, rfl⟩

theorem singleFlight (h : Flight log cell) : SingleFlight log where
  alone before early := by
    obtain ⟨cell, flight⟩ := h.of_prefix early
    rw [flight.running_eq]
    cases cell with
    | busy call serial => exact Nat.le_refl 1
    | empty => exact Nat.zero_le 1
    | full stored => exact Nat.zero_le 1
  once := by
    -- Each turn is the last of some prefix.
    have prefixes : ∀ before, before <+: log → before.Pairwise fun earlier later =>
        ∀ stored, earlier.act = .ends (.ok stored) → ∃ result, later.act = .returns result := by
      intro before early
      induction before using List.reverseRecOn with
      | nil => exact List.Pairwise.nil
      | append_singleton before turn ih =>
        obtain ⟨cell, flight⟩ := h.of_prefix early
        refine List.pairwise_append.mpr
          ⟨ih ((List.prefix_append _ _).trans early), List.pairwise_singleton _ _, ?_⟩
        intro earlier member later single stored act
        rw [List.mem_singleton.mp single]
        exact flight.returns_of_ends member act
    exact prefixes log (List.prefix_refl log)
  same turn member other member' stored stored' act act' := by
    have full := h.full member (Or.inr act)
    rw [h.full member' (Or.inr act')] at full
    cases full
    rfl
  made before turn stored early act := by
    obtain ⟨cell, flight⟩ := h.of_prefix early
    obtain ⟨old, earlier, shape⟩ := flight.last
    rw [act] at shape
    exact (shape ▸ earlier).made
  own before turn error early act := by
    obtain ⟨cell, flight⟩ := h.of_prefix early
    obtain ⟨old, earlier, shape⟩ := flight.last
    rw [act] at shape
    exact shape

end Flight

/-- The turns of the calls for the skeleton with a number. -/
def turnsOf (id : Nat) (log : List Turn) : List Turn := log.filter fun turn => turn.id = id

/-- The number of the compile that begins. -/
def Turn.serial? (turn : Turn) : Option Nat :=
  match turn.act with
  | .begins serial => some serial
  | _ => none

theorem turnsOf_append_self (log : List Turn) (id n : Nat) (act : Act) :
    turnsOf id (log ++ [⟨id, n, act⟩]) = turnsOf id log ++ [⟨id, n, act⟩] := by
  rw [turnsOf, List.filter_append, List.filter_cons_of_pos (by simp), List.filter_nil]
  rfl

theorem turnsOf_append_ne (log : List Turn) {id other : Nat} (n : Nat) (act : Act)
    (apart : other ≠ id) : turnsOf id (log ++ [⟨other, n, act⟩]) = turnsOf id log := by
  rw [turnsOf, List.filter_append, List.filter_cons_of_neg (by simpa using apart), List.filter_nil,
    List.append_nil]
  rfl

end HtmlTemplate

import HtmlTemplate.Text.Basic

/-!
# Skeletons

A skeleton is the literal backbone of a page: segments with a slot between neighbours. It is known
by its number and not by its text, so that two skeletons with the same segments are two skeletons.
A skeleton lives as long as there is a handle on it; `Skeletons` keeps the handles of those that
live, and numbers are given out once.
-/

namespace HtmlTemplate

/-- A skeleton. -/
structure Skeleton where
  id : Nat
  segments : List Text
  deriving Repr, DecidableEq

/-- The number of slots. -/
def Skeleton.slotCount (s : Skeleton) : Nat := s.segments.length - 1

/-- The skeletons that live, each with the number of its handles. -/
structure Skeletons where
  /-- The number of the next skeleton. -/
  next : Nat
  living : List (Skeleton × Nat)
  deriving Repr, DecidableEq

namespace Skeletons

/-- No skeleton has been made yet. -/
def empty : Skeletons := ⟨1, []⟩

/-- Makes a skeleton, with one handle on it. Without segments it has a single empty one. -/
def create (known : Skeletons) (segments : List Text) : Skeleton × Skeletons :=
  let skeleton : Skeleton := ⟨known.next, if segments.isEmpty then [[]] else segments⟩
  (skeleton, ⟨known.next + 1, known.living ++ [(skeleton, 1)]⟩)

/-- The living skeleton with a number. -/
def find? (known : Skeletons) (id : Nat) : Option Skeleton :=
  (known.living.find? fun (skeleton, _) => skeleton.id == id).map Prod.fst

/-- Whether the skeleton with a number lives. -/
def isAlive (known : Skeletons) (id : Nat) : Bool := (known.find? id).isSome

/-- One more handle on a skeleton. -/
def retain (known : Skeletons) (id : Nat) : Skeletons :=
  { known with
    living := known.living.map fun (skeleton, handles) =>
      (skeleton, if skeleton.id = id then handles + 1 else handles) }

/-- One handle less on a skeleton; without a handle it does not live. -/
def release (known : Skeletons) (id : Nat) : Skeletons :=
  { known with
    living := known.living.filterMap fun (skeleton, handles) =>
      if skeleton.id = id then
        if handles ≤ 1 then none else some (skeleton, handles - 1)
      else some (skeleton, handles) }

/-- A new handle on a skeleton that is known by its number, if it lives. -/
def upgrade? (known : Skeletons) (id : Nat) : Option (Skeleton × Skeletons) :=
  (known.find? id).map fun skeleton => (skeleton, known.retain id)

@[simp] theorem next_create (known : Skeletons) (segments : List Text) :
    (known.create segments).2.next = known.next + 1 := rfl

@[simp] theorem next_retain (known : Skeletons) (id : Nat) : (known.retain id).next = known.next :=
  rfl

@[simp] theorem next_release (known : Skeletons) (id : Nat) :
    (known.release id).next = known.next := rfl

/-- A new handle on a living skeleton is a handle on that very skeleton. -/
theorem id_of_upgrade? {known known' : Skeletons} {id : Nat} {skeleton : Skeleton}
    (h : known.upgrade? id = some (skeleton, known')) : skeleton.id = id := by
  obtain ⟨found, hfound, heq⟩ := Option.map_eq_some_iff.1 h
  obtain ⟨⟨other, handles⟩, hmem, hother⟩ := Option.map_eq_some_iff.1 hfound
  have hid := List.find?_some hmem
  simp only [Prod.mk.injEq] at heq
  simp only [beq_iff_eq] at hid
  rw [← heq.1, ← hother, hid]

/-- A skeleton can be upgraded exactly while it lives. -/
theorem isSome_upgrade? (known : Skeletons) (id : Nat) :
    (known.upgrade? id).isSome = known.isAlive id := by
  simp [upgrade?, isAlive]

end Skeletons

end HtmlTemplate

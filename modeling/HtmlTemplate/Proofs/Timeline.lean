import HtmlTemplate.Timeline

/-!
# Computations on a timeline, applied

What a sequence does to a timeline is what its parts do one after the other. `Timeline.Later` is
what all of them keep that do not wait: the tick stays, and numbers of timers are given out once.
-/

namespace HtmlTemplate

/-- The same tick, with at least as many timers set. -/
def Timeline.Later (line line' : Timeline) : Prop :=
  line'.now = line.now ∧ line.timers ≤ line'.timers

namespace Timeline.Later

theorem refl (line : Timeline) : line.Later line := ⟨rfl, Nat.le_refl _⟩

theorem trans {a b c : Timeline} (h : a.Later b) (h' : b.Later c) : a.Later c :=
  ⟨h'.1.trans h.1, Nat.le_trans h.2 h'.2⟩

end Timeline.Later

namespace Live

variable {α β : Type}

theorem bind_apply (x : Live α) (f : α → Live β) (line : Timeline) :
    (x >>= f) line = f (x line).1 (x line).2 := rfl

theorem pure_apply (a : α) (line : Timeline) : (pure a : Live α) line = (a, line) := rfl

theorem later_record (x : Noted α) (line : Timeline) : line.Later (record x line).2 :=
  Timeline.Later.refl line

theorem later_note (n : Note) (line : Timeline) : line.Later (note n line).2 :=
  Timeline.Later.refl line

theorem later_setTimer (delay : Nat) (line : Timeline) : line.Later (setTimer delay line).2 :=
  ⟨rfl, Nat.le_succ _⟩

end Live

/-! ## The journal -/

/-- The journal goes on with some notes. -/
def Timeline.Tells (line : Timeline) (notes : List Note) (line' : Timeline) : Prop :=
  ∃ entries, line'.journal = line.journal ++ entries ∧ entries.map Prod.snd = notes

namespace Timeline.Tells

variable {a b c : Timeline} {notes notes' : List Note}

/-- Nothing is told where the journal stays as it is. -/
theorem silent (same : b.journal = a.journal) : a.Tells [] b :=
  ⟨[], same.trans (List.append_nil _).symm, rfl⟩

theorem refl (line : Timeline) : line.Tells [] line := silent rfl

theorem trans (h : a.Tells notes b) (h' : b.Tells notes' c) : a.Tells (notes ++ notes') c := by
  obtain ⟨entries, first, rfl⟩ := h
  obtain ⟨entries', then_, rfl⟩ := h'
  exact ⟨entries ++ entries', by rw [then_, first, List.append_assoc], List.map_append⟩

theorem record {α : Type} (x : Noted α) (line : Timeline) :
    line.Tells x.notes (Live.record x line).2 :=
  ⟨x.notes.map fun note => (line.now, note), rfl, by
    rw [List.map_map]
    exact List.map_id x.notes⟩

end Timeline.Tells

end HtmlTemplate

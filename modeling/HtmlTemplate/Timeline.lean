import HtmlTemplate.Journal

/-!
# The timeline

Rendering happens in time. A `Timeline` holds the clock, in ticks, and what must never repeat along
it: the numbers of timers and of content markers. It also keeps the journal, each note with the tick
at which it was made. `Live` is a computation on a timeline.

A timer rings when the clock reaches its tick. Timers that ring together are told apart by their
numbers, which grow in the order in which they were set. A timer rings also when nobody waits for it
any more.
-/

namespace HtmlTemplate

/-- The clock and what is numbered and noted along it. -/
structure Timeline where
  now : Nat
  /-- How many timers were set. -/
  timers : Nat
  /-- The tick by which all timers that were set have rung. -/
  lastRing : Nat
  /-- How many content markers were drawn. -/
  markers : Nat
  /-- The notes so far, each with its tick. -/
  journal : List (Nat × Note)
  deriving Repr, DecidableEq

/-- A moment at which somebody wants to be woken. -/
structure Timer where
  due : Nat
  number : Nat
  deriving Repr, DecidableEq

/-- A computation on a timeline. -/
abbrev Live := StateM Timeline

namespace Timeline

/-- The timeline on which nothing has happened. -/
def start : Timeline := ⟨0, 0, 0, 0, []⟩

end Timeline

namespace Live

variable {α : Type}

/-- The result of a computation, its notes entered at the present tick. -/
def record (x : Noted α) : Live α := fun line =>
  (x.result, { line with journal := line.journal ++ x.notes.map fun note => (line.now, note) })

/-- Enters a note. -/
def note (n : Note) : Live Unit := record (.note n)

/-- The present tick. -/
def now : Live Nat := fun line => (line.now, line)

/-- Moves the clock. -/
def setClock (tick : Nat) : Live Unit := fun line => ((), { line with now := tick })

/-- Sets a timer that rings after a delay. -/
def setTimer (delay : Nat) : Live Timer := fun line =>
  (⟨line.now + delay, line.timers⟩,
    { line with timers := line.timers + 1, lastRing := max line.lastRing (line.now + delay) })

/-- Lets the clock run until all timers have rung. -/
def runOut : Live Unit := fun line => ((), { line with now := max line.now line.lastRing })

/-! ## What each step leaves behind -/

@[simp] theorem record_fst (x : Noted α) (line : Timeline) : (record x line).1 = x.result := rfl

@[simp] theorem record_now (x : Noted α) (line : Timeline) : (record x line).2.now = line.now := rfl

@[simp] theorem record_timers (x : Noted α) (line : Timeline) :
    (record x line).2.timers = line.timers := rfl

@[simp] theorem record_markers (x : Noted α) (line : Timeline) :
    (record x line).2.markers = line.markers := rfl

@[simp] theorem record_journal (x : Noted α) (line : Timeline) :
    (record x line).2.journal = line.journal ++ x.notes.map fun note => (line.now, note) := rfl

/-- Entering a result without notes leaves the timeline as it is. -/
theorem record_silent (a : α) (line : Timeline) : record (.silent a) line = (a, line) := by
  simp [record, Noted.silent]

/-- The notes of a sequence are entered in order. -/
theorem record_bind {β : Type} (x : Noted α) (f : α → Noted β) (line : Timeline) :
    record (x >>= f) line = record (f x.result) (record x line).2 := by
  simp [record]

@[simp] theorem setClock_now (tick : Nat) (line : Timeline) :
    (setClock tick line).2.now = tick := rfl

@[simp] theorem setClock_journal (tick : Nat) (line : Timeline) :
    (setClock tick line).2.journal = line.journal := rfl

@[simp] theorem setTimer_due (delay : Nat) (line : Timeline) :
    (setTimer delay line).1.due = line.now + delay := rfl

@[simp] theorem setTimer_journal (delay : Nat) (line : Timeline) :
    (setTimer delay line).2.journal = line.journal := rfl

/-- A timer has rung by the time when all have. -/
theorem setTimer_due_le (delay : Nat) (line : Timeline) :
    (setTimer delay line).1.due ≤ (setTimer delay line).2.lastRing := Nat.le_max_right _ _

@[simp] theorem runOut_journal (line : Timeline) : (runOut line).2.journal = line.journal := rfl

/-- Time does not go back. -/
theorem now_le_runOut (line : Timeline) : line.now ≤ (runOut line).2.now := Nat.le_max_left _ _

/-- A timer's number is smaller than those of all later timers. -/
theorem setTimer_number_lt (delay : Nat) (line : Timeline) :
    (setTimer delay line).1.number < (setTimer delay line).2.timers := Nat.lt_succ_self _

end Live

end HtmlTemplate

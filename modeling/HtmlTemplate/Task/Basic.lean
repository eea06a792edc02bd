import HtmlTemplate.Timeline
import HtmlTemplate.Value.Basic

/-!
# Tasks

A `Task` is a value on its way to being available. A task moves only when it is polled: it then does
what it can do at the present tick, or gives way and asks to be polled again. A task that waits says
when its next timer rings, and it is woken then.

An array is a group of tasks. A group of up to `Group.limit` members polls all of them each time, in
order, and fails with the first failure that it meets. A larger group polls only the members that
were woken, in the order in which they were, and takes the outcomes in the order of the members: a
failure shows only after everything before it has settled.
-/

namespace HtmlTemplate

/-- How a value is resolved. -/
structure Mode where
  /-- Whether components are rendered and objects are transformed, as content has it. -/
  content : Bool
  /-- How many times in a row an object may still be replaced. -/
  expansions : Nat
  deriving Repr, DecidableEq

/-- A value on its way. -/
inductive Task where
  /-- A value that nobody has asked for yet. -/
  | fresh (mode : Mode) (value : Value)
  /-- Waiting for a timer; then the outcome is known, and a value is resolved in turn. -/
  | asleep (mode : Mode) (timer : Timer) (name : Option Text) (outcome : Except Text Value)
  /-- Waiting for nothing. -/
  | forever
  /-- A placeholder, whose value is on its way. -/
  | convert (kind : PlaceholderKind) (inner : Task)
  /-- The elements of an array; `ready` are the members to poll, in order, in a large group. -/
  | group (members : List Task) (ready : Option (List Nat))
  /-- Settled with a value, or with the reason why there is none. -/
  | done (result : Except Text Value)

namespace Task

/-- Whether the task has settled, with a value or without. -/
def isSettled : Task → Bool
  | done _ => true
  | _ => false

/-- Whether the task has settled without a value. -/
def isFailed : Task → Bool
  | done (.error _) => true
  | _ => false

/-! ## Timers -/

/-- The earlier of two moments, where nothing is later than everything. -/
def earlier : Option Nat → Option Nat → Option Nat
  | none, b => b
  | a, none => a
  | some a, some b => some (min a b)

mutual

/-- When the next timer of the task rings. -/
def nextDue? : Task → Option Nat
  | asleep _ timer _ _ => some timer.due
  | convert _ inner => nextDue? inner
  | group members _ => nextDueAmong? members
  | _ => none

/-- When the next timer of one of the tasks rings. -/
def nextDueAmong? : List Task → Option Nat
  | [] => none
  | t :: rest => earlier (nextDue? t) (nextDueAmong? rest)

end

mutual

/-- The first timer of the task, by number, that rings by a tick. -/
def ringing? (tick : Nat) : Task → Option Nat
  | asleep _ timer _ _ => if timer.due ≤ tick then some timer.number else none
  | convert _ inner => ringing? tick inner
  | group members _ => ringingAmong? tick members
  | _ => none

/-- The first timer of one of the tasks, by number, that rings by a tick. -/
def ringingAmong? (tick : Nat) : List Task → Option Nat
  | [] => none
  | t :: rest => earlier (ringing? tick t) (ringingAmong? tick rest)

end

end Task

/-! ## Groups -/

/-- Members that are polled as one. -/
structure Group where
  members : List Task
  /-- The members to poll, in order; all of them in a small group. -/
  ready : Option (List Nat)

/-- Where a group stands. -/
inductive Verdict where
  /-- Some members have to be waited for. -/
  | waiting
  /-- A member failed. -/
  | failed (member : Nat) (reason : Text)
  | settled (values : List Value)

namespace Verdict

/-- The verdict on a group whose first member settled with a value. -/
def after (value : Value) : Verdict → Verdict
  | waiting => waiting
  | failed member reason => failed (member + 1) reason
  | settled values => settled (value :: values)

/-- The verdict on a group whose first member is still on its way, but may be overtaken by a
failure. -/
def behind : Verdict → Verdict
  | failed member reason => failed (member + 1) reason
  | _ => waiting

/-- Whether this is a failure. -/
def isFailed : Verdict → Bool
  | failed .. => true
  | _ => false

end Verdict

namespace Group

/-- The greatest number of members that are polled all together. -/
def limit : Nat := 30

/-- The members to poll at first in a group of a given size. -/
def readyAtFirst (size : Nat) : Option (List Nat) :=
  if size ≤ limit then none else some (List.range size)

/-- The verdict on members that are polled together: the first failure counts. -/
def verdictTogether : List Task → Verdict
  | [] => .settled []
  | .done (.ok v) :: rest => (verdictTogether rest).after v
  | .done (.error reason) :: _ => .failed 0 reason
  | _ :: rest => (verdictTogether rest).behind

/-- The verdict on members whose outcomes are taken in order. -/
def verdictInTurn : List Task → Verdict
  | [] => .settled []
  | .done (.ok v) :: rest => (verdictInTurn rest).after v
  | .done (.error reason) :: _ => .failed 0 reason
  | _ :: _ => .waiting

/-- The verdict on a group. -/
def verdict (g : Group) : Verdict :=
  match g.ready with
  | none => verdictTogether g.members
  | some _ => verdictInTurn g.members

/-- The group as one task: an array when all members have settled. -/
def task (g : Group) : Task :=
  match g.verdict with
  | .waiting => .group g.members g.ready
  | .failed _ reason => .done (.error reason)
  | .settled values => .done (.ok (.array values))

/-- Adds a member, with the number of its timer, to a list in the order of the numbers. -/
def insertRinging (entry : Nat × Nat) : List (Nat × Nat) → List (Nat × Nat)
  | [] => [entry]
  | other :: rest =>
    if entry.1 < other.1 then entry :: other :: rest else other :: insertRinging entry rest

/-- The members with a timer that rings, in the order of the numbers; `index` is the first one's. -/
def ringingFrom (tick : Nat) (index : Nat) : List Task → List (Nat × Nat)
  | [] => []
  | t :: rest =>
    match t.ringing? tick with
    | some number => insertRinging (number, index) (ringingFrom tick (index + 1) rest)
    | none => ringingFrom tick (index + 1) rest

/-- The members to poll once the timers have rung that are due by a tick. -/
def wakeReady (tick : Nat) (members : List Task) (ready : List Nat) : List Nat :=
  ready ++ ((ringingFrom tick 0 members).map Prod.snd).filter fun index => !ready.contains index

end Group

namespace Task

mutual

/-- The task after the timers have rung that are due by a tick. -/
def wake (tick : Nat) : Task → Task
  | convert kind inner => convert kind (wake tick inner)
  | group members ready =>
    group (wakeEach tick members) (ready.map (Group.wakeReady tick members))
  | t => t

/-- The tasks after the timers have rung that are due by a tick. -/
def wakeEach (tick : Nat) : List Task → List Task
  | [] => []
  | t :: rest => wake tick t :: wakeEach tick rest

end

end Task

end HtmlTemplate

import HtmlTemplate.Task.Resolve
import HtmlTemplate.Value.Wait

/-!
# Waiting for an outcome

Whoever waits polls, and polls again while that is asked for. When there is nothing to say yet, the
clock moves to the next timer, and what that timer rings for is woken. Time passes only while
everybody waits. When no timer is left, there is nothing to wait for: the wait has stalled.
-/

namespace HtmlTemplate

/-! ## When tasks have settled -/

namespace Task

/-- The ticks that a value takes with the replacements that it has left. -/
def waitFor (options : Options) (mode : Mode) (value : Value) : Nat :=
  Value.waitWith (Value.waitObject options mode.expansions) mode.content value

mutual

/-- The tick by which a task settles that is polled whenever it is woken, from a tick `now` on. -/
def settledBy (options : Options) (now : Nat) : Task → Nat
  | fresh mode value => now + waitFor options mode value
  | asleep mode timer _ (.ok value) => timer.due + waitFor options mode value
  | asleep _ timer _ (.error _) => timer.due
  | convert _ inner => settledBy options now inner
  | group members _ => allSettledBy options now members
  | _ => now

/-- The tick by which all of some tasks have settled. -/
def allSettledBy (options : Options) (now : Nat) : List Task → Nat
  | [] => now
  | t :: rest => max (settledBy options now t) (allSettledBy options now rest)

end

end Task

/-! ## Waiting -/

/-- What a poll says. -/
inductive Reply (α : Type) where
  | said (a : α)
  /-- Nothing yet, but it asks to be polled again before the clock moves. -/
  | again
  /-- Nothing before the next timer rings. -/
  | waiting
  deriving Repr, DecidableEq

/-- The reply of somebody who has nothing to say. -/
def Reply.nothing {α : Type} (again : Bool) : Reply α := if again then .again else .waiting

/-- How something is waited for that says `α` at last, or again and again. -/
structure Waiting (σ α : Type) where
  /-- What there is to say at the present tick. -/
  poll : σ → Live (σ × Reply α)
  /-- How many times in a row it may ask to be polled again. -/
  turns : σ → Nat
  /-- When the next timer rings. -/
  nextDue? : σ → Option Nat
  /-- What is left after the timers have rung that are due by a tick. -/
  wake : Nat → σ → σ
  /-- The tick by which there is something to say, if ever, from a tick on. -/
  settledBy : Nat → σ → Nat

namespace Waiting

variable {σ α : Type}

/-- Polls at the present tick, and again while that is asked for, at most `turns` times. -/
def pollAgain (w : Waiting σ α) : Nat → σ → Live (σ × Option α)
  | 0, s => do
    match ← w.poll s with
    | (s, .said a) => pure (s, some a)
    | (s, _) => pure (s, none)
  | turns + 1, s => do
    match ← w.poll s with
    | (s, .said a) => pure (s, some a)
    | (s, .again) => pollAgain w turns s
    | (s, .waiting) => pure (s, none)

/-- What there is to say at the present tick, if anything. -/
def atOnce (w : Waiting σ α) (s : σ) : Live (σ × Option α) := w.pollAgain (w.turns s) s

/-- Waits while the clock moves at most `jumps` times. -/
def awaitWithin (w : Waiting σ α) : Nat → σ → Live (σ × Option α)
  | 0, s => w.atOnce s
  | jumps + 1, s => do
    let (s, said) ← w.atOnce s
    match said with
    | some a => pure (s, some a)
    | none =>
      match w.nextDue? s with
      | none => pure (s, none)
      | some due => do
        Live.setClock due
        awaitWithin w jumps (w.wake due s)

/-- Waits until there is something to say. The clock moves by a tick at least each time, so it moves
no more often than there are ticks to come. Nothing is said when the wait has stalled; by then all
timers have rung, those included that nobody waits for. -/
def await (w : Waiting σ α) (s : σ) : Live (σ × Option α) := do
  let now ← Live.now
  let (s, said) ← awaitWithin w (w.settledBy now s - now) s
  if said.isNone then Live.runOut
  pure (s, said)

end Waiting

end HtmlTemplate

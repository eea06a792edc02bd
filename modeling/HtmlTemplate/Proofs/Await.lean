import HtmlTemplate.Proofs.Polling
import HtmlTemplate.Task.Await

/-!
# Waiting without bounds

`Waiting.await` counts turns and jumps of the clock. `Runs` says the same without counting: poll,
and poll again while that is asked for; otherwise let the clock move to the next timer, or stall
when there is none. Where turns run out, timers ring in time and everything settles by the tick that
is promised (`Sound`), waiting is running (`await_runs`).
-/

namespace HtmlTemplate

namespace Waiting

variable {σ α : Type}

/-- How a wait goes, from a state on a timeline to what it says at last, if anything. -/
inductive Runs (w : Waiting σ α) : σ → Timeline → σ → Option α → Timeline → Prop
  | said {s line s' a line'} : w.poll s line = ((s', .said a), line') →
      Runs w s line s' (some a) line'
  | again {s line s' line' s'' o line''} : w.poll s line = ((s', .again), line') →
      Runs w s' line' s'' o line'' → Runs w s line s'' o line''
  | stalled {s line s' line'} : w.poll s line = ((s', .waiting), line') →
      w.nextDue? s' = none → Runs w s line s' none line'
  | woken {s line s' line' due s'' o line''} : w.poll s line = ((s', .waiting), line') →
      w.nextDue? s' = some due → Runs w (w.wake due s') (Live.setClock due line').2 s'' o line'' →
      Runs w s line s'' o line''

/-- What a wait says at last, wherever that leaves it. -/
def Gives (w : Waiting σ α) (s : σ) (line : Timeline) (o : Option α) : Prop :=
  ∃ s' line', Runs w s line s' o line'

/-- There is only one way for a wait to go. -/
theorem Runs.unique {w : Waiting σ α} {s : σ} {line : Timeline} {s₁ s₂ : σ} {o₁ o₂ : Option α}
    {line₁ line₂ : Timeline} (h : Runs w s line s₁ o₁ line₁) (h' : Runs w s line s₂ o₂ line₂) :
    s₁ = s₂ ∧ o₁ = o₂ ∧ line₁ = line₂ := by
  induction h with
  | said polled =>
    cases h' with
    | said polled' => rw [polled] at polled'; cases polled'; exact ⟨rfl, rfl, rfl⟩
    | again polled' => rw [polled] at polled'; cases polled'
    | stalled polled' => rw [polled] at polled'; cases polled'
    | woken polled' => rw [polled] at polled'; cases polled'
  | again polled _ ih =>
    cases h' with
    | said polled' => rw [polled] at polled'; cases polled'
    | again polled' rest => rw [polled] at polled'; cases polled'; exact ih rest
    | stalled polled' => rw [polled] at polled'; cases polled'
    | woken polled' => rw [polled] at polled'; cases polled'
  | stalled polled none =>
    cases h' with
    | said polled' => rw [polled] at polled'; cases polled'
    | again polled' => rw [polled] at polled'; cases polled'
    | stalled polled' => rw [polled] at polled'; cases polled'; exact ⟨rfl, rfl, rfl⟩
    | woken polled' some => rw [polled] at polled'; cases polled'; rw [none] at some; cases some
  | woken polled some _ ih =>
    cases h' with
    | said polled' => rw [polled] at polled'; cases polled'
    | again polled' => rw [polled] at polled'; cases polled'
    | stalled polled' none => rw [polled] at polled'; cases polled'; rw [none] at some; cases some
    | woken polled' some' rest =>
      rw [polled] at polled'
      cases polled'
      rw [some] at some'
      cases some'
      exact ih rest

theorem Gives.unique {w : Waiting σ α} {s : σ} {line : Timeline} {o o' : Option α}
    (h : w.Gives s line o) (h' : w.Gives s line o') : o = o' := by
  obtain ⟨_, _, run⟩ := h
  obtain ⟨_, _, run'⟩ := h'
  exact (run.unique run').2.1

/-- Other names for what is waited for, and other timelines, that a wait does not notice. -/
structure Renames (w : Waiting σ α) (g : σ → σ) (rel : Timeline → Timeline → Prop) : Prop where
  poll : ∀ {s line line'}, rel line line' →
    (w.poll (g s) line').1 = (g (w.poll s line).1.1, (w.poll s line).1.2)
  lines : ∀ {s line line'}, rel line line' → rel (w.poll s line).2 (w.poll (g s) line').2
  due : ∀ s, w.nextDue? (g s) = w.nextDue? s
  wake : ∀ tick s, w.wake tick (g s) = g (w.wake tick s)
  clock : ∀ {line line'} tick, rel line line' →
    rel (Live.setClock tick line).2 (Live.setClock tick line').2

theorem Gives.rename {w : Waiting σ α} {g : σ → σ} {rel : Timeline → Timeline → Prop}
    (h : w.Renames g rel) {s : σ} {line line' : Timeline} {o : Option α} (lines : rel line line')
    (given : w.Gives s line o) : w.Gives (g s) line' o := by
  obtain ⟨s', last, run⟩ := given
  have step : ∀ {s s' reply line line₁ line'}, rel line line' →
      w.poll s line = ((s', reply), line₁) →
      ∃ line₂, w.poll (g s) line' = ((g s', reply), line₂) ∧ rel line₁ line₂ := by
    intro s s' reply line line₁ line' lines polled
    have same := h.poll (s := s) lines
    have later := h.lines (s := s) lines
    rw [polled] at same later
    exact ⟨_, Prod.ext same rfl, later⟩
  induction run generalizing line' with
  | said polled =>
    obtain ⟨line₂, polled, _⟩ := step lines polled
    exact ⟨_, _, .said polled⟩
  | again polled _ ih =>
    obtain ⟨line₂, polled, later⟩ := step lines polled
    obtain ⟨_, _, rest⟩ := ih later
    exact ⟨_, _, .again polled rest⟩
  | stalled polled none =>
    obtain ⟨line₂, polled, _⟩ := step lines polled
    exact ⟨_, _, .stalled polled ((h.due _).trans none)⟩
  | woken polled some _ ih =>
    obtain ⟨line₂, polled, later⟩ := step lines polled
    obtain ⟨_, _, rest⟩ := ih (h.clock _ later)
    rw [← h.wake] at rest
    exact ⟨_, _, .woken polled ((h.due _).trans some) rest⟩

/-! ## Bounds that suffice -/

/-- The bounds of a wait are right: `Ready` is what may be polled on a timeline, `Quiet` what has
nothing to do before its next timer rings. -/
structure Sound (w : Waiting σ α) (Ready : Timeline → σ → Prop) (Quiet : Nat → σ → Prop) :
    Prop where
  /-- Who has to be polled again asks less often from then on. -/
  again : ∀ {line s s' line'}, Ready line s → w.poll s line = ((s', .again), line') →
    line.Later line' ∧ Ready line' s' ∧ w.turns s' < w.turns s ∧
      w.settledBy line.now s' ≤ w.settledBy line.now s
  waiting : ∀ {line s s' line'}, Ready line s → w.poll s line = ((s', .waiting), line') →
    line.Later line' ∧ Ready line' s' ∧ Quiet line.now s' ∧
      w.settledBy line.now s' ≤ w.settledBy line.now s
  /-- The next timer is still to ring, and rings in time. -/
  due : ∀ {now s due}, Quiet now s → w.nextDue? s = some due →
    now < due ∧ due ≤ w.settledBy now s
  wake : ∀ {line s due}, Ready line s → Quiet line.now s → w.nextDue? s = some due →
    Ready (Live.setClock due line).2 (w.wake due s) ∧
      w.settledBy due (w.wake due s) ≤ w.settledBy line.now s

section Sound

variable {w : Waiting σ α} {Ready : Timeline → σ → Prop} {Quiet : Nat → σ → Prop}

theorem pollAgain_of_said {s s' : σ} {a : α} {line line' : Timeline}
    (polled : w.poll s line = ((s', .said a), line')) (turns : Nat) :
    w.pollAgain turns s line = ((s', some a), line') := by
  cases turns <;> simp only [pollAgain, Live.bind_apply, polled, Live.pure_apply]

theorem pollAgain_of_waiting {s s' : σ} {line line' : Timeline}
    (polled : w.poll s line = ((s', .waiting), line')) (turns : Nat) :
    w.pollAgain turns s line = ((s', none), line') := by
  cases turns <;> simp only [pollAgain, Live.bind_apply, polled, Live.pure_apply]

theorem pollAgain_of_again {s s' : σ} {line line' : Timeline}
    (polled : w.poll s line = ((s', .again), line')) (turns : Nat) :
    w.pollAgain (turns + 1) s line = w.pollAgain turns s' line' := by
  simp only [pollAgain, Live.bind_apply, polled]

/-- Polling again and again ends with something said, or with nothing to do at this tick. -/
theorem pollAgain_runs (h : w.Sound Ready Quiet) (turns : Nat) (s : σ) (line : Timeline)
    (ready : Ready line s) (enough : w.turns s ≤ turns) :
    ∃ s' o line', w.pollAgain turns s line = ((s', o), line') ∧
      match o with
      | some a => Runs w s line s' (some a) line'
      | none => Ready line' s' ∧ line'.now = line.now ∧ Quiet line.now s' ∧
          w.settledBy line.now s' ≤ w.settledBy line.now s ∧
          (w.nextDue? s' = none → Runs w s line s' none line') ∧
          ∀ due s'' o line'', w.nextDue? s' = some due →
            Runs w (w.wake due s') (Live.setClock due line').2 s'' o line'' →
            Runs w s line s'' o line'' := by
  rcases polled : w.poll s line with ⟨⟨s', reply⟩, line'⟩
  cases reply with
  | said a => exact ⟨s', some a, line', pollAgain_of_said polled turns, .said polled⟩
  | again =>
    obtain ⟨⟨tick, _⟩, ready', less, settles⟩ := h.again ready polled
    cases turns with
    | zero => omega
    | succ turns =>
      obtain ⟨s'', o, line'', result, rest⟩ := pollAgain_runs h turns s' line' ready' (by omega)
      refine ⟨s'', o, line'', (pollAgain_of_again polled turns).trans result, ?_⟩
      cases o with
      | some a => exact .again polled rest
      | none =>
        obtain ⟨ready'', tick', quiet, settles', stalls, wakes⟩ := rest
        rw [tick] at tick' quiet settles'
        exact ⟨ready'', tick', quiet, Nat.le_trans settles' settles,
          fun none => .again polled (stalls none),
          fun due _ _ _ found rest => .again polled (wakes due _ _ _ found rest)⟩
  | waiting =>
    obtain ⟨later, ready', quiet, settles⟩ := h.waiting ready polled
    exact ⟨s', none, line', pollAgain_of_waiting polled turns, ready', later.1, quiet, settles,
      .stalled polled, fun due s'' o line'' found rest => .woken polled found rest⟩

/-- What there is to say at this tick, and otherwise the rest of the wait from the next timer on. -/
theorem awaitWithin_succ (w : Waiting σ α) (jumps : Nat) (s : σ) (line : Timeline) :
    w.awaitWithin (jumps + 1) s line =
      match w.atOnce s line with
      | ((s', some a), line') => ((s', some a), line')
      | ((s', none), line') =>
        match w.nextDue? s' with
        | none => ((s', none), line')
        | some due => w.awaitWithin jumps (w.wake due s') (Live.setClock due line').2 := by
  simp only [awaitWithin, Live.bind_apply]
  rcases w.atOnce s line with ⟨⟨s', o⟩, line'⟩
  cases o with
  | some a => rfl
  | none =>
    simp only
    cases w.nextDue? s' <;> rfl

/-- The clock moves no more often than there are ticks to come. -/
theorem awaitWithin_runs (h : w.Sound Ready Quiet) (jumps : Nat) (s : σ) (line : Timeline)
    (ready : Ready line s) (enough : w.settledBy line.now s ≤ line.now + jumps) :
    ∃ s' o line', w.awaitWithin jumps s line = ((s', o), line') ∧ Runs w s line s' o line' := by
  induction jumps generalizing s line with
  | zero =>
    obtain ⟨s', o, line', result, rest⟩ := pollAgain_runs h (w.turns s) s line ready (Nat.le_refl _)
    refine ⟨s', o, line', result, ?_⟩
    cases o with
    | some a => exact rest
    | none =>
      obtain ⟨_, _, quiet, settles, stalls, _⟩ := rest
      cases found : w.nextDue? s' with
      | none => exact stalls found
      | some due =>
        have bounds := h.due quiet found
        omega
  | succ jumps ih =>
    obtain ⟨s', o, line', result, rest⟩ := pollAgain_runs h (w.turns s) s line ready (Nat.le_refl _)
    rw [awaitWithin_succ, atOnce, result]
    clear result
    cases o with
    | some a => exact ⟨s', some a, line', rfl, rest⟩
    | none =>
      obtain ⟨ready', tick, quiet, settles, stalls, wakes⟩ := rest
      simp only
      cases found : w.nextDue? s' with
      | none => exact ⟨s', none, line', rfl, stalls found⟩
      | some due =>
        simp only
        obtain ⟨after, before⟩ := h.due quiet found
        rw [← tick] at quiet
        obtain ⟨woken, settles'⟩ := h.wake ready' quiet found
        obtain ⟨s'', o, line'', result', run⟩ :=
          ih (w.wake due s') (Live.setClock due line').2 woken
          (by rw [tick] at settles'; simp only [Live.setClock_now]; omega)
        exact ⟨s'', o, line'', result', wakes due _ _ _ found run⟩

/-- Waiting is running to the end; whoever stalls lets all timers ring. -/
theorem await_runs (h : w.Sound Ready Quiet) (s : σ) (line : Timeline) (ready : Ready line s) :
    ∃ s' o line', Runs w s line s' o line' ∧
      w.await s line = ((s', o), if o.isNone then (Live.runOut line').2 else line') := by
  obtain ⟨s', o, line', result, run⟩ :=
    awaitWithin_runs h (w.settledBy line.now s - line.now) s line ready (by omega)
  refine ⟨s', o, line', run, ?_⟩
  simp only [await, Live.bind_apply, Live.now, result]
  cases o <;> rfl

/-- What a wait says is what its run gives. -/
theorem gives_await (h : w.Sound Ready Quiet) (s : σ) (line : Timeline) (ready : Ready line s) :
    w.Gives s line (w.await s line).1.2 := by
  obtain ⟨s', o, line', run, result⟩ := await_runs h s line ready
  rw [result]
  exact ⟨s', line', run⟩

end Sound

/-! ## What a wait keeps -/

/-- What a poll has come to, whether it says something or not. -/
def Replied (inv : σ → Timeline → Prop) (post : σ → α → Timeline → Prop) :
    (σ × Reply α) × Timeline → Prop
  | ((s, .said a), line) => post s a line
  | ((s, _), line) => inv s line

/-- What polls and timers keep while there is nothing to say, and what holds once something is
said. -/
structure Keeps (w : Waiting σ α) (inv : σ → Timeline → Prop) (post : σ → α → Timeline → Prop) :
    Prop where
  poll : ∀ {s line}, inv s line → Replied inv post (w.poll s line)
  wake : ∀ {s line due}, inv s line → w.nextDue? s = some due →
    inv (w.wake due s) (Live.setClock due line).2

section Keeps

variable {w : Waiting σ α} {inv : σ → Timeline → Prop} {post : σ → α → Timeline → Prop}

/-- What a wait has come to, whether it has said something or not. -/
def Kept (inv : σ → Timeline → Prop) (post : σ → α → Timeline → Prop) :
    (σ × Option α) × Timeline → Prop
  | ((s, some a), line) => post s a line
  | ((s, none), line) => inv s line

theorem Keeps.pollAgain (h : Keeps w inv post) (turns : Nat) {s : σ} {line : Timeline}
    (start : inv s line) : Kept inv post (w.pollAgain turns s line) := by
  induction turns generalizing s line with
  | zero =>
    have replied := h.poll start
    rcases polled : w.poll s line with ⟨⟨s', reply⟩, line'⟩
    rw [polled] at replied
    simp only [Waiting.pollAgain, Live.bind_apply, polled]
    cases reply <;> exact replied
  | succ turns ih =>
    have replied := h.poll start
    rcases polled : w.poll s line with ⟨⟨s', reply⟩, line'⟩
    rw [polled] at replied
    simp only [Waiting.pollAgain, Live.bind_apply, polled]
    cases reply with
    | said a => exact replied
    | again => exact ih replied
    | waiting => exact replied

theorem Keeps.awaitWithin (h : Keeps w inv post) (jumps : Nat) {s : σ} {line : Timeline}
    (start : inv s line) : Kept inv post (w.awaitWithin jumps s line) := by
  induction jumps generalizing s line with
  | zero => exact h.pollAgain _ start
  | succ jumps ih =>
    have once : Kept inv post (w.atOnce s line) := h.pollAgain _ start
    rw [awaitWithin_succ]
    rcases out : w.atOnce s line with ⟨⟨s', o⟩, line'⟩
    rw [out] at once
    cases o with
    | some a => exact once
    | none =>
      simp only
      cases next : w.nextDue? s' with
      | none => exact once
      | some due => exact ih (h.wake once next)

/-- Whoever says something at last has kept until then what polls and timers keep. -/
theorem Keeps.await (h : Keeps w inv post) {s s' : σ} {line line' : Timeline} {a : α}
    (start : inv s line) (awaited : w.await s line = ((s', some a), line')) : post s' a line' := by
  have kept := h.awaitWithin (w.settledBy line.now s - line.now) start
  simp only [Waiting.await, Live.bind_apply, Live.now] at awaited
  rcases out : w.awaitWithin (w.settledBy line.now s - line.now) s line with ⟨⟨s₁, o⟩, line₁⟩
  rw [out] at kept awaited
  cases o with
  | some a' =>
    cases awaited
    exact kept
  | none => cases awaited

end Keeps

/-! ## Waits that end at once -/

theorem await_of_said {w : Waiting σ α} {s s' : σ} {line line' : Timeline} {a : α}
    (polled : w.poll s line = ((s', .said a), line')) : w.await s line = ((s', some a), line') := by
  have first : ∀ turns, w.pollAgain turns s line = ((s', some a), line') := by
    intro turns
    cases turns <;> simp only [pollAgain, Live.bind_apply, polled, Live.pure_apply]
  have within : ∀ jumps, w.awaitWithin jumps s line = ((s', some a), line') := by
    intro jumps
    cases jumps with
    | zero => exact first _
    | succ jumps => rw [awaitWithin_succ, atOnce, first]
  simp only [await, Live.bind_apply, Live.now, within]
  rfl

theorem await_of_stuck {w : Waiting σ α} {s : σ} {line : Timeline}
    (polled : w.poll s line = ((s, .waiting), line)) (none : w.nextDue? s = none) :
    w.await s line = ((s, .none), (Live.runOut line).2) := by
  have first : ∀ turns, w.pollAgain turns s line = ((s, .none), line) := by
    intro turns
    cases turns <;> simp only [pollAgain, Live.bind_apply, polled, Live.pure_apply]
  have within : ∀ jumps, w.awaitWithin jumps s line = ((s, .none), line) := by
    intro jumps
    cases jumps with
    | zero => exact first _
    | succ jumps => rw [awaitWithin_succ, atOnce, first]; simp only [none]
  simp only [await, Live.bind_apply, Live.now, within]
  rfl

end Waiting

end HtmlTemplate

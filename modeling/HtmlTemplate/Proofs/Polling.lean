import HtmlTemplate.Proofs.Timeline
import HtmlTemplate.Task.Polling
import Mathlib.Algebra.GroupWithZero.Nat

/-!
# What polling in turns does

`pollTogether` and `Queue.pollInTurn` poll members one after the other, on a timeline that every
poll moves on. What they do to the members is said here once, whatever the members are: a round is
`Together`, a stretch of turns is `Visits`. Both carry what is known of a single poll, so that the
laws of groups and streams follow by induction over a round, without opening the loops again.
-/

namespace HtmlTemplate

variable {σ τ : Type}

/-- What is known of a single poll: `pre` is what it needs of a member, which later polls of others
do not spoil, and `post` relates the member to what is left of it. -/
structure Polls (poll : σ → Live (Polled σ)) (pre : Timeline → σ → Prop)
    (post : σ → Polled σ → Prop) : Prop where
  keeps : ∀ {line line' s}, pre line s → line.Later line' → pre line' s
  later : ∀ {line s}, pre line s → line.Later (poll s line).2
  holds : ∀ {line s}, pre line s → pre (poll s line).2 (poll s line).1.state
  effect : ∀ {line s}, pre line s → post s (poll s line).1

/-! ## All together -/

/-- A round of polls: everybody is polled, up to the first one that fails. -/
inductive Together (post : σ → Polled σ → Prop) (isFailed : σ → Bool) :
    List σ → Polled (List σ) → Prop
  | nil : Together post isFailed [] (.quiet [])
  | failed {s p rest} : post s p → isFailed p.state = true →
      Together post isFailed (s :: rest) ⟨p.state :: rest, p.again⟩
  | cons {s p rest others} : post s p → isFailed p.state = false →
      Together post isFailed rest others →
      Together post isFailed (s :: rest) ⟨p.state :: others.state, p.again || others.again⟩

/-- Polling all together is a round of polls. -/
theorem together_pollTogether {poll : σ → Live (Polled σ)} {pre : Timeline → σ → Prop}
    {post : σ → Polled σ → Prop} (h : Polls poll pre post) (isFailed : σ → Bool)
    (members : List σ) (line : Timeline) (ready : ∀ s ∈ members, pre line s) :
    Together post isFailed members (pollTogether poll isFailed members line).1 ∧
      line.Later (pollTogether poll isFailed members line).2 ∧
      ∀ s ∈ (pollTogether poll isFailed members line).1.state,
        pre (pollTogether poll isFailed members line).2 s := by
  induction members generalizing line with
  | nil => exact ⟨.nil, .refl line, by simp [pollTogether, Live.pure_apply, Polled.quiet]⟩
  | cons s rest ih =>
    have first : pre line s := ready s List.mem_cons_self
    have later := h.later first
    have others : ∀ t ∈ rest, pre (poll s line).2 t := fun t member =>
      h.keeps (ready t (List.mem_cons_of_mem s member)) later
    rw [pollTogether_cons]
    split
    · rename_i failed
      refine ⟨.failed (h.effect first) failed, later, ?_⟩
      intro t member
      rcases List.mem_cons.mp member with rfl | member
      · exact h.holds first
      · exact others t member
    · rename_i failed
      obtain ⟨round, later', kept⟩ := ih (poll s line).2 others
      refine ⟨.cons (h.effect first) (by simpa using failed) round, later.trans later', ?_⟩
      intro t member
      rcases List.mem_cons.mp member with rfl | member
      · exact h.keeps (h.holds first) later'
      · exact kept t member

namespace Together

variable {post : σ → Polled σ → Prop} {isFailed : σ → Bool} {members : List σ}
  {p : Polled (List σ)}

/-- When nobody has failed after a round that asks for no other one, everybody is as a poll leaves
it that does not ask. -/
theorem each {calm : σ → Prop} (h : Together post isFailed members p)
    (fine : ∀ s ∈ p.state, isFailed s = false) (silent : p.again = false)
    (effect : ∀ {s : σ} {p : Polled σ}, post s p → p.again = false → calm p.state) :
    ∀ s ∈ p.state, calm s := by
  induction h with
  | nil => simp [Polled.quiet]
  | failed _ failed =>
    rw [fine _ List.mem_cons_self] at failed
    cases failed
  | cons polled _ _ ih =>
    obtain ⟨first, others⟩ := (Bool.or_eq_false_iff).mp silent
    intro s member
    rcases List.mem_cons.mp member with rfl | member
    · exact effect polled first
    · exact ih (fun t member => fine t (List.mem_cons_of_mem _ member)) others s member

theorem map_eq {f : σ → τ} (same : ∀ {s p}, post s p → f p.state = f s)
    (h : Together post isFailed members p) : p.state.map f = members.map f := by
  induction h with
  | nil => rfl
  | failed effect _ => simp only [List.map_cons, same effect]
  | cons effect _ _ ih => simp only [List.map_cons, same effect, ih]

end Together

/-! ## In turn -/

namespace Queue

/-- A stretch of `n` turns. Whoever asks to be polled again goes to the end of the queue, unless
the poll settled it; everybody else leaves the queue. -/
inductive Visits (post : σ → Polled σ → Prop) (isSettled : σ → Bool) :
    Nat → Queue σ → Queue σ → Prop
  | refl (q : Queue σ) : Visits post isSettled 0 q q
  | absent {n members i rest q} : members[i]? = none →
      Visits post isSettled n ⟨members, rest⟩ q →
      Visits post isSettled (n + 1) ⟨members, i :: rest⟩ q
  | leaves {n members i rest q s p} : members[i]? = some s → post s p →
      (isSettled p.state = true ∨ p.again = false) →
      Visits post isSettled n ⟨members.set i p.state, rest⟩ q →
      Visits post isSettled (n + 1) ⟨members, i :: rest⟩ q
  | asks {n members i rest q s p} : members[i]? = some s → post s p →
      isSettled p.state = false → p.again = true →
      Visits post isSettled n ⟨members.set i p.state, rest ++ [i]⟩ q →
      Visits post isSettled (n + 1) ⟨members, i :: rest⟩ q

/-- Whose turn it is, nobody twice, and nobody who has settled. -/
structure Fit (isSettled : σ → Bool) (q : Queue σ) : Prop where
  nodup : q.ready.Nodup
  unsettled : ∀ i ∈ q.ready, ∃ s, q.members[i]? = some s ∧ isSettled s = false

/-- The members who have not settled. -/
def unsettledCount (isSettled : σ → Bool) (q : Queue σ) : Nat :=
  q.members.countP fun s => !isSettled s

/-- All members meet a condition. -/
def Each (pre : σ → Prop) (q : Queue σ) : Prop := ∀ s ∈ q.members, pre s

theorem Each.set {pre : σ → Prop} {members : List σ} {i : Nat} {s : σ}
    (h : ∀ t ∈ members, pre t) (hs : pre s) (ready : List Nat) :
    Each pre ⟨members.set i s, ready⟩ := by
  intro t member
  rcases List.mem_or_eq_of_mem_set member with member | rfl
  · exact h t member
  · exact hs

theorem Each.get {pre : σ → Prop} {q : Queue σ} {i : Nat} {s : σ} (h : Each pre q)
    (hi : q.members[i]? = some s) : pre s := h s (List.mem_of_getElem? hi)

section Turns

variable {poll : σ → Live (Polled σ)} {pre : Timeline → σ → Prop} {post : σ → Polled σ → Prop}
  {isSettled : σ → Bool} {ends : List σ → Bool}

/-- What a stretch of turns leaves: the turns themselves, and everybody still fit to be polled. -/
structure Turned (pre : Timeline → σ → Prop) (post : σ → Polled σ → Prop) (isSettled : σ → Bool)
    (n : Nat) (p : Polled (Queue σ)) (line : Timeline) (out : Polled (Queue σ) × Timeline) :
    Prop where
  visits : Visits post isSettled n p.state out.1.state
  later : line.Later out.2
  kept : Each (pre out.2) out.1.state

theorem turned_refl {p : Polled (Queue σ)} {line : Timeline} (again : Bool)
    (ready : Each (pre line) p.state) :
    Turned pre post isSettled 0 p line (⟨p.state, again⟩, line) :=
  ⟨.refl _, .refl line, ready⟩

/-- A round is a stretch of turns. It gives way only when it was asked to before, when there was a
turn in it, or when it had none to give. -/
theorem turned_round (ends : List σ → Bool) (h : Polls poll pre post)
    {next : Polled (Queue σ) → Live (Polled (Queue σ))}
    (hnext : ∀ p line, Each (pre line) p.state → ∃ n,
      Turned pre post isSettled n p line (next p line) ∧
        ((next p line).1.again = true → p.again = true ∨ 0 < n))
    (turns : Nat) (asked : Bool) (p : Polled (Queue σ)) (line : Timeline)
    (ready : Each (pre line) p.state) :
    ∃ n, Turned pre post isSettled n p line
        (round poll isSettled ends next turns asked p line) ∧
      ((round poll isSettled ends next turns asked p line).1.again = true →
        p.again = true ∨ 0 < n ∨ turns = 0) := by
  induction turns generalizing asked p line with
  | zero => exact ⟨0, turned_refl true ready, fun _ => .inr (.inr rfl)⟩
  | succ turns ih =>
    obtain ⟨⟨members, queue⟩, again⟩ := p
    cases queue with
    | nil => exact ⟨0, turned_refl again ready, fun asks => .inl asks⟩
    | cons i rest =>
      cases hi : members[i]? with
      | none =>
        obtain ⟨n, turned, _⟩ := ih asked ⟨⟨members, rest⟩, again⟩ line ready
        simp only [round, hi]
        exact ⟨n + 1, ⟨.absent hi turned.visits, turned.later, turned.kept⟩, fun _ =>
          .inr (.inl (Nat.succ_pos n))⟩
      | some s =>
        have first : pre line s := ready.get hi
        have later := h.later first
        have others : ∀ queue, Each (pre (poll s line).2)
            ⟨members.set i (poll s line).1.state, queue⟩ :=
          Each.set (fun t member => h.keeps (ready t member) later) (h.holds first)
        rw [round_cons hi]
        simp only
        split
        · rename_i settled
          split
          · exact ⟨1, ⟨.leaves hi (h.effect first) (.inl settled) (.refl _), later, others rest⟩,
              fun _ => .inr (.inl Nat.one_pos)⟩
          · obtain ⟨n, turned, _⟩ := hnext ⟨⟨members.set i (poll s line).1.state, rest⟩,
              again || (poll s line).1.again⟩ (poll s line).2 (others rest)
            exact ⟨n + 1, ⟨.leaves hi (h.effect first) (.inl settled) turned.visits,
              later.trans turned.later, turned.kept⟩, fun _ => .inr (.inl (Nat.succ_pos n))⟩
        · rename_i unsettled
          have unsettled : isSettled (poll s line).1.state = false := by simpa using unsettled
          split
          · rename_i asks
            split
            · exact ⟨1, ⟨.asks hi (h.effect first) unsettled asks (.refl _), later, others _⟩,
                fun _ => .inr (.inl Nat.one_pos)⟩
            · obtain ⟨n, turned, _⟩ :=
                ih true ⟨⟨members.set i (poll s line).1.state, rest ++ [i]⟩, true⟩ _
                  (others (rest ++ [i]))
              exact ⟨n + 1, ⟨.asks hi (h.effect first) unsettled asks turned.visits,
                later.trans turned.later, turned.kept⟩, fun _ => .inr (.inl (Nat.succ_pos n))⟩
          · rename_i silent
            obtain ⟨n, turned, _⟩ := ih asked ⟨⟨members.set i (poll s line).1.state, rest⟩, again⟩ _
              (others rest)
            exact ⟨n + 1, ⟨.leaves hi (h.effect first) (.inr (by simpa using silent))
              turned.visits, later.trans turned.later, turned.kept⟩,
              fun _ => .inr (.inl (Nat.succ_pos n))⟩

/-- Rounds are a stretch of turns. -/
theorem turned_rounds (isSettled : σ → Bool) (ends : List σ → Bool) (h : Polls poll pre post)
    (unsettled : Nat) (p : Polled (Queue σ))
    (line : Timeline) (ready : Each (pre line) p.state) :
    ∃ n, Turned pre post isSettled n p line (rounds poll isSettled ends unsettled p line) ∧
      ((rounds poll isSettled ends unsettled p line).1.again = true → p.again = true ∨ 0 < n) := by
  induction unsettled generalizing p line with
  | zero => exact ⟨0, turned_refl p.again ready, fun asks => .inl asks⟩
  | succ unsettled ih =>
    obtain ⟨n, turned, asks⟩ := turned_round ends h ih (unsettled + 1) false p line ready
    refine ⟨n, turned, fun again => ?_⟩
    rcases asks again with again | positive | none
    · exact .inl again
    · exact .inr positive
    · cases none

/-- Polling in turn is a stretch of turns. Whoever has polled nobody does not ask. -/
theorem turned_pollInTurn (isSettled : σ → Bool) (ends : List σ → Bool) (h : Polls poll pre post)
    (q : Queue σ) (line : Timeline)
    (ready : Each (pre line) q) :
    ∃ n, Turned pre post isSettled n (.quiet q) line (pollInTurn poll isSettled ends q line) ∧
      ((pollInTurn poll isSettled ends q line).1.again = true → 0 < n) := by
  obtain ⟨n, turned, asks⟩ := turned_rounds isSettled ends h
    (q.members.countP fun s => !isSettled s) (.quiet q) line ready
  refine ⟨n, turned, fun again => ?_⟩
  rcases asks again with never | positive
  · cases never
  · exact positive

/-! ### Nobody is left over -/

theorem Fit.leaves {members : List σ} {i : Nat} {rest : List Nat} {s : σ}
    (h : Fit isSettled ⟨members, i :: rest⟩) : Fit isSettled ⟨members.set i s, rest⟩ := by
  obtain ⟨absent, nodup⟩ := List.nodup_cons.mp h.nodup
  refine ⟨nodup, fun j member => ?_⟩
  have different : i ≠ j := fun same => absent (same ▸ member)
  simpa [List.getElem?_set, different] using h.unsettled j (List.mem_cons_of_mem i member)

theorem Fit.asks {members : List σ} {i : Nat} {rest : List Nat} {s : σ}
    (h : Fit isSettled ⟨members, i :: rest⟩) (unsettled : isSettled s = false) :
    Fit isSettled ⟨members.set i s, rest ++ [i]⟩ := by
  obtain ⟨absent, nodup⟩ := List.nodup_cons.mp h.nodup
  refine ⟨List.nodup_append.mpr ⟨nodup, by simp, ?_⟩, fun j member => ?_⟩
  · intro a inRest b last
    rw [List.mem_singleton] at last
    rintro rfl
    exact absent (last ▸ inRest)
  · rcases List.mem_append.mp member with member | last
    · exact h.leaves.unsettled j member
    · obtain ⟨t, found, _⟩ := h.unsettled i List.mem_cons_self
      obtain ⟨bound, _⟩ := List.getElem?_eq_some_iff.mp found
      rw [List.mem_singleton.mp last]
      exact ⟨s, List.getElem?_set_self bound, unsettled⟩

/-- Turns keep a queue fit. -/
theorem Visits.fit {n : Nat} {q q' : Queue σ} (h : Visits post isSettled n q q')
    (fit : q.Fit isSettled) : q'.Fit isSettled := by
  induction h with
  | refl => exact fit
  | absent hi _ ih =>
    obtain ⟨s, found, _⟩ := fit.unsettled _ List.mem_cons_self
    rw [hi] at found
    cases found
  | leaves _ _ _ _ ih => exact ih fit.leaves
  | asks _ _ unsettled _ _ ih => exact ih (fit.asks unsettled)

/-! ### What turns do to each member -/

theorem Visits.each {n : Nat} {q q' : Queue σ} {P : σ → Prop}
    (keeps : ∀ {s p}, P s → post s p → P p.state) (h : Visits post isSettled n q q')
    (start : Each P q) : Each P q' := by
  induction h with
  | refl => exact start
  | absent _ _ ih => exact ih start
  | leaves found effect _ _ ih => exact ih (Each.set start (keeps (start.get found) effect) _)
  | asks found effect _ _ _ ih => exact ih (Each.set start (keeps (start.get found) effect) _)

theorem map_set_eq {f : σ → τ} {members : List σ} {i : Nat} {s t : σ} (found : members[i]? = some s)
    (same : f t = f s) : (members.set i t).map f = members.map f := by
  obtain ⟨bound, rfl⟩ := List.getElem?_eq_some_iff.mp found
  have bound' : i < (members.map f).length := by simpa using bound
  have kept : f t = (members.map f)[i] := by rw [same, List.getElem_map]
  rw [List.map_set, kept, List.set_getElem_self]

theorem Visits.map_eq {n : Nat} {q q' : Queue σ} {f : σ → τ}
    (same : ∀ {s p}, post s p → f p.state = f s) (h : Visits post isSettled n q q') :
    q'.members.map f = q.members.map f := by
  induction h with
  | refl => rfl
  | absent _ _ ih => exact ih
  | leaves found effect _ _ ih => exact ih.trans (map_set_eq found (same effect))
  | asks found effect _ _ _ ih => exact ih.trans (map_set_eq found (same effect))

/-- Each turn takes something from a weight that polls never raise, and that they lower when they
ask for another poll. -/
theorem Visits.weight {n : Nat} {q q' : Queue σ} (weight : σ → Nat)
    (lowers : ∀ {s p}, post s p →
      weight p.state ≤ weight s ∧ (p.again = true → weight p.state < weight s))
    (h : Visits post isSettled n q q') :
    q'.ready.length + (q'.members.map weight).sum + n ≤
      q.ready.length + (q.members.map weight).sum := by
  have changed : ∀ {members : List σ} {i : Nat} {s : σ} (t : σ), members[i]? = some s →
      ((members.set i t).map weight).sum + weight s = (members.map weight).sum + weight t := by
    intro members i s t found
    induction members generalizing i with
    | nil => cases found
    | cons u rest ih =>
      cases i with
      | zero =>
        obtain rfl : u = s := by simpa using found
        simp only [List.set_cons_zero, List.map_cons, List.sum_cons]
        omega
      | succ i =>
        have := ih (i := i) (by simpa using found)
        simp only [List.set_cons_succ, List.map_cons, List.sum_cons]
        omega
  induction h with
  | refl => exact Nat.le_refl _
  | absent _ _ ih =>
    simp only [List.length_cons] at ih ⊢
    omega
  | @leaves n members i rest q s p found effect _ _ ih =>
    have total := changed p.state found
    have le := (lowers effect).1
    simp only [List.length_cons] at ih ⊢
    omega
  | @asks n members i rest q s p found effect _ again _ ih =>
    have total := changed p.state found
    have lt := (lowers effect).2 again
    simp only [List.length_cons, List.length_append, List.length_nil] at ih ⊢
    omega

/-- Whoever is in the queue meets one condition, whoever is not meets the other. -/
def Holds (turn rest : Nat → σ → Prop) (q : Queue σ) : Prop :=
  ∀ i s, q.members[i]? = some s → (i ∈ q.ready → turn i s) ∧ (i ∉ q.ready → rest i s)

theorem Visits.holds {n : Nat} {q q' : Queue σ} {turn rest : Nat → σ → Prop}
    (leaves : ∀ {i s p}, turn i s → post s p → (isSettled p.state = true ∨ p.again = false) →
      rest i p.state)
    (asks : ∀ {i s p}, turn i s → post s p → isSettled p.state = false → p.again = true →
      turn i p.state)
    (h : Visits post isSettled n q q') (fit : q.Fit isSettled) (start : q.Holds turn rest) :
    q'.Holds turn rest := by
  induction h with
  | refl => exact start
  | absent missing _ ih =>
    obtain ⟨s, found, _⟩ := fit.unsettled _ List.mem_cons_self
    rw [missing] at found
    cases found
  | @leaves n members i queue q s p found effect done _ ih =>
    obtain ⟨absent, _⟩ := List.nodup_cons.mp fit.nodup
    obtain ⟨bound, _⟩ := List.getElem?_eq_some_iff.mp found
    refine ih fit.leaves fun j t found' => ?_
    by_cases same : i = j
    · subst same
      obtain rfl : p.state = t := by simpa [List.getElem?_set_self bound] using found'
      exact ⟨fun member => absurd member absent,
        fun _ => leaves ((start i s found).1 List.mem_cons_self) effect done⟩
    · rw [List.getElem?_set_ne same] at found'
      obtain ⟨first, second⟩ := start j t found'
      exact ⟨fun member => first (List.mem_cons_of_mem i member),
        fun outside => second fun member =>
          outside ((List.mem_cons.mp member).resolve_left (Ne.symm same))⟩
  | @asks n members i queue q s p found effect unsettled again _ ih =>
    obtain ⟨bound, _⟩ := List.getElem?_eq_some_iff.mp found
    refine ih (fit.asks unsettled) fun j t found' => ?_
    by_cases same : i = j
    · subst same
      obtain rfl : p.state = t := by simpa [List.getElem?_set_self bound] using found'
      exact ⟨fun _ => asks ((start i s found).1 List.mem_cons_self) effect unsettled again,
        fun outside => absurd (List.mem_append_right queue List.mem_cons_self) outside⟩
    · rw [List.getElem?_set_ne same] at found'
      obtain ⟨first, second⟩ := start j t found'
      refine ⟨fun member => first ?_, fun outside => second fun member => outside ?_⟩
      · rcases List.mem_append.mp member with member | last
        · exact List.mem_cons_of_mem i member
        · exact absurd (List.mem_singleton.mp last).symm same
      · exact List.mem_append_left _ ((List.mem_cons.mp member).resolve_left (Ne.symm same))

/-! ### Nobody is left to poll -/

/-- A queue that has polled and does not ask has nobody left to poll, unless all has ended. -/
def Idle (ends : List σ → Bool) (p : Polled (Queue σ)) : Prop :=
  p.again = false → p.state.ready = [] ∨ ends p.state.members = true

theorem unsettledCount_set {members : List σ} {i : Nat} {rest : List Nat} {s : σ}
    (h : Fit isSettled ⟨members, i :: rest⟩) (queue : List Nat) :
    unsettledCount isSettled ⟨members.set i s, queue⟩ + 1 =
      unsettledCount isSettled ⟨members, i :: rest⟩ + (if isSettled s then 0 else 1) := by
  obtain ⟨t, found, unsettled⟩ := h.unsettled i List.mem_cons_self
  obtain ⟨bound, rfl⟩ := List.getElem?_eq_some_iff.mp found
  have one : 0 < members.countP fun s => !isSettled s :=
    List.countP_pos_iff.mpr ⟨members[i], List.getElem_mem bound, by simp [unsettled]⟩
  simp only [unsettledCount, List.countP_set bound, unsettled, Bool.not_false, if_true]
  cases isSettled s <;> simp <;> omega

theorem idle_round {next : Polled (Queue σ) → Live (Polled (Queue σ))} {unsettled : Nat}
    (hnext : ∀ p line, p.state.Fit isSettled → unsettledCount isSettled p.state ≤ unsettled →
      Idle ends (next p line).1)
    (turns : Nat) (asked : Bool) (p : Polled (Queue σ)) (line : Timeline)
    (fit : p.state.Fit isSettled) (few : unsettledCount isSettled p.state ≤ unsettled + 1) :
    Idle ends (round poll isSettled ends next turns asked p line).1 := by
  induction turns generalizing asked p line with
  | zero => intro again; cases again
  | succ turns ih =>
    obtain ⟨⟨members, queue⟩, again⟩ := p
    cases queue with
    | nil => exact fun _ => .inl rfl
    | cons i rest =>
      obtain ⟨s, hi, _⟩ := fit.unsettled i List.mem_cons_self
      have count := fun queue =>
        unsettledCount_set (s := (poll s line).1.state) fit queue
      rw [round_cons hi]
      simp only
      split
      · rename_i settled
        split
        · rename_i ended
          exact fun _ => .inr ended
        · have fewer := count rest
          rw [if_pos settled, Nat.add_zero] at fewer
          exact hnext _ _ fit.leaves
            (Nat.le_of_succ_le_succ (Nat.le_trans (Nat.le_of_eq fewer) few))
      · rename_i unsettled'
        have unsettled' : isSettled (poll s line).1.state = false := by simpa using unsettled'
        have same : ∀ queue, unsettledCount isSettled
            ⟨members.set i (poll s line).1.state, queue⟩ ≤ unsettled + 1 := by
          intro queue
          have equal := count queue
          simp only [unsettled', Bool.false_eq_true, if_false] at equal few
          omega
        split
        · split
          · intro again; cases again
          · exact ih _ _ _ (fit.asks unsettled') (same _)
        · exact ih _ _ _ fit.leaves (same _)

theorem idle_rounds (unsettled : Nat) (p : Polled (Queue σ)) (line : Timeline)
    (fit : p.state.Fit isSettled) (few : unsettledCount isSettled p.state ≤ unsettled) :
    Idle ends (rounds poll isSettled ends unsettled p line).1 := by
  induction unsettled generalizing p line with
  | zero =>
    refine fun _ => .inl (List.eq_nil_iff_forall_not_mem.mpr fun i member => ?_)
    obtain ⟨s, found, unsettled⟩ := fit.unsettled i member
    have none := List.countP_eq_zero.mp (Nat.le_zero.mp few) s (List.mem_of_getElem? found)
    simp [unsettled] at none
  | succ unsettled ih => exact idle_round ih _ _ _ _ fit few

/-- After polling in turn, a queue that does not ask has nobody left to poll, unless all has
ended. -/
theorem idle_pollInTurn (poll : σ → Live (Polled σ)) (ends : List σ → Bool) (q : Queue σ)
    (line : Timeline) (fit : q.Fit isSettled) :
    Idle ends (pollInTurn poll isSettled ends q line).1 :=
  idle_rounds _ _ _ fit (Nat.le_refl _)

end Turns

end Queue

/-! ## Two sides in step -/

namespace Polled

/-- The same wish about another state. -/
def map (g : σ → τ) (p : Polled σ) : Polled τ := ⟨g p.state, p.again⟩

end Polled

/-- Two polls do the same, up to a renaming `g` of what they poll and a relation between their
timelines, as long as what is polled meets `inv`. -/
structure InStep (g : σ → τ) (inv : σ → Prop) (rel : Timeline → Timeline → Prop)
    (poll : σ → Live (Polled σ)) (poll' : τ → Live (Polled τ)) : Prop where
  same : ∀ {s line line'}, inv s → rel line line' →
    (poll' (g s) line').1 = (poll s line).1.map g
  lines : ∀ {s line line'}, inv s → rel line line' →
    rel (poll s line).2 (poll' (g s) line').2
  keeps : ∀ {s line line'}, inv s → rel line line' → inv (poll s line).1.state

section InStep

variable {g : σ → τ} {inv : σ → Prop} {rel : Timeline → Timeline → Prop}
  {poll : σ → Live (Polled σ)} {poll' : τ → Live (Polled τ)}

/-- Rounds of polls that are in step stay in step. -/
theorem pollTogether_map (h : InStep g inv rel poll poll') {isFailed : σ → Bool}
    {isFailed' : τ → Bool} (hfailed : ∀ s, inv s → isFailed' (g s) = isFailed s) (members : List σ)
    (line line' : Timeline) (ready : ∀ s ∈ members, inv s) (lines : rel line line') :
    (pollTogether poll' isFailed' (members.map g) line').1 =
        (pollTogether poll isFailed members line).1.map (List.map g) ∧
      rel (pollTogether poll isFailed members line).2
        (pollTogether poll' isFailed' (members.map g) line').2 ∧
      ∀ s ∈ (pollTogether poll isFailed members line).1.state, inv s := by
  induction members generalizing line line' with
  | nil => exact ⟨rfl, lines, by simp [pollTogether, Live.pure_apply, Polled.quiet]⟩
  | cons s rest ih =>
    have first : inv s := ready s List.mem_cons_self
    have others : ∀ t ∈ rest, inv t := fun t member => ready t (List.mem_cons_of_mem s member)
    have polled := h.same first lines
    have lines' := h.lines first lines
    have kept := h.keeps first lines
    obtain ⟨same, later, still⟩ := ih _ _ others lines'
    rw [List.map_cons, pollTogether_cons, pollTogether_cons, polled]
    simp only [Polled.map, hfailed _ kept] at same ⊢
    split
    · refine ⟨rfl, lines', ?_⟩
      intro t member
      rcases List.mem_cons.mp member with rfl | member
      · exact kept
      · exact others t member
    · refine ⟨by rw [same]; rfl, later, ?_⟩
      intro t member
      rcases List.mem_cons.mp member with rfl | member
      · exact kept
      · exact still t member

/-- What every poll of a member keeps of all members and the timeline, a round keeps. -/
theorem pollTogether_invariant {inv : List σ → Timeline → Prop}
    (keeps : ∀ {members line i s}, inv members line → members[i]? = some s →
      inv (members.set i (poll s line).1.state) (poll s line).2)
    (isFailed : σ → Bool) (before : List σ) {members : List σ} {line : Timeline}
    (holds : inv (before ++ members) line) :
    inv (before ++ (pollTogether poll isFailed members line).1.state)
      (pollTogether poll isFailed members line).2 := by
  induction members generalizing before line with
  | nil => exact holds
  | cons s rest ih =>
    have first := keeps (i := before.length) (s := s) holds (by simp)
    rw [List.set_append_right _ _ (Nat.le_refl _), Nat.sub_self, List.set_cons_zero] at first
    rw [pollTogether_cons]
    split
    · exact first
    · have others := ih (before ++ [(poll s line).1.state]) (by simpa using first)
      simpa using others

namespace Queue

/-- Two ways to poll the members of a queue are in step as long as the members of both sides, on
their timelines, are related. -/
structure Lockstep (poll : σ → Live (Polled σ)) (poll' : τ → Live (Polled τ)) (isSettled : σ → Bool)
    (isSettled' : τ → Bool) (ends : List σ → Bool) (ends' : List τ → Bool)
    (rel : List σ → Timeline → List τ → Timeline → Prop) : Prop where
  settled : ∀ {members line members' line'}, rel members line members' line' →
    members'.map isSettled' = members.map isSettled
  ends : ∀ {members line members' line'}, rel members line members' line' →
    ends' members' = ends members
  poll : ∀ {members line members' line' i s t}, rel members line members' line' →
    members[i]? = some s → members'[i]? = some t →
    (poll' t line').1.again = (poll s line).1.again ∧
      rel (members.set i (poll s line).1.state) (poll s line).2
        (members'.set i (poll' t line').1.state) (poll' t line').2

/-- The same turns and wishes on both sides, and members that are related. -/
structure Level (rel : List σ → Timeline → List τ → Timeline → Prop)
    (out : Polled (Queue σ) × Timeline) (out' : Polled (Queue τ) × Timeline) : Prop where
  members : rel out.1.state.members out.2 out'.1.state.members out'.2
  ready : out'.1.state.ready = out.1.state.ready
  again : out'.1.again = out.1.again

section Lockstep

variable {isSettled : σ → Bool} {isSettled' : τ → Bool} {ends : List σ → Bool}
  {ends' : List τ → Bool} {rel : List σ → Timeline → List τ → Timeline → Prop}

theorem Lockstep.round (h : Lockstep poll poll' isSettled isSettled' ends ends' rel)
    {next : Polled (Queue σ) → Live (Polled (Queue σ))}
    {next' : Polled (Queue τ) → Live (Polled (Queue τ))}
    (hnext : ∀ {p line p' line'}, Level rel (p, line) (p', line') →
      Level rel (next p line) (next' p' line'))
    (turns : Nat) (asked : Bool) {p : Polled (Queue σ)} {p' : Polled (Queue τ)}
    {line line' : Timeline} (level : Level rel (p, line) (p', line')) :
    Level rel (round poll isSettled ends next turns asked p line)
      (round poll' isSettled' ends' next' turns asked p' line') := by
  induction turns generalizing asked p p' line line' with
  | zero => exact ⟨level.members, level.ready, rfl⟩
  | succ turns ih =>
    obtain ⟨⟨members, queue⟩, again⟩ := p
    obtain ⟨⟨members', queue'⟩, again'⟩ := p'
    obtain ⟨related, rfl, rfl⟩ : rel members line members' line' ∧ queue' = queue ∧
        again' = again :=
      ⟨level.members, level.ready, level.again⟩
    cases queue' with
    | nil => exact ⟨related, rfl, rfl⟩
    | cons i rest =>
      have settled := h.settled related
      cases hi : members[i]? with
      | none =>
        have hi' : members'[i]? = none := by
          have same := congrArg (·[i]?) settled
          simpa [hi] using same
        simp only [Queue.round, hi, hi']
        exact ih asked ⟨related, rfl, rfl⟩
      | some s =>
        obtain ⟨t, hi', _⟩ : ∃ t, members'[i]? = some t ∧ isSettled' t = isSettled s := by
          have same := congrArg (·[i]?) settled
          simpa [hi] using same
        obtain ⟨asks, related⟩ := h.poll related hi hi'
        have same : isSettled' (poll' t line').1.state = isSettled (poll s line).1.state := by
          obtain ⟨bound, _⟩ := List.getElem?_eq_some_iff.mp hi
          obtain ⟨bound', _⟩ := List.getElem?_eq_some_iff.mp hi'
          have same := congrArg (·[i]?) (h.settled related)
          simpa [bound, bound'] using same
        rw [round_cons hi, round_cons hi']
        simp only [same, asks, h.ends related]
        split
        · split
          · exact ⟨related, rfl, rfl⟩
          · exact hnext ⟨related, rfl, rfl⟩
        · split
          · split
            · exact ⟨related, rfl, rfl⟩
            · exact ih true ⟨related, rfl, rfl⟩
          · exact ih asked ⟨related, rfl, rfl⟩

/-- Polls in turn that are in step stay in step. -/
theorem Lockstep.pollInTurn (h : Lockstep poll poll' isSettled isSettled' ends ends' rel)
    {members : List σ} {members' : List τ} {line line' : Timeline}
    (related : rel members line members' line') (ready : List Nat) :
    Level rel (pollInTurn poll isSettled ends ⟨members, ready⟩ line)
      (pollInTurn poll' isSettled' ends' ⟨members', ready⟩ line') := by
  have rounds : ∀ (unsettled : Nat) {p : Polled (Queue σ)} {p' : Polled (Queue τ)}
      {line line' : Timeline}, Level rel (p, line) (p', line') →
      Level rel (rounds poll isSettled ends unsettled p line)
        (rounds poll' isSettled' ends' unsettled p' line') := by
    intro unsettled
    induction unsettled with
    | zero => exact fun level => level
    | succ unsettled ih => exact fun level => h.round ih _ _ level
  have count : members'.countP (fun t => !isSettled' t) = members.countP fun s => !isSettled s := by
    have same := congrArg (List.countP fun settled => !settled) (h.settled related)
    rwa [List.countP_map, List.countP_map] at same
  unfold Queue.pollInTurn
  rw [count]
  exact rounds _ ⟨related, rfl, rfl⟩

end Lockstep

/-- What every poll of a member keeps of all members and the timeline, polling in turn keeps. -/
theorem pollInTurn_invariant (inv : List σ → Timeline → Prop)
    (keeps : ∀ {members line i s}, inv members line → members[i]? = some s →
      inv (members.set i (poll s line).1.state) (poll s line).2)
    (isSettled : σ → Bool) (ends : List σ → Bool) (q : Queue σ) {line : Timeline}
    (holds : inv q.members line) :
    inv (pollInTurn poll isSettled ends q line).1.state.members
      (pollInTurn poll isSettled ends q line).2 := by
  -- The turns are in step with themselves, as long as the members meet the invariant.
  have lockstep : Lockstep poll poll isSettled isSettled ends ends
      fun members line members' line' => members' = members ∧ line' = line ∧ inv members line := by
    refine ⟨?_, ?_, ?_⟩
    · rintro members line _ _ ⟨rfl, _⟩
      rfl
    · rintro members line _ _ ⟨rfl, _⟩
      rfl
    · rintro members line _ _ i s t ⟨rfl, rfl, holds⟩ found found'
      obtain rfl : s = t := Option.some.inj (found.symm.trans found')
      exact ⟨rfl, rfl, rfl, keeps holds found⟩
  exact (lockstep.pollInTurn ⟨rfl, rfl, holds⟩ q.ready).members.2.2

/-! ### Up to a renaming -/

/-- The same turns for other members. -/
def map (g : σ → τ) (q : Queue σ) : Queue τ := ⟨q.members.map g, q.ready⟩

/-- Two ways to go on with a queue are in step. -/
def Agree (g : σ → τ) (inv : σ → Prop) (rel : Timeline → Timeline → Prop)
    (out : Polled (Queue σ) × Timeline) (out' : Polled (Queue τ) × Timeline) : Prop :=
  out'.1 = out.1.map (Queue.map g) ∧ rel out.2 out'.2 ∧ Each inv out.1.state

variable {isSettled : σ → Bool} {isSettled' : τ → Bool}

/-- Polls in turn that are the same up to a renaming stay so. -/
theorem pollInTurn_map (ends : List σ → Bool) (ends' : List τ → Bool)
    (h : InStep g inv rel poll poll')
    (hsettled : ∀ s, inv s → isSettled' (g s) = isSettled s)
    (hends : ∀ members, (∀ s ∈ members, inv s) → ends' (members.map g) = ends members)
    (q : Queue σ) (line line' : Timeline) (ready : Each inv q) (lines : rel line line') :
    Agree g inv rel (pollInTurn poll isSettled ends q line)
      (pollInTurn poll' isSettled' ends' (q.map g) line') := by
  have lockstep : Lockstep poll poll' isSettled isSettled' ends ends'
      fun members line members' line' =>
        members' = members.map g ∧ rel line line' ∧ ∀ s ∈ members, inv s := by
    refine ⟨?_, ?_, ?_⟩
    · rintro members line _ line' ⟨rfl, _, each⟩
      rw [List.map_map]
      exact List.map_congr_left fun s member => hsettled s (each s member)
    · rintro members line _ line' ⟨rfl, _, each⟩
      exact hends members each
    · rintro members line _ line' i s t ⟨rfl, lines, each⟩ hi hi'
      obtain rfl : g s = t := by simpa [hi] using hi'
      have first : inv s := each s (List.mem_of_getElem? hi)
      have same := h.same first lines
      refine ⟨congrArg Polled.again same, ?_, h.lines first lines,
        Each.set each (h.keeps first lines) []⟩
      rw [List.map_set, same]
      rfl
  have level := lockstep.pollInTurn ⟨rfl, lines, ready⟩ q.ready
  obtain ⟨members, lines, kept⟩ := level.members
  refine ⟨?_, lines, kept⟩
  have same : ∀ {p : Polled (Queue τ)} {p' : Polled (Queue τ)}, p.state.members = p'.state.members →
      p.state.ready = p'.state.ready → p.again = p'.again → p = p' := by
    rintro ⟨⟨_, _⟩, _⟩ ⟨⟨_, _⟩, _⟩ rfl rfl rfl
    rfl
  exact same members level.ready level.again

end Queue

end InStep

/-! ## Groups -/

/-- A group that is polled keeps the way in which its members are polled. -/
theorem Task.isSome_ready_groupPoll (poll : Task → Live (Polled Task)) (g : Group)
    (line : Timeline) :
    (g.poll poll line).1.state.ready.isSome = g.ready.isSome := by
  obtain ⟨members, ready⟩ := g
  cases ready <;> rfl

/-- What every poll of a member keeps of all members and the timeline, the poll of a group keeps. -/
theorem Group.poll_invariant {poll : Task → Live (Polled Task)} (inv : List Task → Timeline → Prop)
    (keeps : ∀ {members line i t}, inv members line → members[i]? = some t →
      inv (members.set i (poll t line).1.state) (poll t line).2)
    (g : Group) {line : Timeline} (holds : inv g.members line) :
    inv (g.poll poll line).1.state.members (g.poll poll line).2 := by
  obtain ⟨members, ready⟩ := g
  cases ready with
  | none => exact pollTogether_invariant keeps Task.isFailed [] holds
  | some ready => exact Queue.pollInTurn_invariant inv keeps Task.isSettled _ _ holds

end HtmlTemplate

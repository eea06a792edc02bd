import HtmlTemplate.Task.Basic

/-!
# Polling in turns

Whoever is polled may ask to be polled again before the clock moves. Members are polled in the order
of a list until one of them fails, or they stand in a queue and take turns in the order in which
they were woken.

A member that asks goes back to the end of the queue. So that nobody else starves, the queue gives
way itself, and asks in its turn, when two members have asked since the last one settled, or when as
many polls as there are members still on their way have brought no outcome.
-/

namespace HtmlTemplate

/-- What a poll leaves. -/
structure Polled (σ : Type) where
  state : σ
  /-- Whether it asks to be polled again before the clock moves. -/
  again : Bool
  deriving Repr, DecidableEq

namespace Polled

variable {σ : Type}

/-- Left without a wish. -/
def quiet (state : σ) : Polled σ := ⟨state, false⟩

end Polled

/-! ## All together -/

/-- Polls everybody in order, up to the first one that fails; the others stay as they are. -/
def pollTogether {σ : Type} (poll : σ → Live (Polled σ)) (isFailed : σ → Bool) :
    List σ → Live (Polled (List σ))
  | [] => pure (.quiet [])
  | s :: rest => do
    let p ← poll s
    if isFailed p.state then pure ⟨p.state :: rest, p.again⟩
    else do
      let others ← pollTogether poll isFailed rest
      pure ⟨p.state :: others.state, p.again || others.again⟩

/-- The first poll of a round, and the rest of it from there. -/
theorem pollTogether_cons {σ : Type} (poll : σ → Live (Polled σ)) (isFailed : σ → Bool) (s : σ)
    (rest : List σ) (line : Timeline) :
    pollTogether poll isFailed (s :: rest) line =
      if isFailed (poll s line).1.state then
        (⟨(poll s line).1.state :: rest, (poll s line).1.again⟩, (poll s line).2)
      else
        (⟨(poll s line).1.state :: (pollTogether poll isFailed rest (poll s line).2).1.state,
          (poll s line).1.again || (pollTogether poll isFailed rest (poll s line).2).1.again⟩,
          (pollTogether poll isFailed rest (poll s line).2).2) := by
  have unfolded : pollTogether poll isFailed (s :: rest) line =
      (let p := (poll s line).1
      (if isFailed p.state then pure ⟨p.state :: rest, p.again⟩
      else do
        let others ← pollTogether poll isFailed rest
        pure ⟨p.state :: others.state, p.again || others.again⟩ : Live (Polled (List σ))))
        (poll s line).2 := rfl
  rw [unfolded]
  simp only
  split <;> rfl

/-- A round of polls keeps everybody in place. -/
theorem length_pollTogether {σ : Type} (poll : σ → Live (Polled σ)) (isFailed : σ → Bool)
    (members : List σ) (line : Timeline) :
    (pollTogether poll isFailed members line).1.state.length = members.length := by
  induction members generalizing line with
  | nil => rfl
  | cons s rest ih =>
    rw [pollTogether_cons]
    split
    · simp
    · simp [ih]

/-! ## In turn -/

/-- Members who are polled when it is their turn. -/
structure Queue (σ : Type) where
  members : List σ
  /-- Whose turn it is, in order. Nobody stands here twice. -/
  ready : List Nat
  deriving Repr, DecidableEq

namespace Queue

variable {σ : Type} (poll : σ → Live (Polled σ)) (isSettled : σ → Bool) (ends : List σ → Bool)

/-- Polls the ready members until one of them settles and `next` goes on, at most `turns` of them.
The second member that asks ends the round; `asked` tells whether there was a first one. All ends
when `ends` holds of the members. -/
def round (next : Polled (Queue σ) → Live (Polled (Queue σ))) :
    Nat → Bool → Polled (Queue σ) → Live (Polled (Queue σ))
  | 0, _, ⟨q, _⟩ => pure ⟨q, true⟩
  | turns + 1, asked, ⟨⟨members, ready⟩, again⟩ =>
    match ready with
    | [] => pure ⟨⟨members, []⟩, again⟩
    | i :: rest =>
      match members[i]? with
      | none => round next turns asked ⟨⟨members, rest⟩, again⟩
      | some s => do
        let p ← poll s
        let members := members.set i p.state
        if isSettled p.state then
          if ends members then pure ⟨⟨members, rest⟩, again || p.again⟩
          else next ⟨⟨members, rest⟩, again || p.again⟩
        else if p.again then
          if asked then pure ⟨⟨members, rest ++ [i]⟩, true⟩
          else round next turns true ⟨⟨members, rest ++ [i]⟩, true⟩
        else round next turns asked ⟨⟨members, rest⟩, again⟩

/-- Goes on in rounds while members settle, `unsettled` of which are left. -/
def rounds : Nat → Polled (Queue σ) → Live (Polled (Queue σ))
  | 0, p => pure p
  | unsettled + 1, p =>
    round poll isSettled ends (rounds unsettled) (unsettled + 1) false p

/-- Polls the members whose turn it is. -/
def pollInTurn (q : Queue σ) : Live (Polled (Queue σ)) :=
  rounds poll isSettled ends (q.members.countP fun s => !isSettled s) (.quiet q)

/-! ### What a round keeps -/

variable {poll} {isSettled} {ends}

/-- The poll of the member whose turn it is, and the rest of the round from there. -/
theorem round_cons {next : Polled (Queue σ) → Live (Polled (Queue σ))} {turns : Nat} {asked : Bool}
    {members : List σ} {i : Nat} {rest : List Nat} {again : Bool} {s : σ} (h : members[i]? = some s)
    (line : Timeline) :
    round poll isSettled ends next (turns + 1) asked ⟨⟨members, i :: rest⟩, again⟩ line =
      (let p := (poll s line).1
      let members := members.set i p.state
      (if isSettled p.state then
        if ends members then pure ⟨⟨members, rest⟩, again || p.again⟩
        else next ⟨⟨members, rest⟩, again || p.again⟩
      else if p.again then
        if asked then pure ⟨⟨members, rest ++ [i]⟩, true⟩
        else round poll isSettled ends next turns true ⟨⟨members, rest ++ [i]⟩, true⟩
      else round poll isSettled ends next turns asked ⟨⟨members, rest⟩, again⟩ :
        Live (Polled (Queue σ)))) (poll s line).2 := by
  simp only [round, h]
  rfl

/-- A round keeps everybody in place if what follows it does. -/
theorem length_round {next : Polled (Queue σ) → Live (Polled (Queue σ))}
    (h : ∀ p line, (next p line).1.state.members.length = p.state.members.length) (turns : Nat)
    (asked : Bool) (p : Polled (Queue σ)) (line : Timeline) :
    (round poll isSettled ends next turns asked p line).1.state.members.length =
      p.state.members.length := by
  induction turns generalizing asked p line with
  | zero => rfl
  | succ turns ih =>
    obtain ⟨⟨members, ready⟩, again⟩ := p
    cases ready with
    | nil => rfl
    | cons i rest =>
      cases hi : members[i]? with
      | none => simp only [round, hi, ih]
      | some s =>
        rw [round_cons hi]
        simp only
        split
        · split
          · exact List.length_set
          · exact (h _ _).trans List.length_set
        · split
          · split
            · exact List.length_set
            · exact (ih _ _ _).trans List.length_set
          · exact (ih _ _ _).trans List.length_set

/-- Rounds keep everybody in place. -/
theorem length_rounds (unsettled : Nat) (p : Polled (Queue σ)) (line : Timeline) :
    (rounds poll isSettled ends unsettled p line).1.state.members.length =
      p.state.members.length := by
  induction unsettled generalizing p line with
  | zero => rfl
  | succ unsettled ih => exact length_round ih _ _ _ _

/-- Polling the members whose turn it is keeps everybody in place. -/
theorem length_pollInTurn (q : Queue σ) (line : Timeline) :
    (pollInTurn poll isSettled ends q line).1.state.members.length = q.members.length :=
  length_rounds _ _ _

end Queue

/-- Polls a group. -/
def Group.poll (poll : Task → Live (Polled Task)) (g : Group) : Live (Polled Group) :=
  match g.ready with
  | none => do
    let p ← pollTogether poll Task.isFailed g.members
    pure ⟨⟨p.state, none⟩, p.again⟩
  | some ready => do
    let p ← Queue.pollInTurn poll Task.isSettled
      (fun members => (Group.verdictInTurn members).isFailed) ⟨g.members, ready⟩
    pure ⟨⟨p.state.members, some p.state.ready⟩, p.again⟩

end HtmlTemplate

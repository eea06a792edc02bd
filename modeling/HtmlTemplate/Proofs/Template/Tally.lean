import HtmlTemplate.Proofs.Template.Layout
import Mathlib.Data.List.Induction

/-!
# Counting tokens

A text is searched for the token letter by letter; `seek` is one step of the search, and what is
still to come of the token is its state. The token has an `h` in front only, so the search never has
to go back: `count` finds every token, and no two of them overlap.

A text that ends within a token is worth one token more than it holds (`worth`). This is what keeps
the accounts simple: whatever the next character is, a text is worth no more with it, unless it is
an `h` (`worth_append`).
-/

namespace HtmlTemplate

namespace Sentinel

variable {s : Sentinel}

/-- One step of the search for the token: the tokens that a character completes, and what is to come
after it. -/
def seek (s : Sentinel) (todo : Text) (c : Char) : Nat × Text :=
  match todo with
  | l :: rest =>
    if c = l then (if rest = [] then (1, s.token) else (0, rest))
    else (0, if c = 'h' then s.token.tail else s.token)
  | [] => (0, s.token)

/-- The tokens that a text completes, and what is to come after it. -/
def tally (s : Sentinel) (todo : Text) : Text → Nat × Text
  | [] => (0, todo)
  | c :: text =>
    ((s.seek todo c).1 + (s.tally (s.seek todo c).2 text).1, (s.tally (s.seek todo c).2 text).2)

/-- How many tokens a text holds. -/
def count (s : Sentinel) (text : Text) : Nat := (s.tally s.token text).1

/-- The tokens of a text, with one that is begun at its end. -/
def worth (s : Sentinel) (text : Text) : Nat :=
  s.count text + if (s.tally s.token text).2 = s.token then 0 else 1

theorem tally_append (todo text more : Text) :
    s.tally todo (text ++ more) = ((s.tally todo text).1 +
      (s.tally (s.tally todo text).2 more).1, (s.tally (s.tally todo text).2 more).2) := by
  induction text generalizing todo with
  | nil => simp [tally]
  | cons c text ih => simp only [List.cons_append, tally, ih, Nat.add_assoc]

/-! ## What is to come -/

/-- An end of the token. -/
def Due (s : Sentinel) (todo : Text) : Prop := todo <:+ s.token ∧ todo ≠ []

theorem due_token (s : Sentinel) : s.Due s.token := ⟨List.suffix_refl _, s.token_ne_nil⟩

theorem due_tail (s : Sentinel) : s.Due s.token.tail := by
  obtain ⟨tail, token, length, _⟩ := s.exists_tail
  refine ⟨List.tail_suffix _, ?_⟩
  rw [token]
  rintro rfl
  cases length

/-- What is to come after a letter is only the whole token if it is complete. -/
theorem Due.cons {l : Char} {rest : Text} (h : s.Due (l :: rest)) :
    isTokenLetter l = true ∧ rest ≠ s.token ∧ (rest ≠ [] → s.Due rest) ∧
      (l = 'h' ↔ l :: rest = s.token) := by
  obtain ⟨⟨done, token⟩, _⟩ := h
  have member : l ∈ s.token := by
    rw [← token]
    simp
  refine ⟨isTokenLetter_of_mem member, ?_, ?_, ?_⟩
  · intro same
    have length := congrArg List.length token
    rw [← same] at length
    simp at length
    omega
  · exact fun some => ⟨⟨done ++ [l], by simp [← token]⟩, some⟩
  · obtain ⟨tail, begins, _, letters⟩ := s.exists_tail
    cases done with
    | nil =>
      rw [List.nil_append] at token
      rw [begins] at token
      exact ⟨fun _ => by rw [begins, token], fun _ => (List.cons.inj token).1⟩
    | cons first done =>
      constructor
      · intro same
        rw [begins] at token
        have inside : l ∈ tail := by
          rw [← (List.cons.inj token).2]
          simp
        exact absurd same (letters l inside).2
      · intro same
        have length := congrArg List.length token
        rw [← same] at length
        simp at length
        omega

theorem Due.seek {todo : Text} (h : s.Due todo) (c : Char) : s.Due (s.seek todo c).2 := by
  cases todo with
  | nil => exact absurd rfl h.2
  | cons l rest =>
    rw [Sentinel.seek]
    split
    · split
      · exact s.due_token
      · rename_i some
        exact h.cons.2.2.1 some
    · show s.Due (if c = 'h' then s.token.tail else s.token)
      split
      · exact s.due_tail
      · exact s.due_token

theorem Due.tally {todo : Text} (h : s.Due todo) (text : Text) : s.Due (s.tally todo text).2 := by
  induction text generalizing todo with
  | nil => exact h
  | cons c text ih => exact ih (h.seek c)

/-- An `h` begins a token, wherever it is. -/
theorem Due.seek_h {todo : Text} (h : s.Due todo) : s.seek todo 'h' = (0, s.token.tail) := by
  cases todo with
  | nil => exact absurd rfl h.2
  | cons l rest =>
    rw [Sentinel.seek]
    split
    · rename_i same
      have whole := h.cons.2.2.2.mp same.symm
      rw [← whole, List.tail_cons, if_neg]
      rintro rfl
      have length := s.length_token
      rw [← whole] at length
      cases length
    · simp

/-- A character that is no letter of tokens is no part of one. -/
theorem Due.seek_other {todo : Text} (h : s.Due todo) {c : Char} (other : isTokenLetter c = false) :
    s.seek todo c = (0, s.token) := by
  cases todo with
  | nil => exact absurd rfl h.2
  | cons l rest =>
    rw [Sentinel.seek, if_neg, if_neg]
    · rintro rfl
      cases other
    · rintro rfl
      rw [h.cons.1] at other
      cases other

/-! ## Two searches at once -/

/-- One search has found no more than another, and is where the other is or at the beginning. -/
structure Behind (s : Sentinel) (here there : Nat × Text) : Prop where
  found : here.1 ≤ there.1
  todo : here.2 = there.2 ∨ here.2 = s.token

theorem Behind.refl (here : Nat × Text) : s.Behind here here := ⟨Nat.le_refl _, .inl rfl⟩

/-- The search goes on with the next character. -/
def further (s : Sentinel) (here : Nat × Text) (text : Text) : Nat × Text :=
  (here.1 + (s.tally here.2 text).1, (s.tally here.2 text).2)

theorem further_append (here : Nat × Text) (text more : Text) :
    s.further here (text ++ more) = s.further (s.further here text) more := by
  simp only [further, tally_append, Nat.add_assoc]

theorem tally_further (text more : Text) :
    s.tally s.token (text ++ more) = s.further (s.tally s.token text) more := tally_append _ _ _

/-- Only an `h` begins a token. -/
theorem seek_token {c : Char} (other : c ≠ 'h') : s.seek s.token c = (0, s.token) := by
  obtain ⟨tail, token, _⟩ := s.exists_tail
  have first : s.seek ('h' :: tail) c = (0, s.token) := by rw [seek, if_neg other, if_neg other]
  rw [← token] at first
  exact first

theorem Behind.step {here there : Nat × Text} (h : s.Behind here there) (due : s.Due there.2)
    (c : Char) : s.Behind (here.1 + (s.seek here.2 c).1, (s.seek here.2 c).2)
      (there.1 + (s.seek there.2 c).1, (s.seek there.2 c).2) := by
  rcases h.todo with same | start
  · rw [same]
    exact ⟨Nat.add_le_add_right h.found _, .inl rfl⟩
  · rw [start]
    by_cases first : c = 'h'
    · subst first
      rw [due.seek_h, s.due_token.seek_h]
      exact ⟨h.found, .inl rfl⟩
    · rw [seek_token first]
      exact ⟨Nat.le_add_right_of_le h.found, .inr rfl⟩

theorem Behind.further {here there : Nat × Text} (h : s.Behind here there) (due : s.Due there.2)
    (text : Text) : s.Behind (s.further here text) (s.further there text) := by
  induction text generalizing here there with
  | nil => exact h
  | cons c text ih =>
    have later := ih (h.step due c) (due.seek c)
    simp only [Sentinel.further, tally, ← Nat.add_assoc] at later ⊢
    exact later

/-- Whatever has been begun, at most one more token is found than from the beginning. -/
theorem tally_le {todo : Text} (due : s.Due todo) (text : Text) :
    (s.tally todo text).1 ≤ s.count text + if todo = s.token then 0 else 1 := by
  unfold count
  split
  · rename_i same
    rw [same]
    exact Nat.le_refl _
  · induction text generalizing todo with
    | nil => exact Nat.zero_le _
    | cons c text ih =>
      by_cases first : c = 'h'
      · subst first
        rw [tally, tally, due.seek_h, s.due_token.seek_h]
        exact Nat.le_add_right _ _
      · rw [tally, tally, seek_token first, Nat.zero_add]
        rename_i begun
        cases todo with
        | nil => exact absurd rfl due.2
        | cons l rest =>
          rw [seek]
          split
          · split
            · simp only
              omega
            · rename_i some
              have later := ih (due.cons.2.2.1 some) due.cons.2.1
              simp only
              omega
          · simp only
            omega

/-! ## Counting -/

theorem count_nil (s : Sentinel) : s.count [] = 0 := rfl

theorem worth_nil (s : Sentinel) : s.worth [] = 0 := by simp [worth, count, tally]

theorem count_append (text more : Text) :
    s.count (text ++ more) = s.count text + (s.tally (s.tally s.token text).2 more).1 := by
  rw [count, tally_append]
  rfl

theorem count_le_worth (s : Sentinel) (text : Text) : s.count text ≤ s.worth text := by
  unfold worth
  omega

theorem worth_le (s : Sentinel) (text : Text) : s.worth text ≤ s.count text + 1 := by
  unfold worth
  split <;> omega

/-- The parts of a text hold no more tokens than the whole. -/
theorem count_add_le (text more : Text) : s.count text + s.count more ≤ s.count (text ++ more) := by
  have behind : s.Behind (0, s.token) (0, (s.tally s.token text).2) := ⟨Nat.le_refl _, .inr rfl⟩
  have found := (behind.further (s.due_token.tally text) more).found
  simp only [further, Nat.zero_add] at found
  rw [count_append]
  exact Nat.add_le_add_left found _

theorem count_le_append (text more : Text) : s.count text ≤ s.count (text ++ more) := by
  have parts := s.count_add_le text more
  omega

/-- The whole holds no more tokens than its parts, and what is begun at the end of the first. -/
theorem count_append_le (text more : Text) :
    s.count (text ++ more) ≤ s.worth text + s.count more := by
  have later := tally_le (s.due_token.tally text) more
  rw [count_append, worth]
  omega

/-- What is worth something at the end is worth it in the whole. -/
theorem worth_le_append (text more : Text) : s.worth more ≤ s.worth (text ++ more) := by
  have behind : s.Behind (0, s.token) (s.count text, (s.tally s.token text).2) :=
    ⟨Nat.zero_le _, .inr rfl⟩
  have both := behind.further (s.due_token.tally text) more
  simp only [further, Nat.zero_add] at both
  have same : s.tally s.token (text ++ more) = (s.count text +
      (s.tally (s.tally s.token text).2 more).1, (s.tally (s.tally s.token text).2 more).2) :=
    tally_append _ _ _
  rw [worth, worth, count, count, same]
  have found := both.found
  rcases both.todo with todo | todo
  · simp only at todo found ⊢
    rw [todo]
    omega
  · simp only at todo found ⊢
    rw [todo, if_pos rfl]
    omega

/-- Only an `h` makes a text worth more. -/
theorem worth_append {c : Char} (other : c ≠ 'h') (text : Text) :
    s.worth (text ++ [c]) ≤ s.worth text := by
  have due := s.due_token.tally text
  have whole : s.tally s.token (text ++ [c]) = _ := tally_append _ _ _
  rw [worth, worth, count, whole, count, tally, tally]
  generalize (s.tally s.token text).2 = todo at due
  cases todo with
  | nil => exact absurd rfl due.2
  | cons l rest =>
    simp only [seek, Nat.add_zero]
    split
    · rename_i same
      have begun : l :: rest ≠ s.token := fun whole => other (same.trans (due.cons.2.2.2.mpr whole))
      rw [if_neg begun]
      split
      · simp
      · split <;> omega
    · simp

theorem worth_h (text : Text) : s.worth (text ++ ['h']) ≤ s.count text + 1 := by
  have bound := s.worth_le (text ++ ['h'])
  have same : s.count (text ++ ['h']) = s.count text := by
    rw [count_append, tally, (s.due_token.tally text).seek_h]
    rfl
  omega

/-- After a character that is no letter of tokens the search begins anew. -/
theorem tally_other (text : Text) {c : Char} (other : isTokenLetter c = false) (rest : Text) :
    s.tally s.token (text ++ c :: rest) =
      (s.count text + s.count rest, (s.tally s.token rest).2) := by
  rw [tally_append, tally, (s.due_token.tally text).seek_other other, Nat.zero_add]
  rfl

theorem count_other (text : Text) {c : Char} (other : isTokenLetter c = false) (rest : Text) :
    s.count (text ++ c :: rest) = s.count text + s.count rest := by
  rw [count, tally_other text other]

theorem worth_other (text : Text) {c : Char} (other : isTokenLetter c = false) (rest : Text) :
    s.worth (text ++ c :: rest) = s.count text + s.worth rest := by
  rw [worth, count_other text other, tally_other text other, worth, Nat.add_assoc]

/-- Where there is no `h` there is no token. -/
theorem tally_eq_zero {text : Text} (none : 'h' ∉ text) : s.tally s.token text = (0, s.token) := by
  induction text with
  | nil => rfl
  | cons c text ih =>
    have other : c ≠ 'h' := fun same => none (same ▸ List.mem_cons_self)
    have later := ih fun member => none (List.mem_cons_of_mem c member)
    rw [tally, seek_token other, later]
    rfl

/-! ## Tokens in a text -/

theorem tally_due {todo : Text} (due : s.Due todo) : s.tally todo todo = (1, s.token) := by
  induction todo with
  | nil => exact absurd rfl due.2
  | cons l rest ih =>
    cases rest with
    | nil => simp [tally, seek]
    | cons next rest =>
      have later := ih (due.cons.2.2.1 (List.cons_ne_nil _ _))
      rw [tally, seek, if_pos rfl, if_neg (List.cons_ne_nil _ _), later]
      rfl

theorem count_token (s : Sentinel) : s.count s.token = 1 := by rw [count, tally_due s.due_token]

/-- The token is found wherever it is. -/
theorem tally_token {todo : Text} (due : s.Due todo) : s.tally todo s.token = (1, s.token) := by
  obtain ⟨tail, token, _⟩ := s.exists_tail
  have later := tally_due s.due_tail
  rw [token, List.tail_cons] at later
  have first := due.seek_h
  rw [token, List.tail_cons] at first
  rw [token, tally, first, later]
  rfl

theorem tally_middle (text rest : Text) : s.tally s.token (text ++ (s.token ++ rest)) =
    (s.count text + (1 + s.count rest), (s.tally s.token rest).2) := by
  rw [tally_append, tally_append, tally_token (s.due_token.tally text)]
  rfl

theorem count_middle (text rest : Text) :
    s.count (text ++ (s.token ++ rest)) = s.count text + (1 + s.count rest) := by
  rw [count, tally_middle]

theorem count_pos_of_infix {text : Text} (h : s.token <:+: text) : 1 ≤ s.count text := by
  obtain ⟨front, back, rfl⟩ := h
  rw [List.append_assoc, count_middle]
  omega

/-- What has been found of the token is what the text ends with. -/
theorem exists_done (s : Sentinel) (text : Text) :
    (∃ done, s.token = done ++ (s.tally s.token text).2 ∧ done <:+ text) ∧
      (s.token <:+: text ∨ s.count text = 0) := by
  induction text using List.reverseRec with
  | nil => exact ⟨⟨[], rfl, List.nil_suffix⟩, .inr rfl⟩
  | append_singleton text c ih =>
    obtain ⟨⟨done, token, suffix⟩, found⟩ := ih
    have due := s.due_token.tally text
    have within : s.token <:+: text → s.token <:+: text ++ [c] := fun inside =>
      inside.trans (List.prefix_append text [c]).isInfix
    rw [count_append, tally_append, tally, tally]
    generalize (s.tally s.token text).2 = todo at due token
    cases todo with
    | nil => exact absurd rfl due.2
    | cons l rest =>
      have longer : done ++ [c] <:+ text ++ [c] := by
        obtain ⟨front, rfl⟩ := suffix
        exact ⟨front, (List.append_assoc _ _ _).symm⟩
      have nothing : ∃ done, s.token = done ++ s.token ∧ done <:+ text ++ [c] :=
        ⟨[], rfl, List.nil_suffix⟩
      simp only [seek, Nat.add_zero]
      split
      · rename_i same
        subst same
        split
        · rename_i last
          subst last
          rw [← token] at longer
          exact ⟨nothing, .inl longer.isInfix⟩
        · refine ⟨⟨done ++ [c], ?_, longer⟩, ?_⟩
          · rw [token, List.append_assoc, List.singleton_append]
          · exact found.imp within id
      · refine ⟨?_, found.imp within id⟩
        show ∃ done, s.token = done ++ (if c = 'h' then s.token.tail else s.token) ∧ _
        split
        · rename_i first
          obtain ⟨tail, begins, _⟩ := s.exists_tail
          refine ⟨['h'], ?_, ?_⟩
          · rw [begins, List.tail_cons, List.singleton_append]
          · rw [first]
            exact List.suffix_append text ['h']
        · exact nothing

/-- A text without the token counts none. -/
theorem count_eq_zero {text : Text} (none : ¬ s.token <:+: text) : s.count text = 0 :=
  (s.exists_done text).2.resolve_left none

theorem not_infix_of_count {text : Text} (h : s.count text = 0) : ¬ s.token <:+: text := by
  intro inside
  have positive := count_pos_of_infix inside
  omega

end Sentinel

end HtmlTemplate

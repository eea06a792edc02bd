import HtmlTemplate.Proofs.Template.Page
import HtmlTemplate.Proofs.Template.Tally

/-!
# Tokens in what is written

Literal text is not written as it was read: blanks are collapsed, characters are escaped and markers
become slots. Whatever text came before, this brings no token about (`Sentinel.Covers`): a character
that is written in another way ends every token that is begun, and so does what is written for it.
-/

namespace HtmlTemplate

namespace Sentinel

variable {s : Sentinel} {u v u' v' todo : Text} {b c : Char} {n m : Nat}

/-! ## The end of all tokens -/

theorem tally_mark (due : s.Due todo) (other : isTokenLetter c = false) (rest : Text) :
    s.tally todo (c :: rest) = s.tally s.token rest := by
  rw [tally, due.seek_other other, Nat.zero_add]

/-- A marker as it is written in the page, between two characters that are no part of it. -/
def written (s : Sentinel) : Text := '<' :: s.token ++ ['>']

theorem tally_token_mark (rest : Text) (other : isTokenLetter c = false) (quiet : 'h' ∉ rest) :
    s.tally s.token (s.token ++ c :: rest) = (1, s.token) := by
  rw [tally_append, tally_due s.due_token, tally_mark s.due_token other, tally_eq_zero quiet]
  rfl

theorem tally_written (due : s.Due todo) : s.tally todo s.written = (1, s.token) := by
  rw [written, List.cons_append, tally_mark due (by decide),
    tally_token_mark [] (by decide) List.not_mem_nil]

theorem tally_commentMarker (due : s.Due todo) {digits : Text}
    (all : ∀ d ∈ digits, Text.isDigit d = true) :
    s.tally todo (s.commentOpening ++ (digits ++ ['-', '-', '>'])) = (1, s.token) := by
  have quiet : 'h' ∉ digits ++ ['-', '-', '>'] := by
    intro member
    rcases List.mem_append.mp member with member | member
    · exact absurd (all 'h' member) (by decide)
    · exact absurd member (by decide)
  have whole : s.commentOpening ++ (digits ++ ['-', '-', '>']) =
      '<' :: '!' :: '-' :: '-' :: (s.token ++ ':' :: (digits ++ ['-', '-', '>'])) := by
    simp [commentOpening]
  rw [whole, tally_mark due (by decide), tally_mark s.due_token (by decide),
    tally_mark s.due_token (by decide), tally_mark s.due_token (by decide),
    tally_token_mark _ (by decide) quiet]

/-! ## Texts for texts -/

/-- Whatever came before, no more tokens are found in the second text than in the first. -/
def Covers (s : Sentinel) (u v : Text) : Prop :=
  ∀ here there : Nat × Text, s.Due there.2 → s.Behind here there →
    s.Behind (s.further here v) (s.further there u)

theorem Covers.refl (u : Text) : s.Covers u u := fun _ _ due behind => behind.further due u

theorem Covers.append (h : s.Covers u v) (h' : s.Covers u' v') : s.Covers (u ++ u') (v ++ v') := by
  intro here there due behind
  rw [further_append, further_append]
  exact h' _ _ (due.tally u) (h here there due behind)

theorem Covers.trans {w : Text} (h : s.Covers u v) (h' : s.Covers v w) : s.Covers u w := by
  intro here there due behind
  have first := h there there due (.refl there)
  have second := h' here there due behind
  refine ⟨Nat.le_trans second.found first.found, ?_⟩
  rcases second.todo with same | start
  · rw [same]
    exact first.todo
  · exact .inr start

theorem Behind.due {here there : Nat × Text} (h : s.Behind here there) (due : s.Due there.2) :
    s.Due here.2 := by
  rcases h.todo with same | same <;> rw [same]
  · exact due
  · exact s.due_token

theorem covers_of_tally (first : ∀ todo, s.Due todo → s.tally todo u = (n, s.token))
    (second : ∀ todo, s.Due todo → s.tally todo v = (m, s.token)) (le : m ≤ n) : s.Covers u v := by
  intro here there due behind
  rw [further, further, first _ due, second _ (behind.due due)]
  exact ⟨Nat.add_le_add behind.found le, .inl rfl⟩

theorem Covers.count_le (h : s.Covers u v) : s.count v ≤ s.count u := by
  have found := (h (0, s.token) (0, s.token) s.due_token ⟨Nat.le_refl _, .inl rfl⟩).found
  simp only [further, Nat.zero_add] at found
  exact found

/-- Instead of a character that is no part of a token, another one and anything without an `h`. -/
theorem covers_mark (other : isTokenLetter c = false) (other' : isTokenLetter b = false)
    {rest : Text} (quiet : 'h' ∉ rest) : s.Covers [c] (b :: rest) := by
  refine covers_of_tally (n := 0) (m := 0) ?_ ?_ (Nat.le_refl _)
  · intro todo due
    rw [tally_mark due other]
    rfl
  · intro todo due
    rw [tally_mark due other', tally_eq_zero quiet]

theorem covers_flatMap {f : Char → Text} (each : ∀ c, s.Covers [c] (f c)) (u : Text) :
    s.Covers u (u.flatMap f) := by
  induction u with
  | nil => exact .refl []
  | cons c u ih => exact (each c).append ih

/-! ## Escaped and collapsed text -/

theorem covers_escape (u : Text) : s.Covers u (Text.escape u) := by
  refine covers_flatMap (fun c => ?_) u
  unfold Text.escapeChar
  split
  · rename_i same
    exact covers_mark (by rw [same]; decide) (by decide) (by decide)
  · split
    · rename_i same
      exact covers_mark (by rw [same]; decide) (by decide) (by decide)
    · split
      · rename_i same
        exact covers_mark (by rw [same]; decide) (by decide) (by decide)
      · split
        · rename_i same
          exact covers_mark (by rw [same]; decide) (by decide) (by decide)
        · split
          · rename_i same
            exact covers_mark (by rw [same]; decide) (by decide) (by decide)
          · exact .refl [c]

theorem covers_escapeText (u : Text) : s.Covers u (Text.escapeText u) := by
  refine covers_flatMap (fun c => ?_) u
  unfold Text.escapeTextChar
  split
  · rename_i same
    exact covers_mark (by rw [same]; decide) (by decide) (by decide)
  · split
    · rename_i same
      exact covers_mark (by rw [same]; decide) (by decide) (by decide)
    · split
      · rename_i same
        exact covers_mark (by rw [same]; decide) (by decide) (by decide)
      · exact .refl [c]

theorem other_of_isBlank (blank : Text.isBlank c = true) : isTokenLetter c = false := by
  simp only [Text.isBlank, Bool.or_eq_true, beq_iff_eq] at blank
  rcases blank with (((rfl | rfl) | rfl) | rfl) | rfl <;> decide

/-- A blank before a blank makes no difference. -/
theorem Covers.blank (h : s.Covers (c :: u) v) (blank : Text.isBlank c = true)
    (before : Text.isBlank b = true) : s.Covers (b :: c :: u) v := by
  intro here there due behind
  have same : s.further there (b :: c :: u) = s.further there (c :: u) := by
    rw [further, further, tally_mark due (other_of_isBlank before),
      tally_mark s.due_token (other_of_isBlank blank), tally_mark due (other_of_isBlank blank)]
  rw [same]
  exact h here there due behind

/-- By induction on the text; in a run of blanks, one of them is still to be accounted for. -/
theorem covers_collapseFrom (u : Text) : s.Covers u (Text.collapseFrom false u) ∧
    ∀ b, Text.isBlank b = true → s.Covers (b :: u) (' ' :: Text.collapseFrom true u) := by
  have space : ∀ {b}, Text.isBlank b = true → s.Covers [b] [' '] := fun blank =>
    covers_mark (other_of_isBlank blank) (by decide) List.not_mem_nil
  induction u with
  | nil => exact ⟨.refl [], fun b blank => space blank⟩
  | cons c u ih =>
    obtain ⟨outside, inRun⟩ := ih
    simp only [Text.collapseFrom]
    by_cases blank : Text.isBlank c = true
    · simp only [blank, if_true]
      exact ⟨inRun c blank, fun b before => (inRun c blank).blank blank before⟩
    · simp only [blank]
      have here : s.Covers (c :: u) (c :: Text.collapseFrom false u) :=
        (Covers.refl [c]).append outside
      exact ⟨here, fun b before => (space before).append here⟩

theorem covers_collapseBlanks (u : Text) : s.Covers u (Text.collapseBlanks u) :=
  (covers_collapseFrom u).1

end Sentinel

/-! ## Texts of a draft -/

namespace Draft

open Sentinel

variable {s : Sentinel} {options : Options} {d d' : Draft} {content : Text}

theorem covers_literalText (options : Options) (d : Draft) (content : Text) :
    s.Covers content (literalText options d content) := by
  unfold literalText
  split
  · exact .refl content
  · split
    · exact (covers_collapseBlanks content).trans (covers_escapeText _)
    · exact covers_escapeText content

/-- What a slot is in a page that shows where the slots are. -/
def marked (s : Sentinel) : Nat → Text := fun _ => s.written

/-- A text that is cut at its comment markers is covered piece by piece. -/
theorem covers_pieces (fuel : Nat) (h : pieces options d (s.splitWithin fuel content) = .ok d') :
    ∃ added kinds, Adds (marked s) d d' added kinds ∧ s.Covers content added := by
  have literal : ∀ {d d' : Draft} {text : Text} {added kinds rest},
      Adds (marked s) (d.write (literalText options d text)) d' added kinds → s.Covers rest added →
      ∃ added kinds, Adds (marked s) d d' added kinds ∧ s.Covers (text ++ rest) added :=
    fun adds covers =>
      ⟨_, _, (adds_write _ _ _).trans adds, (covers_literalText _ _ _).append covers⟩
  induction fuel generalizing d content with
  | zero =>
    cases h
    exact ⟨_, _, adds_write _ d _, covers_literalText options d content⟩
  | succ fuel ih =>
    rw [splitWithin] at h
    split at h
    · cases h
      exact ⟨_, _, adds_write _ d _, covers_literalText options d content⟩
    · rename_i before after cut
      rw [Text.cut?_eq_some cut]
      split at h
      · rename_i slot rest number
        obtain ⟨digits, rfl, all, _⟩ := markerEnd?_eq_some number
        obtain ⟨pushed, found, later⟩ := bind_eq_ok h
        obtain ⟨added, kinds, adds, covers⟩ := ih later
        refine literal ((adds_pushSlot _ found).2.trans adds) ?_
        have marker : s.Covers (s.commentOpening ++ (digits ++ ['-', '-', '>'])) (marked s slot) :=
          covers_of_tally (fun _ due => tally_commentMarker due all)
            (fun _ due => tally_written due) (Nat.le_refl _)
        have whole := marker.append covers
        simp only [List.append_assoc] at whole
        exact whole
      · obtain ⟨added, kinds, adds, covers⟩ := ih h
        rw [← List.append_assoc]
        exact literal adds covers

/-- A text is covered by what is written of it, unless a minifier rewrites it. -/
theorem covers_text (script : ∀ text, options.minifyScript text = .ok text)
    (style : ∀ text, options.minifyStyle text = .ok text) (h : text s options d content = .ok d') :
    ∃ added kinds, Adds (marked s) d d' added kinds ∧ s.Covers content added := by
  unfold text at h
  split at h
  · cases h
    unfold plainText
    split
    · rw [minify, script]
      exact ⟨_, _, adds_write _ d _, .refl content⟩
    · split
      · rw [minify, style]
        exact ⟨_, _, adds_write _ d _, .refl content⟩
      · exact ⟨_, _, adds_write _ d _, covers_literalText options d content⟩
  · exact covers_pieces _ h

end Draft

end HtmlTemplate

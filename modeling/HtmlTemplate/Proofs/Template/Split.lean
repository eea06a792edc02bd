import HtmlTemplate.Proofs.Template.Comments
import HtmlTemplate.Proofs.Text.Bytes

/-!
# Cutting texts at their markers

Texts that are joined by comment markers are had back by cutting at the markers, whatever the texts
begin and end with, if the token is in none of them: every marker begins with a less-than sign,
which the rest of its opening has not, so that no opening begins in a text and ends in a marker
(`Sentinel.cut?_joint`).

The cutting is a loop over positions in bytes. It has ended after at most as many turns as the text
has characters and one more, and it never cuts inside a character (`Sentinel.splitBytes_eq`).
-/

namespace HtmlTemplate

namespace Sentinel

open Text

variable {s : Sentinel} {slot fuel fuel' : Nat} {text before after next literal : Text}

/-! ## One cut -/

theorem length_commentOpening_pos (s : Sentinel) : 0 < s.commentOpening.length := by
  obtain ⟨tail, opening, _⟩ := s.exists_commentOpening
  rw [opening]
  exact Nat.succ_pos _

theorem length_of_cut? (h : cut? s.commentOpening text = some (before, after)) :
    after.length < text.length := by
  have whole := congrArg List.length (cut?_eq_some h)
  have opening := s.length_commentOpening_pos
  rw [List.length_append, List.length_append] at whole
  omega

theorem length_of_markerEnd? (h : markerEnd? after = some (slot, next)) :
    next.length < after.length := by
  obtain ⟨digits, rfl, _⟩ := markerEnd?_eq_some h
  rw [List.length_append, List.length_append, List.length_cons]
  omega

theorem splitWithin_of_none (none : cut? s.commentOpening text = none) (fuel : Nat) :
    s.splitWithin fuel text = [.literal text] := by
  cases fuel with
  | zero => rfl
  | succ fuel => rw [splitWithin, none]

theorem splitWithin_of_marker (cut : cut? s.commentOpening text = some (before, after))
    (found : markerEnd? after = some (slot, next)) (fuel : Nat) :
    s.splitWithin (fuel + 1) text = .literal before :: .slot slot :: s.splitWithin fuel next := by
  simp only [splitWithin, cut, found]

theorem splitWithin_of_mangled (cut : cut? s.commentOpening text = some (before, after))
    (mangled : markerEnd? after = none) (fuel : Nat) :
    s.splitWithin (fuel + 1) text =
      .literal (before ++ s.commentOpening) :: s.splitWithin fuel after := by
  simp only [splitWithin, cut, mangled]

/-- One cut more makes no difference when there are as many as characters. -/
theorem splitWithin_succ (enough : text.length ≤ fuel) :
    s.splitWithin (fuel + 1) text = s.splitWithin fuel text := by
  induction fuel generalizing text with
  | zero =>
    obtain rfl := List.length_eq_zero_iff.mp (Nat.le_zero.mp enough)
    apply splitWithin_of_none
    obtain ⟨tail, opening, _⟩ := s.exists_commentOpening
    rw [opening]
    rfl
  | succ fuel ih =>
    cases cut : cut? s.commentOpening text with
    | none => rw [splitWithin_of_none cut, splitWithin_of_none cut]
    | some parts =>
      obtain ⟨before, after⟩ := parts
      have shorter := length_of_cut? cut
      cases found : markerEnd? after with
      | none =>
        rw [splitWithin_of_mangled cut found, splitWithin_of_mangled cut found, ih (by omega)]
      | some result =>
        obtain ⟨slot, next⟩ := result
        have shortest := length_of_markerEnd? found
        rw [splitWithin_of_marker cut found, splitWithin_of_marker cut found, ih (by omega)]

theorem splitWithin_eq_split (enough : text.length ≤ fuel) :
    s.splitWithin fuel text = s.split text := by
  induction fuel, enough using Nat.le_induction with
  | base => rfl
  | succ fuel enough ih => rw [splitWithin_succ enough, ih]

theorem split_of_marker (cut : cut? s.commentOpening text = some (before, after))
    (found : markerEnd? after = some (slot, next)) :
    s.split text = .literal before :: .slot slot :: s.split next := by
  have shorter := length_of_cut? cut
  have shortest := length_of_markerEnd? found
  rw [← splitWithin_eq_split (Nat.le_succ _), splitWithin_of_marker cut found,
    splitWithin_eq_split (by omega)]

/-! ## Texts that were joined -/

/-- An opening does not begin in a text without the token and end in a marker after it. -/
theorem cut?_joint (free : ¬ s.token <:+: before) (after : Text) :
    cut? s.commentOpening (before ++ (s.commentOpening ++ after)) = some (before, after) := by
  have token : s.token <:+: s.commentOpening := ⟨['<', '!', '-', '-'], [':'], rfl⟩
  apply cut?_append
  rintro part some suffix ⟨rest, same⟩
  have outside : ¬ s.commentOpening <+: part := fun inside =>
    free (token.trans (inside.isInfix.trans suffix.isInfix))
  rcases List.append_eq_append_iff.mp same with ⟨more, longer, _⟩ | ⟨more, shorter, next⟩
  · exact outside ⟨more, longer.symm⟩
  · obtain ⟨tail, opening, other⟩ := s.exists_commentOpening
    obtain ⟨c, part, rfl⟩ := List.exists_cons_of_ne_nil some
    cases more with
    | nil =>
      rw [List.append_nil] at shorter
      exact outside ⟨[], by rw [shorter, List.append_nil]⟩
    | cons d more =>
      -- the marker's own less-than sign would be inside the opening
      rw [opening] at shorter next
      have less : '<' = d := (List.cons.inj next).1
      have inside : tail = part ++ d :: more := (List.cons.inj shorter).2
      exact other d (by rw [inside]; simp) less.symm

/-- Texts joined by comment markers: a first one, and each further one after the marker of a
slot. -/
def joined (s : Sentinel) (first : Text) (rest : List (Nat × Text)) : Text :=
  first ++ rest.flatMap fun (slot, literal) => s.commentMarker slot ++ literal

/-- The pieces that texts and slots are, in turns. -/
def inTurns (first : Text) (rest : List (Nat × Text)) : List Piece :=
  .literal first :: rest.flatMap fun (slot, literal) => [.slot slot, .literal literal]

theorem split_of_joined {first : Text} {rest : List (Nat × Text)} (free : ¬ s.token <:+: first)
    (each : ∀ part ∈ rest, part.1 < wordBound ∧ ¬ s.token <:+: part.2) :
    s.split (s.joined first rest) = inTurns first rest := by
  induction rest generalizing first with
  | nil =>
    rw [joined, List.flatMap_nil, List.append_nil, split_of_absent free]
    rfl
  | cons part rest ih =>
    obtain ⟨slot, literal⟩ := part
    obtain ⟨word, absent⟩ := each _ List.mem_cons_self
    have later := ih absent fun part member => each part (List.mem_cons_of_mem _ member)
    have whole : s.joined first ((slot, literal) :: rest) =
        first ++ (s.commentOpening ++
          (ofNat slot ++ (['-', '-', '>'] ++ s.joined literal rest))) := by
      rw [← commentMarker_append]
      simp [joined]
    rw [whole, split_of_marker (cut?_joint free _) (markerEnd?_ofNat word _), later]
    rfl

/-! ## The loop over positions -/

/-- Whether a byte is a decimal digit. -/
def isDigitByte (b : UInt8) : Bool := 48 ≤ b && b ≤ 57

/-- What a turn of the loop comes to: no marker begins in the rest, or the rest is cut. -/
inductive Turn where
  | last
  | cut (pieces : List Piece) (next : Text)

/-- The turn at the opening of a marker that does not end as one. -/
def mangled? (s : Sentinel) (position : Nat) (rest after : Text) : Option Turn :=
  (slice? 0 (position + (bytes s.commentOpening).length) rest).map fun literal =>
    .cut [.literal literal] after

/-- One turn of the loop, or nothing if a text would be cut in the middle of a character. -/
def turn? (s : Sentinel) (rest : Text) : Option Turn :=
  match indexOf? s.commentOpening rest with
  | none => some .last
  | some position =>
    (sliceFrom? (position + (bytes s.commentOpening).length) rest).bind fun after =>
      let digits := ((bytes after).takeWhile isDigitByte).length
      (slice? 0 digits after).bind fun number =>
        match word? number with
        | none => s.mangled? position rest after
        | some slot =>
          (sliceFrom? digits after).bind fun tail =>
            if startsWith ['-', '-', '>'] tail then
              (slice? 0 position rest).bind fun literal =>
                (sliceFrom? (digits + 3) after).map fun next =>
                  .cut [.literal literal, .slot slot] next
            else s.mangled? position rest after

/-- The loop, for at most so many turns. -/
def splitBytes (s : Sentinel) : Nat → Text → Option (List Piece)
  | 0, _ => none
  | turns + 1, rest => (s.turn? rest).bind fun
    | .last => some [.literal rest]
    | .cut pieces next => (s.splitBytes turns next).map (pieces ++ ·)

theorem tells_isDigitByte : Tells isDigitByte isDigit := by
  have digit : ∀ c, isDigit c = decide (48 ≤ c.toNat ∧ c.toNat ≤ 57) := by
    intro c
    rw [isDigit, Bool.eq_iff_iff]
    simp only [Bool.and_eq_true, decide_eq_true_iff]
    exact Iff.rfl
  have byte : ∀ b, isDigitByte b = decide (48 ≤ b.toNat ∧ b.toNat ≤ 57) := by
    intro b
    rw [isDigitByte, Bool.eq_iff_iff]
    simp only [Bool.and_eq_true, decide_eq_true_iff]
    exact Iff.rfl
  refine ⟨fun c ascii => ?_, fun b large => ?_, fun c other => ?_⟩
  · rw [byte, digit, toNat_toUInt8 ascii]
  · rw [byte, decide_eq_false_iff_not]
    omega
  · have large : 128 ≤ c.toNat := by simpa [isAscii] using other
    rw [digit, decide_eq_false_iff_not]
    omega

theorem turn?_of_none (none : cut? s.commentOpening text = none) : s.turn? text = some .last := by
  rw [turn?, indexOf?, none]
  rfl

theorem mangled?_eq (s : Sentinel) (before after : Text) :
    s.mangled? (bytes before).length (before ++ (s.commentOpening ++ after)) after =
      some (.cut [.literal (before ++ s.commentOpening)] after) := by
  have first := slice?_first (before ++ s.commentOpening) after
  rw [bytes_append, List.length_append, List.append_assoc] at first
  rw [mangled?, first]
  rfl

/-- What is read after the opening of a marker is read between characters. -/
theorem turn?_of_cut? (cut : cut? s.commentOpening text = some (before, after)) :
    s.turn? text = match word? (after.takeWhile isDigit) with
      | none => some (.cut [.literal (before ++ s.commentOpening)] after)
      | some slot =>
        if startsWith ['-', '-', '>'] (after.dropWhile isDigit) then
          (sliceFrom? ((bytes (after.takeWhile isDigit)).length + 3) after).map fun next =>
            .cut [.literal before, .slot slot] next
        else some (.cut [.literal (before ++ s.commentOpening)] after) := by
  obtain rfl := cut?_eq_some cut
  have found : indexOf? s.commentOpening (before ++ (s.commentOpening ++ after)) =
      some (bytes before).length := by
    rw [indexOf?, cut]
    rfl
  have behind := sliceFrom?_append (before ++ s.commentOpening) after
  rw [bytes_append, List.length_append, List.append_assoc] at behind
  have number := slice?_first (after.takeWhile isDigit) (after.dropWhile isDigit)
  have tail := sliceFrom?_append (after.takeWhile isDigit) (after.dropWhile isDigit)
  rw [List.takeWhile_append_dropWhile] at number tail
  rw [turn?, found]
  simp only [behind, Option.bind_some, takeWhile_bytes tells_isDigitByte, number, tail, mangled?_eq,
    slice?_first]

theorem turn?_of_marker (cut : cut? s.commentOpening text = some (before, after))
    (found : markerEnd? after = some (slot, next)) :
    s.turn? text = some (.cut [.literal before, .slot slot] next) := by
  unfold markerEnd? at found
  split at found
  · rename_i number stripped
    cases found
    have tail := strip?_eq_some.mp stripped
    have whole : after.takeWhile isDigit ++ ['-', '-', '>'] ++ next = after := by
      rw [List.append_assoc, ← tail, List.takeWhile_append_dropWhile]
    have behind := sliceFrom?_append (after.takeWhile isDigit ++ ['-', '-', '>']) next
    rw [whole, bytes_append, List.length_append] at behind
    have ends : startsWith ['-', '-', '>'] (after.dropWhile isDigit) = true := by
      rw [startsWith, stripped]
      rfl
    rw [turn?_of_cut? cut, number]
    simp only [ends, if_true]
    exact congrArg (Option.map _) behind
  · cases found

theorem turn?_of_mangled (cut : cut? s.commentOpening text = some (before, after))
    (mangled : markerEnd? after = none) :
    s.turn? text = some (.cut [.literal (before ++ s.commentOpening)] after) := by
  rw [turn?_of_cut? cut]
  cases number : word? (after.takeWhile isDigit) with
  | none => rfl
  | some slot =>
    have none : strip? ['-', '-', '>'] (after.dropWhile isDigit) = none := by
      cases stripped : strip? ['-', '-', '>'] (after.dropWhile isDigit) with
      | none => rfl
      | some next => simp [markerEnd?, number, stripped] at mangled
    simp [startsWith, none]

/-- The loop ends before it has taken more turns than there are characters, never having cut inside
one. -/
theorem splitBytes_eq {turns : Nat} (enough : text.length < turns) :
    s.splitBytes turns text = some (s.split text) := by
  rw [← splitWithin_eq_split (Nat.le_of_lt enough)]
  induction turns generalizing text with
  | zero => exact absurd enough (Nat.not_lt_zero _)
  | succ turns ih =>
    cases cut : cut? s.commentOpening text with
    | none =>
      rw [splitBytes, turn?_of_none cut, splitWithin_of_none cut]
      rfl
    | some parts =>
      obtain ⟨before, after⟩ := parts
      have shorter := length_of_cut? cut
      cases found : markerEnd? after with
      | none =>
        rw [splitBytes, turn?_of_mangled cut found, splitWithin_of_mangled cut found]
        simp only [Option.bind_some]
        rw [ih (by omega)]
        rfl
      | some result =>
        obtain ⟨slot, next⟩ := result
        have shortest := length_of_markerEnd? found
        rw [splitBytes, turn?_of_marker cut found, splitWithin_of_marker cut found]
        simp only [Option.bind_some]
        rw [ih (by omega)]
        rfl

/-! ## Main result -/

/-- Cutting undoes joining. Texts without the token, whatever they begin and end with, are had back
with the slots between them, each as it was written; and for every text at all the loop over
positions ends, after at most one turn more than the text has characters, without ever having cut
inside a character. -/
theorem split_joined {first : Text} {rest : List (Nat × Text)} (free : ¬ s.token <:+: first)
    (each : ∀ part ∈ rest, part.1 < wordBound ∧ ¬ s.token <:+: part.2) (text : Text) :
    s.split (s.joined first rest) = inTurns first rest ∧
      s.splitBytes (text.length + 1) text = some (s.split text) :=
  ⟨split_of_joined free each, splitBytes_eq (Nat.lt_succ_self _)⟩

/-- Texts that begin and end with parts of markers, and a text with an opening that is mangled. -/
theorem split_joined_ragged :
    let s := Template.simplest
    let mangled := 'é' :: s.commentOpening ++ "5é-->".toList
    s.split (s.joined "<!--".toList
        [(3, "7-->é<!--hw".toList), (18446744073709551615, "-->".toList)]) =
      [.literal "<!--".toList, .slot 3, .literal "7-->é<!--hw".toList, .slot 18446744073709551615,
        .literal "-->".toList] ∧
    s.splitBytes (mangled.length + 1) mangled =
      some [.literal ('é' :: s.commentOpening), .literal "5é-->".toList] := by
  intro s mangled
  have free : ¬ s.token <:+: "<!--".toList := by decide
  have each : ∀ part ∈ [(3, "7-->é<!--hw".toList), (18446744073709551615, "-->".toList)],
      part.1 < wordBound ∧ ¬ s.token <:+: part.2 := by decide
  obtain ⟨whole, ends⟩ := split_joined free each mangled
  have pieces : s.split mangled =
      [.literal ('é' :: s.commentOpening), .literal "5é-->".toList] := by
    decide
  exact ⟨whole, by rw [ends, pieces]⟩

end Sentinel

end HtmlTemplate

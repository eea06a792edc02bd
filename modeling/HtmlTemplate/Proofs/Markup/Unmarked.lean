import HtmlTemplate.Output.Slot
import HtmlTemplate.Proofs.Template.Fits

/-!
# Taking markers out of a page

The markers around content are comments with data of their own (`Slot.markerData`). Where the
tokenizer stands in ordinary text it reads a marker as this comment and is in ordinary text again
(`State.reads_pageMarker`), so that a page with the marker put in has one comment more
(`Token.unmarked_read`). Told as events, taking comments out leaves texts beside each other that
were one, and `Event.joinTexts` makes them one again.
-/

namespace HtmlTemplate

/-! ## Markers -/

namespace Slot

/-- The data of the marker with a number. -/
def markerData (n : Nat) : Text := '\x01' :: ':' :: base36 n

theorem markerText_eq (n : Nat) :
    markerText n = ['<', '!', '-', '-'] ++ (markerData n ++ ['-', '-', '>']) := by
  simp [markerText, markerData]

/-- The digits of a number are digits and small letters. -/
theorem plain_of_mem_base36 {n : Nat} {c : Char} (h : c ∈ base36 n) :
    c ≠ '-' ∧ c ≠ '\r' ∧ c ≠ State.null := by
  have digit : ∀ d < 36, Char.ofNat (if d < 10 then 48 + d else 87 + d) ≠ '-' ∧
      Char.ofNat (if d < 10 then 48 + d else 87 + d) ≠ '\r' ∧
      Char.ofNat (if d < 10 then 48 + d else 87 + d) ≠ State.null := by decide
  have all : ∀ fuel n digits, (∀ c ∈ digits, c ≠ '-' ∧ c ≠ '\r' ∧ c ≠ State.null) →
      ∀ c ∈ base36Digits fuel n digits, c ≠ '-' ∧ c ≠ '\r' ∧ c ≠ State.null := by
    intro fuel
    induction fuel with
    | zero => exact fun n digits known => known
    | succ fuel ih =>
      intro n digits known
      have more : ∀ c ∈ Char.ofNat (if n % 36 < 10 then 48 + n % 36 else 87 + n % 36) :: digits,
          c ≠ '-' ∧ c ≠ '\r' ∧ c ≠ State.null := by
        intro c member
        rcases List.mem_cons.mp member with rfl | member
        · exact digit (n % 36) (Nat.mod_lt n (by decide))
        · exact known c member
      rw [base36Digits]
      split
      · exact more
      · exact ih _ _ more
  exact all _ _ _ (fun _ none => absurd none List.not_mem_nil) c h

theorem return_not_mem_markerText (n : Nat) : ∀ c ∈ markerText n, c ≠ '\r' := by
  rintro c member rfl
  rw [markerText_eq] at member
  simp only [markerData, List.mem_append, List.mem_cons, List.not_mem_nil, or_false] at member
  rcases member with opening | (first | second | digits) | ending
  · exact absurd opening (by decide)
  · cases first
  · cases second
  · exact (plain_of_mem_base36 digits).2.1 rfl
  · exact absurd ending (by decide)

end Slot

namespace State

/-- Text that ends no comment is kept as its data. -/
theorem reads_commentText {u : Text} (plain : ∀ c ∈ u, c ≠ '-' ∧ c ≠ null) (data : Text) :
    Reads (.comment .body data) u [] (.comment .body (data ++ u)) := by
  induction u generalizing data with
  | nil =>
    rw [List.append_nil]
    exact ⟨rfl, rfl⟩
  | cons c u ih =>
    obtain ⟨dash, nonnull⟩ := plain c List.mem_cons_self
    have later := ih (fun d member => plain d (List.mem_cons_of_mem c member)) (data ++ [c])
    rw [List.append_assoc] at later
    refine .silent ?_ later
    show stepCommentBody data c = _
    rw [stepCommentBody, if_neg dash, kept_of_ne nonnull]

/-- In ordinary text a marker is read as a comment. -/
theorem reads_pageMarker (n : Nat) :
    Reads .data (Slot.markerText n) [.comment (Slot.markerData n)] .data := by
  have opening : Reads .data ['<', '!', '-', '-'] [] (.comment .start []) := ⟨rfl, rfl⟩
  have begun : Reads (.comment .start []) ['\x01', ':'] [] (.comment .body ['\x01', ':']) :=
    ⟨rfl, rfl⟩
  have body := reads_commentText (u := Slot.base36 n)
    (fun c member => ⟨(Slot.plain_of_mem_base36 member).1, (Slot.plain_of_mem_base36 member).2.2⟩)
    ['\x01', ':']
  have ending : Reads (.comment .body (Slot.markerData n)) ['-', '-', '>']
      [.comment (Slot.markerData n)] .data := ⟨rfl, rfl⟩
  rw [Slot.markerText_eq]
  exact opening.append ((begun.append body).append ending)

/-- Escaped text leaves ordinary text as it is. -/
theorem reads_data_escape (u : Text) :
    Reads .data (Text.escape u) (Token.characters u) .data := by
  refine Reads.flatMap fun c _ => ?_
  rcases Text.escapeChar_cases c with ⟨same, ampersand, less, _⟩ | rfl | rfl | rfl | rfl | rfl
  · have step : data.step c = (data, [.character c]) := by
      simp [State.step, stepData, ampersand, less]
    rw [same]
    exact .cons ⟨rfl, rfl⟩ step
  all_goals exact ⟨rfl, rfl⟩

end State

/-! ## Line ends -/

/-- Whether a line end goes across the border of two texts. -/
def LineAcross (before after : Text) : Prop :=
  before.getLast? = some '\r' ∧ after.head? = some '\n'

instance (before after : Text) : Decidable (LineAcross before after) :=
  inferInstanceAs (Decidable (_ ∧ _))

/-- Texts that share no line end are read line by line. -/
theorem normalizeNewlines_append_of_not_across {before after : Text}
    (h : ¬LineAcross before after) :
    normalizeNewlines (before ++ after) = normalizeNewlines before ++ normalizeNewlines after := by
  cases after with
  | nil =>
    rw [List.append_nil]
    exact (List.append_nil _).symm
  | cons c after =>
    by_cases line : c = '\n'
    · subst line
      have last : before.getLast? ≠ some '\r' := fun last => h ⟨last, rfl⟩
      clear h
      induction before using normalizeNewlines.induct with
      | case1 before ih =>
        have later : before.getLast? ≠ some '\r' := by
          cases before with
          | nil => simp
          | cons d before => simpa using last
        rw [List.cons_append, List.cons_append, normalizeNewlines, normalizeNewlines, ih later]
        rfl
      | case2 before none ih =>
        cases before with
        | nil => exact absurd rfl last
        | cons d before =>
          have other : d ≠ '\n' := fun same => none before (by rw [same])
          rw [List.cons_append, normalizeNewlines_return none, normalizeNewlines_return,
            ih (by simpa using last)]
          · rfl
          · intro text same
            exact other (List.cons.inj same).1
      | case3 d before _ notReturn ih =>
        have later : before.getLast? ≠ some '\r' := by
          cases before with
          | nil => simp
          | cons e before => simpa using last
        rw [List.cons_append, normalizeNewlines_cons notReturn, normalizeNewlines_cons notReturn,
          ih later]
        rfl
      | case4 => rfl
    · exact normalizeNewlines_append before line after

/-! ## Tokens without markers -/

/-- Some markers are taken out of tokens; their number is told. -/
inductive Token.Unmarked : List Token → List Token → Nat → Prop where
  | nil : Unmarked [] [] 0
  | keep {tokens kept : List Token} {count : Nat} (token : Token) :
    Unmarked tokens kept count → Unmarked (token :: tokens) (token :: kept) count
  | drop {tokens kept : List Token} {count : Nat} (n : Nat) :
    Unmarked tokens kept count →
      Unmarked (.comment (Slot.markerData n) :: tokens) kept (count + 1)

namespace Token

variable {tokens kept others : List Token} {count more : Nat}

theorem Unmarked.refl (tokens : List Token) : Unmarked tokens tokens 0 := by
  induction tokens with
  | nil => exact .nil
  | cons token tokens ih => exact .keep token ih

theorem Unmarked.append_left (front : List Token) (h : Unmarked tokens kept count) :
    Unmarked (front ++ tokens) (front ++ kept) count := by
  induction front with
  | nil => exact h
  | cons token front ih => exact .keep token ih

theorem Unmarked.trans (h : Unmarked tokens kept count) (h' : Unmarked kept others more) :
    Unmarked tokens others (count + more) := by
  induction h generalizing others more with
  | nil =>
    rw [Nat.zero_add]
    exact h'
  | keep token _ ih =>
    cases h' with
    | keep _ later => exact .keep token (ih later)
    | drop n later => exact .drop n (ih later)
  | drop n _ ih =>
    rw [Nat.add_right_comm]
    exact .drop n (ih h')

/-- A marker that is put in where the tokenizer stands in ordinary text, and where no line end goes
across, is one comment more. -/
theorem unmarked_read {front rest : Text}
    (place : State.data.after (normalizeNewlines front) = .data) (whole : ¬LineAcross front rest)
    (n : Nat) :
    Unmarked (Token.read (front ++ (Slot.markerText n ++ rest)))
      (Token.read (front ++ rest)) 1 := by
  have marked : normalizeNewlines (front ++ (Slot.markerText n ++ rest)) =
      normalizeNewlines front ++ (Slot.markerText n ++ normalizeNewlines rest) := by
    rw [normalizeNewlines_append_of_not_across (fun across => by cases across.2),
      normalizeNewlines_inert (Slot.return_not_mem_markerText n)]
  rw [Token.read, Token.read, marked, normalizeNewlines_append_of_not_across whole,
    State.run_append _ (normalizeNewlines front),
    State.run_append _ (normalizeNewlines front), place, (State.reads_pageMarker n).run]
  exact .append_left _ (.drop n (.refl _))

end Token

/-! ## Events without markers -/

namespace Event

/-- Some markers are taken out of events; their number is told. -/
inductive Unmarked : List Event → List Event → Nat → Prop where
  | nil : Unmarked [] [] 0
  | keep {events kept : List Event} {count : Nat} (event : Event) :
    Unmarked events kept count → Unmarked (event :: events) (event :: kept) count
  | drop {events kept : List Event} {count : Nat} (n : Nat) :
    Unmarked events kept count →
      Unmarked (comment (Slot.markerData n) :: events) kept (count + 1)

/-- A text joins the text that follows it. -/
def joinText (s : Text) : List Event → List Event
  | text t :: events => text (s ++ t) :: events
  | events => text s :: events

/-- Texts that are beside each other as one text. -/
def joinTexts : List Event → List Event
  | [] => []
  | text s :: rest => joinText s (joinTexts rest)
  | event :: rest => event :: joinTexts rest

variable {events kept : List Event} {count : Nat}

theorem Unmarked.append_left (front : List Event) (h : Unmarked events kept count) :
    Unmarked (front ++ events) (front ++ kept) count := by
  induction front with
  | nil => exact h
  | cons event front ih => exact .keep event ih

theorem Unmarked.append_right (h : Unmarked events kept count) (rest : List Event) :
    Unmarked (events ++ rest) (kept ++ rest) count := by
  induction h with
  | nil =>
    induction rest with
    | nil => exact .nil
    | cons event rest ih => exact .keep event ih
  | keep event _ ih => exact .keep event ih
  | drop n _ ih => exact .drop n ih

theorem joinTexts_cons {event : Event} (other : ∀ s, event ≠ text s) (rest : List Event) :
    joinTexts (event :: rest) = event :: joinTexts rest := by
  cases event with
  | text s => exact absurd rfl (other s)
  | _ => rfl

theorem joinTexts_text (c : Char) (rest : List Event) :
    joinTexts (text [c] :: rest) = joinCharacter c (joinTexts rest) := by
  rw [joinTexts]
  cases joinTexts rest with
  | nil => rfl
  | cons event events => cases event <;> rfl

theorem joinTexts_text_cons (c : Char) (s : Text) (rest : List Event) :
    joinTexts (text (c :: s) :: rest) = joinCharacter c (joinTexts (text s :: rest)) := by
  rw [joinTexts, joinTexts]
  cases joinTexts rest with
  | nil => rfl
  | cons event events => cases event <;> rfl

/-- The events of a mark join no text around it. -/
theorem joinTexts_ofMark {token : Token} (mark : ∀ c, token ≠ .character c) (rest : List Event) :
    joinTexts (ofMark token ++ rest) = ofMark token ++ joinTexts rest := by
  cases token with
  | character c => exact absurd rfl (mark c)
  | startTag name attributes selfClosing =>
    cases selfClosing <;> rfl
  | comment data =>
    simp only [ofMark, ofComment]
    split
    · rfl
    · rfl
    · split <;> rfl
  | _ => rfl

theorem joinTexts_append_end (events : List Event) :
    joinTexts (events ++ [endOfInput]) = joinTexts events ++ [endOfInput] := by
  induction events with
  | nil => rfl
  | cons event events ih =>
    by_cases isText : ∃ s, event = text s
    · obtain ⟨s, rfl⟩ := isText
      rw [List.cons_append, joinTexts, joinTexts, ih]
      cases joinTexts events with
      | nil => rfl
      | cons first others => cases first <;> rfl
    · have other : ∀ s, event ≠ text s := fun s same => isText ⟨s, same⟩
      rw [List.cons_append, joinTexts_cons other, joinTexts_cons other, ih]
      rfl

/-- Without its marker comments, what is told of a page is told of it without the markers. -/
theorem exists_unmarked {tokens others : List Token} (h : Token.Unmarked tokens others count) :
    ∃ kept, Unmarked (ofTokens tokens) kept count ∧ joinTexts kept = ofTokens others := by
  induction h with
  | nil => exact ⟨[], .nil, rfl⟩
  | @keep tokens others count token _ ih =>
    obtain ⟨kept, unmarked, joined⟩ := ih
    by_cases isCharacter : ∃ c, token = .character c
    · obtain ⟨c, rfl⟩ := isCharacter
      rw [ofTokens_joinCharacter, ofTokens_joinCharacter, ← joined]
      generalize ofTokens tokens = events at unmarked
      -- The character joins a text that is there, or stands for itself before a mark or a marker.
      cases unmarked with
      | nil => exact ⟨[text [c]], .keep _ .nil, rfl⟩
      | @keep events kept _ event later =>
        by_cases isText : ∃ s, event = text s
        · obtain ⟨s, rfl⟩ := isText
          exact ⟨text (c :: s) :: kept, .keep _ later, joinTexts_text_cons c s kept⟩
        · have apart : joinCharacter c (event :: events) = text [c] :: event :: events := by
            cases event with
            | text s => exact absurd ⟨s, rfl⟩ isText
            | _ => rfl
          rw [apart]
          exact ⟨text [c] :: event :: kept, .keep _ (.keep _ later), joinTexts_text c _⟩
      | drop n later => exact ⟨text [c] :: kept, .keep _ (.drop n later), joinTexts_text c kept⟩
    · have mark : ∀ c, token ≠ .character c := fun c same => isCharacter ⟨c, same⟩
      rw [ofTokens_cons mark, ofTokens_cons mark, ← joined, ← joinTexts_ofMark mark]
      exact ⟨_, unmarked.append_left _, rfl⟩
  | drop n _ ih =>
    obtain ⟨kept, unmarked, joined⟩ := ih
    rw [ofTokens_cons fun c same => by cases same]
    exact ⟨kept, .drop n unmarked, joined⟩

/-- The same for all that is read, with the end of the input. -/
theorem exists_unmarked_read {page page' : Text}
    (h : Token.Unmarked (Token.read page') (Token.read page) count) :
    ∃ kept, Unmarked (read page') kept count ∧ joinTexts kept = read page := by
  obtain ⟨kept, unmarked, joined⟩ := exists_unmarked h
  refine ⟨kept ++ [endOfInput], unmarked.append_right _, ?_⟩
  rw [joinTexts_append_end, joined]
  rfl

end Event

end HtmlTemplate

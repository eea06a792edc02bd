import HtmlTemplate.Proofs.Template.Joined

/-!
# Following the segments

Where a skeleton is cut at a slot, the segments before it decide what is put around its marker, and
the segments after it are joined by themselves (`upTo_eq`, `beyond_eq`). Characters that leave the
place as it is can be put in front of the segment after the slot without any other effect
(`joinFrom_prepend`).
-/

namespace HtmlTemplate

/-! ## Looking ahead -/

namespace Text

variable {phrase s : Text}

theorem length_le_of_startsWith (h : startsWith phrase s = true) : phrase.length ≤ s.length := by
  obtain ⟨after, rfl⟩ := startsWith_eq_true.mp h
  rw [List.length_append]
  exact Nat.le_add_right _ _

/-- How a text starts does not depend on what comes from a character on that the phrase does not
have. -/
theorem startsWith_append_cons {c : Char} (other : c ∉ phrase) (s after : Text) :
    startsWith phrase (s ++ c :: after) = startsWith phrase s := by
  rw [Bool.eq_iff_iff, startsWith_eq_true, startsWith_eq_true]
  constructor
  · rintro ⟨rest, same⟩
    rcases List.append_eq_append_iff.mp same with ⟨u, phrase_eq, last⟩ | ⟨u, whole, _⟩
    · cases u with
      | nil =>
        rw [List.append_nil] at phrase_eq
        exact ⟨[], by rw [List.append_nil, phrase_eq]⟩
      | cons d u =>
        obtain ⟨rfl, _⟩ := List.cons.inj last
        exact absurd (by rw [phrase_eq]; simp) other
    · exact ⟨u, whole⟩
  · rintro ⟨rest, rfl⟩
    exact ⟨rest ++ c :: after, List.append_assoc ..⟩

/-- How a text ends does not depend on characters in front that the phrase does not have. -/
theorem endsWith_append {z : Text} (other : ∀ c ∈ z, c ∉ phrase) (s : Text) :
    endsWith phrase (z ++ s) = endsWith phrase s := by
  rw [endsWith, endsWith, List.reverse_append]
  cases last : z.reverse with
  | nil => rw [List.append_nil]
  | cons c rest =>
    have member : c ∈ z := List.mem_reverse.mp (by rw [last]; exact List.mem_cons_self)
    exact startsWith_append_cons (fun inside => other c member (List.mem_reverse.mp inside)) _ rest

end Text

namespace Scan

variable {scan : Scan}

/-- What is skipped has been looked at. -/
theorem skip_step (h : scan.skip = 0) (c : Char) (rest : Text) :
    (scan.step c rest).skip ≤ rest.length := by
  have none : ∀ {other : Scan}, other.skip = 0 → other.skip ≤ rest.length := by
    intro other same
    rw [same]
    exact Nat.zero_le _
  have finish : scan.finishTag.skip = 0 := by
    unfold finishTag
    split <;> exact h
  have tag : (scan.stepTag c).skip = 0 := by
    unfold stepTag
    split
    · exact h
    · split
      · exact finish
      · exact h
  unfold step
  split
  · unfold stepContent
    split
    · exact none h
    · split
      · rename_i found
        exact Text.length_le_of_startsWith found
      · split
        · split
          · exact Nat.le_add_left 1 _
          · exact none h
        · split
          · exact Nat.zero_le _
          · exact none h
  · split
    · rename_i found
      exact Text.length_le_of_startsWith found.2
    · exact none h
  · split
    · rename_i found
      have long := Text.length_le_of_startsWith found.2
      rw [Text.lower, List.length_map, List.length_take, List.length_cons] at long
      show 1 ≤ rest.length
      omega
    · exact none h
  · split
    · exact none h
    · exact none tag
  · exact none tag
  · split
    · exact none h
    · split
      · exact none finish
      · split <;> exact none h
  · split <;> exact none h
  · split
    · exact none finish
    · split <;> exact none h

/-- Nothing is skipped beyond the end of a segment. -/
theorem skip_feed {text : Text} (h : scan.skip ≤ text.length) : (scan.feed text).skip = 0 := by
  induction text generalizing scan with
  | nil => exact Nat.le_zero.mp h
  | cons c text ih =>
    rw [feed]
    split
    · rename_i none
      exact ih (skip_step none c text)
    · refine ih ?_
      rw [List.length_cons] at h
      show scan.skip - 1 ≤ text.length
      omega

/-- Characters that leave the place as it is do not matter. -/
theorem feed_append {z : Text} (skip : scan.skip = 0)
    (idle : ∀ c ∈ z, ∀ rest, scan.step c rest = scan) (text : Text) :
    scan.feed (z ++ text) = scan.feed text := by
  induction z with
  | nil => rfl
  | cons c z ih =>
    rw [List.cons_append, feed, if_pos skip, idle c List.mem_cons_self]
    exact ih fun d member => idle d (List.mem_cons_of_mem c member)

/-- A place that segments lead to: raw text is that of an element with raw text, and quoted values
are enclosed by quotation marks. -/
def Genuine (scan : Scan) : Prop :=
  match scan.place with
  | .rawText element => Vocabulary.isRawText element = true
  | .quoted mark => mark = '"' ∨ mark = '\''
  | _ => True

theorem genuine_finishTag (scan : Scan) : scan.finishTag.Genuine := by
  unfold finishTag
  split
  · rename_i isRaw
    rw [Bool.and_eq_true] at isRaw
    exact isRaw.2
  · exact trivial

theorem genuine_stepTag (scan : Scan) (c : Char) : (scan.stepTag c).Genuine := by
  unfold stepTag
  split
  · exact trivial
  · split
    · exact genuine_finishTag scan
    · exact trivial

theorem Genuine.stepContent (h : scan.Genuine) (c : Char) (rest : Text) :
    (scan.stepContent c rest).Genuine := by
  unfold Scan.stepContent
  split
  · exact h
  · split
    · exact trivial
    · split <;> split <;> first | exact trivial | exact h

theorem Genuine.step (h : scan.Genuine) (c : Char) (rest : Text) : (scan.step c rest).Genuine := by
  unfold Scan.step
  split
  · exact h.stepContent c rest
  · split
    · exact trivial
    · exact h
  · split
    · exact trivial
    · exact h
  · rename_i place
    split
    · rw [Genuine, place]
      exact trivial
    · exact genuine_stepTag scan c
  · exact genuine_stepTag scan c
  · split
    · rename_i quotation
      exact quotation
    · split
      · exact genuine_finishTag scan
      · split
        · exact h
        · exact trivial
  · split
    · exact trivial
    · exact h
  · split
    · exact genuine_finishTag scan
    · split
      · exact trivial
      · exact h

theorem Genuine.feed (h : scan.Genuine) (text : Text) : (scan.feed text).Genuine := by
  induction text generalizing scan with
  | nil => exact h
  | cons c text ih =>
    rw [Scan.feed]
    split
    · exact ih (h.step c text)
    · exact ih h

/-- Nothing is to be skipped at a place that segments lead to. -/
structure Settled (scan : Scan) : Prop where
  skip : scan.skip = 0
  genuine : scan.Genuine

theorem Settled.mark (h : scan.Settled) {c : Char} (place : scan.place = .quoted c) :
    c = '"' ∨ c = '\'' := by
  have genuine := h.genuine
  rw [Genuine, place] at genuine
  exact genuine

theorem Settled.feed (h : scan.Settled) (text : Text) : (scan.feed text).Settled :=
  ⟨skip_feed (by rw [h.skip]; exact Nat.zero_le _), h.genuine.feed text⟩

/-- A place in a tag where the text goes on after a slot. -/
def InTag (scan : Scan) : Prop :=
  scan.place = .tag ∨ scan.place = .unquoted ∨ ∃ mark, scan.place = .quoted mark

/-- A character that ends nothing leaves a place in a tag as it is. -/
theorem Settled.step_of_inTag (h : scan.Settled) (place : scan.InTag) {c : Char}
    (other : c ≠ '=' ∧ c ≠ '>')
    (quiet : scan.place = .tag ∨ c ≠ '"' ∧ c ≠ '\'' ∧ Text.isBlank c = false) (rest : Text) :
    scan.step c rest = scan := by
  have same : ∀ {place}, scan.place = place → { scan with place := place } = scan := by
    rintro _ rfl
    rfl
  rcases place with place | place | ⟨mark, place⟩
  · rw [step, place]
    simp only [stepTag, other, if_false]
    exact same place
  · rw [step, place]
    rcases quiet with tag | ⟨_, _, blank⟩
    · rw [place] at tag
      cases tag
    · simp [other, blank]
  · rw [step, place]
    rcases quiet with tag | ⟨double, single, _⟩
    · rw [place] at tag
      cases tag
    · rcases h.mark place with rfl | rfl
      · simp [double]
      · simp [single]

end Scan

namespace Sentinel

variable {s : Sentinel} {scan : Scan}

/-! ## Around a slot -/

theorem settled_scanAfter (h : scan.Settled) (segment : Text) :
    (s.scanAfter scan segment).Settled := by
  unfold scanAfter hold
  split
  · exact ⟨h.skip, trivial⟩
  · exact h
  · exact h
  · exact ⟨h.skip, trivial⟩
  · exact h
  · split
    · exact ⟨rfl, trivial⟩
    · exact h
  · exact h
  · exact h

/-- If nothing is put in front of a marker, then the text goes on in a tag. -/
theorem inTag_of_edges {segment : Text} (none : (edges scan segment).1 = []) :
    (s.scanAfter scan segment).InTag := by
  unfold edges at none
  unfold scanAfter hold
  cases place : scan.place with
  | content =>
    rw [place] at none
    by_cases opens : opensTag segment = true
    · simp only [opens, if_true]
      exact .inl rfl
    · simp [opens] at none
  | tagName => exact .inl rfl
  | tag => exact .inl place
  | quoted mark => exact .inr (.inr ⟨mark, place⟩)
  | unquoted => exact .inr (.inl place)
  | _ =>
    rw [place] at none
    cases none

theorem edges_of_inTag (h : scan.InTag) (segment : Text) : edges scan segment = ([], []) := by
  unfold edges
  rcases h with place | place | ⟨mark, place⟩ <;> rw [place]

/-- If nothing is put in front of a marker, then nothing is put after it either. -/
theorem edges_of_lead {segment : Text} (none : (edges scan segment).1 = []) :
    edges scan segment = ([], []) := by
  rcases edges_cases scan segment with same | same | same
  · exact same
  · rw [same] at none
    cases none
  · rw [same] at none
    cases none

/-- Quotation marks are put around a marker right after an equals sign only. -/
theorem place_of_edges {segment : Text} (quotes : (edges scan segment).1 = ['"']) :
    scan.place = .beforeValue := by
  unfold edges at quotes
  cases place : scan.place with
  | beforeValue => rfl
  | content =>
    rw [place] at quotes
    by_cases opens : opensTag segment = true <;> simp [opens] at quotes
  | _ =>
    rw [place] at quotes
    cases quotes

theorem edges_of_beforeValue (place : scan.place = .beforeValue) (segment : Text) :
    edges scan segment = (['"'], ['"']) := by
  rw [edges, place]

theorem place_scanAfter (s : Sentinel) (place : scan.place = .beforeValue) (segment : Text) :
    (s.scanAfter scan segment).place = .tag := by
  rw [scanAfter, hold, place]

theorem hold_prepend {z : Text} (other : ∀ c ∈ z, c ≠ '<' ∧ c ≠ '/') (s : Sentinel) (scan : Scan)
    (slot : Nat) (segment : Text) : s.hold scan slot (z ++ segment) = s.hold scan slot segment := by
  have ends : ∀ phrase ∈ [['<'], ['<', '/']], Text.endsWith phrase (z ++ segment) =
      Text.endsWith phrase segment := by
    intro phrase member
    refine Text.endsWith_append (fun c inside => ?_) segment
    obtain ⟨less, slash⟩ := other c inside
    simp only [List.mem_cons, List.not_mem_nil, or_false] at member
    rcases member with rfl | rfl <;> simp [less, slash]
  unfold hold opensTag
  rw [ends ['<'] (by simp), ends ['<', '/'] (by simp)]

/-- Characters of which only the place after them matters can be put in front of a segment. -/
theorem joinFrom_append {next : Scan} {z : Text}
    (follows : ∀ text, scan.feed (z ++ text) = next.feed text)
    (other : ∀ c ∈ z, c ≠ '<' ∧ c ≠ '/') (s : Sentinel) (slot : Nat) (segment : Text)
    (rest : List Text) :
    s.joinFrom scan slot ((z ++ segment) :: rest) =
      z ++ s.joinFrom next slot (segment :: rest) := by
  cases rest with
  | nil => rfl
  | cons _ rest =>
    rw [joinFrom, joinFrom, follows, hold_prepend other]
    simp only [List.append_assoc]

/-- Characters that leave the place as it is can be put in front of a segment. -/
theorem joinFrom_prepend {z : Text} (skip : scan.skip = 0)
    (idle : ∀ c ∈ z, ∀ rest, scan.step c rest = scan) (other : ∀ c ∈ z, c ≠ '<' ∧ c ≠ '/')
    (s : Sentinel) (slot : Nat) (segment : Text) (rest : List Text) :
    s.joinFrom scan slot ((z ++ segment) :: rest) = z ++ s.joinFrom scan slot (segment :: rest) :=
  joinFrom_append (Scan.feed_append skip idle) other s slot segment rest

/-! ## Before and after a slot -/

/-- How far the segments have been followed after all of these, each with a slot after it. -/
def scanFrom (s : Sentinel) : Scan → List Text → Scan
  | scan, [] => scan
  | scan, segment :: rest => s.scanFrom (s.scanAfter (scan.feed segment) segment) rest

/-- The scan at the slot after a segment that comes after others. -/
def scanAt (s : Sentinel) (before : List Text) (segment : Text) : Scan :=
  (s.scanFrom Scan.start before).feed segment

theorem settled_scanFrom (h : scan.Settled) (before : List Text) :
    (s.scanFrom scan before).Settled := by
  induction before generalizing scan with
  | nil => exact h
  | cons segment before ih => exact ih (settled_scanAfter (h.feed segment) segment)

theorem settled_start : Scan.start.Settled := ⟨rfl, trivial⟩

theorem settled_scanAt (s : Sentinel) (before : List Text) (segment : Text) :
    (s.scanAt before segment).Settled :=
  (settled_scanFrom settled_start before).feed segment

theorem upToFrom_eq (scan : Scan) (slot : Nat) (before : List Text) (segment : Text)
    (others : List Text) : s.upToFrom scan slot (before ++ segment :: others) before.length =
      s.joinFrom scan slot (before ++ [segment]) ++
        (edges ((s.scanFrom scan before).feed segment) segment).1 := by
  induction before generalizing scan slot with
  | nil => rfl
  | cons first before ih =>
    rw [List.cons_append, List.length_cons, upToFrom, ih, List.cons_append,
      joinFrom_cons s scan slot first (by simp), ← List.append_assoc]
    rfl

/-- The joined text up to a marker is that of the segments so far and what is put before the
marker. -/
theorem upTo_eq (s : Sentinel) (before : List Text) (segment : Text) (others : List Text) :
    s.upTo (before ++ segment :: others) before.length =
      s.join (before ++ [segment]) ++ (edges (s.scanAt before segment) segment).1 :=
  upToFrom_eq Scan.start 0 before segment others

theorem beyondFrom_length (scan : Scan) (slot : Nat) (before : List Text) (segment : Text)
    (others : List Text) : s.beyondFrom scan slot (before ++ segment :: others) before.length =
      (edges ((s.scanFrom scan before).feed segment) segment).2 ++
        s.joinFrom (s.scanAfter ((s.scanFrom scan before).feed segment) segment)
          (slot + before.length + 1) others := by
  induction before generalizing scan slot with
  | nil => rfl
  | cons first before ih =>
    rw [List.cons_append, List.length_cons, beyondFrom, ih, Nat.add_right_comm slot 1]
    rfl

/-- The joined text beyond a marker is what is put after the marker and the join of the segments
left. -/
theorem beyond_eq (s : Sentinel) (before : List Text) (segment : Text) (others : List Text) :
    s.beyond (before ++ segment :: others) before.length =
      (edges (s.scanAt before segment) segment).2 ++
        s.joinFrom (s.scanAfter (s.scanAt before segment) segment) (before.length + 1) others := by
  have whole := beyondFrom_length (s := s) Scan.start 0 before segment others
  rw [Nat.zero_add] at whole
  exact whole

end Sentinel

end HtmlTemplate

import HtmlTemplate.Proofs.Template.Canonical
import HtmlTemplate.Proofs.Template.Receives
import HtmlTemplate.Proofs.Template.Lossless

/-!
# What tokens ask for

The slots of a text are those of the comment markers that begin in it (`Sentinel.slotsOf_cons`), so
more text in front takes none away. What the events of tokens ask for (`Token.pushes`) therefore
goes on with what later tokens ask for, whatever tokens there are before (`Token.pushes_append`).

An event asks for no more slots than it has tokens of the sentinel. Events that ask for as many as
they have are clean, but for their names (`Event.clean_of_weight`).
-/

namespace HtmlTemplate

/-! ## Comment markers in a text -/

namespace Sentinel

variable {s : Sentinel} {slot : Nat} {c : Char} {text before after rest u : Text}

/-- The slot of the comment marker that a text begins with. -/
def leadingSlot? (s : Sentinel) (text : Text) : Option Nat :=
  (Text.strip? s.commentOpening text).bind fun after => (markerEnd? after).map Prod.fst

/-- The slots of the comment markers that begin in a text. -/
def markers (s : Sentinel) : Text → List Nat
  | [] => []
  | c :: text => (s.leadingSlot? (c :: text)).toList ++ s.markers text

theorem leadingSlot?_append (after : Text) :
    s.leadingSlot? (s.commentOpening ++ after) = (markerEnd? after).map Prod.fst := by
  rw [leadingSlot?, Text.strip?_eq_some.mpr rfl]
  rfl

/-- Markers begin with a less-than sign. -/
theorem leadingSlot?_of_ne (other : c ≠ '<') : s.leadingSlot? (c :: text) = none := by
  have none : Text.strip? s.commentOpening (c :: text) = Option.none := if_neg (Ne.symm other)
  rw [leadingSlot?, none]
  rfl

theorem markers_append_of_ne (other : ∀ c ∈ u, c ≠ '<') :
    s.markers (u ++ text) = s.markers text := by
  induction u with
  | nil => rfl
  | cons c u ih =>
    rw [List.cons_append, markers, leadingSlot?_of_ne (other c List.mem_cons_self),
      ih fun d member => other d (List.mem_cons_of_mem c member)]
    rfl

theorem exists_commentOpening (s : Sentinel) :
    ∃ tail, s.commentOpening = '<' :: tail ∧ ∀ c ∈ tail, c ≠ '<' := by
  refine ⟨['!', '-', '-'] ++ s.token ++ [':'], rfl, fun c member => ?_⟩
  rintro rfl
  simp only [List.mem_append, List.mem_cons, List.not_mem_nil, or_false] at member
  rcases member with (member | member) | member
  · exact absurd member (by decide)
  · exact absurd (isTokenLetter_of_mem member) (by decide)
  · exact absurd member (by decide)

theorem markers_commentOpening (after : Text) :
    s.markers (s.commentOpening ++ after) =
      ((markerEnd? after).map Prod.fst).toList ++ s.markers after := by
  obtain ⟨tail, opening, other⟩ := s.exists_commentOpening
  have first := s.leadingSlot?_append after
  rw [opening, List.cons_append] at first ⊢
  rw [markers, first, markers_append_of_ne other]

theorem markers_of_cut?_eq_none (h : Text.cut? s.commentOpening text = none) :
    s.markers text = [] := by
  induction text with
  | nil => rfl
  | cons c text ih =>
    rw [Text.cut?] at h
    split at h
    · cases h
    · rename_i none
      rw [markers, leadingSlot?, none, ih (Option.map_eq_none_iff.mp h)]
      rfl

theorem markers_of_cut? (h : Text.cut? s.commentOpening text = some (before, after)) :
    s.markers text = ((markerEnd? after).map Prod.fst).toList ++ s.markers after := by
  induction text generalizing before with
  | nil =>
    have whole := Text.cut?_eq_some h
    obtain ⟨tail, opening, _⟩ := s.exists_commentOpening
    rw [opening] at whole
    simp at whole
  | cons c text ih =>
    rw [Text.cut?] at h
    split at h
    · rename_i after' found
      cases h
      rw [Text.strip?_eq_some.mp found, markers_commentOpening]
    · rename_i none
      obtain ⟨⟨before, after⟩, found, same⟩ := Option.map_eq_some_iff.mp h
      cases same
      rw [markers, leadingSlot?, none, ih found]
      rfl

/-- Beyond its end no part of a marker is left. -/
theorem markers_of_markerEnd? (h : markerEnd? after = some (slot, rest)) :
    s.markers after = s.markers rest := by
  obtain ⟨digits, rfl, all, _⟩ := markerEnd?_eq_some h
  rw [← List.append_assoc]
  refine markers_append_of_ne fun c member => ?_
  rintro rfl
  rcases List.mem_append.mp member with member | member
  · exact absurd (all '<' member) (by decide)
  · exact absurd member (by decide)

theorem slots_splitWithin (fuel : Nat) (enough : text.length ≤ fuel) :
    (s.splitWithin fuel text).filterMap Piece.slot? = s.markers text := by
  induction fuel generalizing text with
  | zero =>
    rw [List.length_eq_zero_iff.mp (Nat.le_zero.mp enough)]
    rfl
  | succ fuel ih =>
    rw [splitWithin]
    split
    · rename_i none
      rw [markers_of_cut?_eq_none none]
      rfl
    · rename_i before after cut
      have whole := congrArg List.length (Text.cut?_eq_some cut)
      have opening : 1 ≤ s.commentOpening.length := by
        obtain ⟨tail, same, _⟩ := s.exists_commentOpening
        rw [same]
        exact Nat.le_add_left 1 _
      rw [List.length_append, List.length_append] at whole
      rw [markers_of_cut? cut]
      split
      · rename_i slot rest found
        obtain ⟨digits, same, _⟩ := markerEnd?_eq_some found
        have shorter := congrArg List.length same
        rw [List.length_append, List.length_append] at shorter
        have later : (s.splitWithin fuel rest).filterMap Piece.slot? = s.markers rest :=
          ih (by omega)
        simp only [List.filterMap_cons, Piece.slot?, later, found, markers_of_markerEnd? found,
          Option.map_some]
        rfl
      · rename_i none
        have later : (s.splitWithin fuel after).filterMap Piece.slot? = s.markers after :=
          ih (by omega)
        simp only [List.filterMap_cons, Piece.slot?, later, none, Option.map_none]
        rfl

/-- The slots of a text are those of the comment markers that begin in it. -/
theorem slotsOf_eq (s : Sentinel) (text : Text) : s.slotsOf text = s.markers text :=
  slots_splitWithin text.length (Nat.le_refl _)

theorem slotsOf_cons (s : Sentinel) (c : Char) (text : Text) :
    s.slotsOf (c :: text) = (s.leadingSlot? (c :: text)).toList ++ s.slotsOf text := by
  rw [slotsOf_eq, slotsOf_eq, markers]

theorem commentMarker_append (s : Sentinel) (slot : Nat) (text : Text) :
    s.commentMarker slot ++ text =
    s.commentOpening ++ (Text.ofNat slot ++ (['-', '-', '>'] ++ text)) := by
  simp [commentMarker, commentOpening, attributeMarker]

theorem markerEnd?_ofNat (word : slot < Text.wordBound) (text : Text) :
    markerEnd? (Text.ofNat slot ++ (['-', '-', '>'] ++ text)) = some (slot, text) := by
  have digits : ∀ c ∈ Text.ofNat slot, Text.isDigit c = true := fun _ => Text.isDigit_of_mem_ofNat
  have taken : (Text.ofNat slot ++ (['-', '-', '>'] ++ text)).takeWhile Text.isDigit =
      Text.ofNat slot := by
    rw [List.takeWhile_append_of_pos digits]
    exact List.append_nil _
  have dropped : (Text.ofNat slot ++ (['-', '-', '>'] ++ text)).dropWhile Text.isDigit =
      ['-', '-', '>'] ++ text := by
    rw [List.dropWhile_append_of_pos digits]
    rfl
  rw [markerEnd?, taken, dropped, Text.word?_ofNat word, Text.strip?_eq_some.mpr rfl]

theorem leadingSlot?_commentMarker (word : slot < Text.wordBound) (text : Text) :
    s.leadingSlot? (s.commentMarker slot ++ text) = some slot := by
  rw [commentMarker_append, leadingSlot?_append, markerEnd?_ofNat word]
  rfl

/-- A text has no more slots than tokens. -/
theorem length_slotsOf_le (s : Sentinel) (text : Text) :
    (s.slotsOf text).length ≤ s.count text := by
  unfold slotsOf split
  generalize text.length = fuel
  induction fuel generalizing text with
  | zero => exact Nat.zero_le _
  | succ fuel ih =>
    rw [splitWithin]
    split
    · exact Nat.zero_le _
    · rename_i before after cut
      have opening : before ++ (s.commentOpening ++ after) =
          (before ++ ['<', '!', '-', '-']) ++ (s.token ++ ':' :: after) := by
        simp [commentOpening]
      have whole : s.count text =
          s.count (before ++ ['<', '!', '-', '-']) + (1 + s.count (':' :: after)) := by
        rw [Text.cut?_eq_some cut, opening, count_middle]
      rw [s.count_cons (by decide)] at whole
      split
      · rename_i slot rest found
        obtain ⟨digits, same, _⟩ := markerEnd?_eq_some found
        have later := ih rest
        have part := s.count_add_le (digits ++ ['-', '-', '>']) rest
        rw [List.append_assoc, ← same] at part
        simp only [List.filterMap_cons, Piece.slot?, List.length_cons]
        omega
      · have later := ih after
        simp only [List.filterMap_cons, Piece.slot?]
        omega

/-- A comment marker in a text is one of its slots. -/
theorem slotsOf_commentMarker (word : slot < Text.wordBound) (text : Text) :
    s.slotsOf (s.commentMarker slot ++ text) = slot :: s.slotsOf text := by
  have other : ∀ c ∈ ['!', '-', '-'] ++ s.attributeMarker slot ++ ['-', '-', '>'], c ≠ '<' := by
    intro c member
    simp only [List.mem_append] at member
    rcases member with (member | member) | member
    · rintro rfl
      exact absurd member (by decide)
    · exact (inert_of_mem member).ne.2.1
    · rintro rfl
      exact absurd member (by decide)
  have first := s.leadingSlot?_commentMarker word text
  rw [show s.commentMarker slot ++ text =
    '<' :: (['!', '-', '-'] ++ s.attributeMarker slot ++ ['-', '-', '>'] ++ text) by
      simp [commentMarker]] at first ⊢
  rw [slotsOf_eq, markers, first, markers_append_of_ne other, slotsOf_eq]
  rfl

end Sentinel

/-! ## Tokens -/

section Tokens

variable (s : Sentinel) (options : Options)

/-- The slots that the events of tokens ask for, and what they mean. -/
def Token.pushes (tokens : List Token) : List (Nat × SlotKind) :=
  (Event.ofTokens tokens).flatMap (Event.pushes s options)

theorem Event.pushes_joinCharacter (c : Char) (events : List Event) :
    (events.flatMap (pushes s options)).Sublist
      ((joinCharacter c events).flatMap (pushes s options)) := by
  unfold joinCharacter
  split
  · rename_i content events
    rw [List.flatMap_cons, List.flatMap_cons, pushes, pushes, s.slotsOf_cons, List.map_append]
    exact (List.sublist_append_right _ _).append_right _
  · rw [List.flatMap_cons]
    exact List.sublist_append_right _ _

/-- What later tokens ask for is not changed by what comes before. -/
theorem Token.pushes_append (tokens rest : List Token) :
    (pushes s options rest).Sublist (pushes s options (tokens ++ rest)) := by
  induction tokens with
  | nil => exact .refl _
  | cons token tokens ih =>
    refine ih.trans ?_
    rw [pushes, pushes, List.cons_append]
    by_cases character : ∃ c, token = .character c
    · obtain ⟨c, rfl⟩ := character
      rw [Event.ofTokens_joinCharacter]
      exact Event.pushes_joinCharacter s options c _
    · have mark : ∀ c, token ≠ .character c := fun c same => character ⟨c, same⟩
      rw [Event.ofTokens_cons mark, List.flatMap_append]
      exact List.sublist_append_right _ _

theorem Event.ofTokens_text (c : Char) (u : Text) (rest : List Token) : ∃ t events,
    ofTokens (Token.characters (c :: u) ++ rest) = text (c :: u ++ t) :: events ∧
      Token.pushes s options rest =
        (pushes s options (.text t)) ++ events.flatMap (pushes s options) := by
  induction u generalizing c with
  | nil =>
    rw [show Token.characters [c] ++ rest = .character c :: rest from rfl, ofTokens_joinCharacter,
      Token.pushes]
    unfold joinCharacter
    split
    · rename_i t events same
      exact ⟨t, events, rfl, by rw [same]; rfl⟩
    · exact ⟨[], ofTokens rest, rfl, rfl⟩
  | cons d u ih =>
    obtain ⟨t, events, same, asked⟩ := ih d
    refine ⟨t, events, ?_, asked⟩
    rw [show Token.characters (c :: d :: u) ++ rest =
      .character c :: (Token.characters (d :: u) ++ rest) from rfl, ofTokens_joinCharacter, same]
    rfl

variable {s options}

/-- A comment marker that is read as text asks for its slot. -/
theorem Token.pushes_commentMarker {slot : Nat} (word : slot < Text.wordBound) (rest : List Token) :
    pushes s options (characters (s.commentMarker slot) ++ rest) =
      (slot, .content) :: pushes s options rest := by
  obtain ⟨t, events, same, asked⟩ := Event.ofTokens_text s options '<'
    (['!', '-', '-'] ++ s.attributeMarker slot ++ ['-', '-', '>']) rest
  have whole : '<' :: (['!', '-', '-'] ++ s.attributeMarker slot ++ ['-', '-', '>']) =
      s.commentMarker slot := by simp [Sentinel.commentMarker]
  rw [whole] at same
  rw [asked, pushes, same, List.flatMap_cons, Event.pushes, Sentinel.slotsOf_commentMarker word]
  rfl

/-- A marker that is read as a comment asks for its slot. -/
theorem Token.pushes_comment {slot : Nat} (word : slot < Text.wordBound) (rest : List Token) :
    pushes s options (.comment (s.attributeMarker slot) :: rest) =
      (slot, .content) :: pushes s options rest := by
  have plain : Event.ofComment (s.attributeMarker slot) = [.comment (s.attributeMarker slot)] := by
    have none : Event.sectionText? ('h' :: s.markerTail slot) = none := rfl
    rw [s.attributeMarker_eq slot]
    unfold Event.ofComment
    rw [none]
    rfl
  rw [pushes, Event.ofTokens_cons (fun c same => by cases same), Event.ofMark, plain,
    List.flatMap_append, List.flatMap_singleton, Event.pushes,
    Sentinel.slotOf?_attributeMarker word]
  rfl

end Tokens

/-! ### Start tags -/

namespace Draft

theorem sorted_insertSlotted {entry : Nat × Text} {entries : List (Nat × Text)}
    (h : entries.Pairwise fun e f => e.1 ≤ f.1) :
    (insertSlotted entry entries).Pairwise fun e f => e.1 ≤ f.1 := by
  induction entries with
  | nil => exact List.pairwise_singleton _ _
  | cons first rest ih =>
    obtain ⟨all, later⟩ := List.pairwise_cons.mp h
    rw [insertSlotted]
    split
    · rename_i le
      refine List.pairwise_cons.mpr ⟨fun other member => ?_, h⟩
      rcases List.mem_cons.mp member with rfl | member
      · exact le
      · exact Nat.le_trans le (all other member)
    · rename_i lt
      refine List.pairwise_cons.mpr ⟨fun other member => ?_, ih later⟩
      rcases List.mem_cons.mp ((insertSlotted_perm entry rest).mem_iff.mp member) with rfl | member
      · exact Nat.le_of_not_le lt
      · exact all other member

theorem sorted_slotted (s : Sentinel) (attributes : List Attribute) :
    (slotted s attributes).Pairwise fun e f => e.1 ≤ f.1 := by
  induction attributes with
  | nil => exact .nil
  | cons a rest ih =>
    rw [slotted]
    split
    · exact sorted_insertSlotted ih
    · exact ih

theorem mem_slotted_of_slotOf? {s : Sentinel} {attributes : List Attribute} {a : Attribute}
    {slot : Nat} (h : a ∈ attributes) (found : s.slotOf? a.value = some slot) :
    (slot, a.name) ∈ slotted s attributes := by
  induction attributes with
  | nil => cases h
  | cons b rest ih =>
    rw [slotted]
    rcases List.mem_cons.mp h with rfl | member
    · rw [found]
      exact (insertSlotted_perm _ _).mem_iff.mpr List.mem_cons_self
    · split
      · exact (insertSlotted_perm _ _).mem_iff.mpr (List.mem_cons_of_mem _ (ih member))
      · exact ih member

/-- Entries in the order of slots are found in that order. -/
theorem sublist_of_sorted {entries all : List (Nat × Text)}
    (increasing : entries.Pairwise fun e f => e.1 < f.1)
    (sorted : all.Pairwise fun e f => e.1 ≤ f.1) (sub : ∀ entry ∈ entries, entry ∈ all) :
    entries.Sublist all := by
  induction all generalizing entries with
  | nil =>
    cases entries with
    | nil => exact .slnil
    | cons entry _ => cases sub entry List.mem_cons_self
  | cons first all ih =>
    cases entries with
    | nil => exact List.nil_sublist _
    | cons entry entries =>
      obtain ⟨above, later⟩ := List.pairwise_cons.mp increasing
      obtain ⟨below, others⟩ := List.pairwise_cons.mp sorted
      by_cases same : entry = first
      · subst same
        refine (ih later others fun other member => ?_).cons_cons _
        refine (List.mem_cons.mp (sub other (List.mem_cons_of_mem _ member))).resolve_left ?_
        rintro rfl
        exact Nat.lt_irrefl _ (above other member)
      · have here := (List.mem_cons.mp (sub entry List.mem_cons_self)).resolve_left same
        refine (ih increasing others fun other member => ?_).cons _
        rcases List.mem_cons.mp member with rfl | member
        · exact here
        · refine (List.mem_cons.mp (sub other (List.mem_cons_of_mem _ member))).resolve_left ?_
          rintro rfl
          exact absurd (below entry here) (Nat.not_le_of_lt (above other member))

end Draft

/-- A start tag asks for the slots of its attributes. -/
theorem Token.pushes_startTag {s : Sentinel} {options : Options} {name : Text}
    {attributes : List Attribute} {selfClosing : Bool} {held : List (Nat × Text)}
    (increasing : held.Pairwise fun e f => e.1 < f.1)
    (sub : ∀ entry ∈ held, entry.1 < Text.wordBound ∧
      (⟨entry.2, s.attributeMarker entry.1⟩ : Attribute) ∈ attributes) (rest : List Token) :
    ((held.map fun entry => (entry.1, Draft.attributeKind options entry.2)) ++
      pushes s options rest).Sublist
        (pushes s options (.startTag name attributes selfClosing :: rest)) := by
  have all : held.Sublist (Draft.slotted s attributes) := by
    refine Draft.sublist_of_sorted increasing (Draft.sorted_slotted s attributes)
      fun entry member => ?_
    obtain ⟨word, inside⟩ := sub entry member
    exact Draft.mem_slotted_of_slotOf? inside (Sentinel.slotOf?_attributeMarker word)
  rw [pushes, pushes, Event.ofTokens_cons (fun c same => by cases same), Event.ofMark,
    List.cons_append, List.flatMap_cons, Event.pushes]
  refine (all.map _).append ?_
  rw [List.flatMap_append]
  exact List.sublist_append_right _ _

/-! ## Counting -/

namespace Event

variable {s : Sentinel} {options : Options} {event : Event} {events : List Event}

/-- How many tokens of the sentinel an event holds, names aside. -/
def weight (s : Sentinel) : Event → Nat
  | .openTag _ attributes => Ledger.attributesWeight s attributes
  | .text content => s.count content
  | .comment data => s.count data
  | .instruction _ data => s.count data
  | .doctype name => s.count name
  | _ => 0

/-- No token stands in the names that an event tells of. -/
def Named (s : Sentinel) : Event → Prop
  | .openTag name attributes =>
    s.firstSlotIn? name = none ∧ ∀ a ∈ attributes, s.firstSlotIn? a.name = none
  | .closeTag name => s.firstSlotIn? name = none
  | _ => True

theorem sum_weight_le (l : Ledger) (events : List Event) :
    l.total s + (events.map (weight s)).sum ≤ (l.addEvents s events).total s := by
  induction events generalizing l with
  | nil => exact Nat.le_refl _
  | cons event rest ih =>
    have later := ih (l.addEvent s event)
    have first : l.total s + event.weight s ≤ (l.addEvent s event).total s := by
      cases event with
      | text content =>
        have parts := s.count_add_le l.run content
        show l.done + s.count l.run + s.count content ≤ l.done + s.count (l.run ++ content)
        omega
      | closeTag name =>
        show l.total s + 0 ≤ (if Vocabulary.isVoid name then l else l.close s 0).total s
        split
        · exact Nat.le_refl _
        · exact Nat.le_refl _
      | _ => exact Nat.le_refl _
    rw [List.map_cons, List.sum_cons]
    show _ ≤ ((l.addEvent s event).addEvents s rest).total s
    omega

theorem length_slotted_le (s : Sentinel) (attributes : List Attribute) :
    (Draft.slotted s attributes).length ≤ Ledger.attributesWeight s attributes := by
  induction attributes with
  | nil => exact Nat.le_refl 0
  | cons a rest ih =>
    show _ ≤ s.count a.value + Ledger.attributesWeight s rest
    rw [Draft.slotted]
    split
    · rename_i slot found
      have some := Sentinel.count_pos_of_slotOf? found
      rw [(Draft.insertSlotted_perm _ _).length_eq, List.length_cons]
      omega
    · omega

/-- An event asks for no more slots than it has tokens. -/
theorem length_pushes_le (s : Sentinel) (options : Options) (event : Event) :
    (event.pushes s options).length ≤ event.weight s := by
  cases event with
  | openTag name attributes =>
    rw [pushes, List.length_map]
    exact length_slotted_le s attributes
  | text content =>
    rw [pushes, List.length_map]
    exact s.length_slotsOf_le content
  | comment data =>
    rw [pushes, List.length_map, weight]
    cases found : s.slotOf? data with
    | none => exact Nat.zero_le _
    | some slot => exact Sentinel.count_pos_of_slotOf? found
  | _ => exact Nat.zero_le _

/-- Values that hold as many tokens as there are slots hold none beside them. -/
theorem values_of_weight {attributes : List Attribute}
    (h : Ledger.attributesWeight s attributes ≤ (Draft.slotted s attributes).length) :
    ∀ a ∈ attributes, s.slotOf? a.value = none → s.count a.value = 0 := by
  induction attributes with
  | nil => exact fun a member => absurd member List.not_mem_nil
  | cons b rest ih =>
    have fewer := length_slotted_le s rest
    have weight : Ledger.attributesWeight s (b :: rest) =
        s.count b.value + Ledger.attributesWeight s rest := rfl
    rw [weight, Draft.slotted] at h
    intro a member none
    rcases List.mem_cons.mp member with rfl | member
    · rw [none] at h
      simp only at h
      omega
    · refine ih ?_ a member none
      split at h
      · rename_i slot found
        have some := Sentinel.count_pos_of_slotOf? found
        rw [(Draft.insertSlotted_perm _ _).length_eq, List.length_cons] at h
        omega
      · omega

theorem firstSlotIn?_of_count {u : Text} (h : s.count u = 0) : s.firstSlotIn? u = none := by
  rw [Sentinel.firstSlotIn?, Option.map_eq_none_iff]
  cases found : Text.cut? s.token u with
  | none => rfl
  | some parts =>
    have inside : s.token <:+: u := ⟨parts.1, parts.2, by
      rw [List.append_assoc]
      exact (Text.cut?_eq_some found).symm⟩
    exact absurd inside (Sentinel.not_infix_of_count h)

theorem clean_of_weight (named : event.Named s)
    (h : event.weight s ≤ (event.pushes s options).length) : event.Clean s := by
  cases event with
  | openTag name attributes =>
    rw [pushes, List.length_map] at h
    exact ⟨named.1, fun a member => ⟨named.2 a member, fun none =>
      firstSlotIn?_of_count (values_of_weight h a member none)⟩⟩
  | closeTag name => exact named
  | comment data =>
    intro none
    rw [pushes, none] at h
    exact firstSlotIn?_of_count (Nat.le_zero.mp h)
  | _ => trivial

/-- Events that ask for as many slots as they have tokens are clean, but for their names. -/
theorem clean_of_sum (named : ∀ event ∈ events, event.Named s)
    (h : (events.map (weight s)).sum ≤ (events.flatMap (pushes s options)).length) :
    ∀ event ∈ events, event.Clean s := by
  induction events with
  | nil => exact fun event member => absurd member List.not_mem_nil
  | cons first rest ih =>
    have here := first.length_pushes_le s options
    have others : (rest.flatMap (pushes s options)).length ≤ (rest.map (weight s)).sum := by
      rw [List.length_flatMap]
      exact List.sum_le_sum fun event _ => event.length_pushes_le s options
    rw [List.map_cons, List.sum_cons, List.flatMap_cons, List.length_append] at h
    intro event member
    rcases List.mem_cons.mp member with rfl | member
    · have weight : event.weight s ≤ (event.pushes s options).length := by omega
      exact clean_of_weight (named _ List.mem_cons_self) weight
    · exact ih (fun other inside => named other (List.mem_cons_of_mem first inside)) (by omega)
        event member

end Event

/-! ## Templates -/

namespace Template

variable {s : Sentinel} {options : Options} {segments : List Text} {kinds : List SlotKind}

/-- A skeleton without the token compiles if its joined text asks for all its slots in their order,
and no name has a token. -/
theorem compile_of_sublist (absent : ∀ segment ∈ segments, s.Absent (normalizeNewlines segment))
    (some : segments ≠ []) (count : kinds.length = segments.length - 1)
    (named : ∀ event ∈ Event.ofTokens (Token.read (s.join segments)), event.Named s)
    (sub : ((List.range kinds.length).zip kinds).Sublist
      (Token.pushes s options (Token.read (s.join segments)))) :
    ∃ template, (compile s options Event.source segments).result = .ok template ∧
      template.slots = kinds := by
  have length : ((List.range kinds.length).zip kinds).length = kinds.length := by simp
  have fewer : (Token.pushes s options (Token.read (s.join segments))).length ≤
      ((Event.ofTokens (Token.read (s.join segments))).map (Event.weight s)).sum := by
    rw [Token.pushes, List.length_flatMap]
    exact List.sum_le_sum fun event _ => event.length_pushes_le s options
  have events :=
    Event.sum_weight_le (s := s) ⟨0, []⟩ (Event.ofTokens (Token.read (s.join segments)))
  have within :=
    (Ledger.within_ofTokens (s := s) ⟨0, []⟩ (Token.read (s.join segments))).total (s := s)
  have bound := Sentinel.total_join_le absent some
  have zero : (⟨0, []⟩ : Ledger).total s = 0 := rfl
  have all : (List.range kinds.length).zip kinds =
      Token.pushes s options (Token.read (s.join segments)) :=
    sub.eq_of_length_le (by omega)
  have least : ((Event.ofTokens (Token.read (s.join segments))).map (Event.weight s)).sum ≤
      (Token.pushes s options (Token.read (s.join segments))).length := by
    rw [← all]
    omega
  have clean := Event.clean_of_sum named least
  exact compile_of_pushes clean count all.symm

end Template

end HtmlTemplate

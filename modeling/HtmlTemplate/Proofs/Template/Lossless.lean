import HtmlTemplate.Proofs.Template.Absent
import HtmlTemplate.Proofs.Template.Written

/-!
# No slot is lost and no marker leaks

Every token in the page of a draft is one that has been read (`Draft.kept_takeAll`), where a slot
counts as the token that it was read from. Segments without the token give no more tokens than there
are markers. So a skeleton with all of its slots has none left for its chunks, and a skeleton that
has not all of its slots has fewer (`Template.slots_of_compile`).
-/

namespace HtmlTemplate

/-! ## The account of events -/

namespace Ledger

variable {s : Sentinel} {l l' l'' : Ledger} {n m : Nat}

/-- What an event enters in the ledger. -/
def addEvent (s : Sentinel) (l : Ledger) : Event → Ledger
  | .openTag _ attributes => l.close s (attributesWeight s attributes)
  | .closeTag name => if Vocabulary.isVoid name then l else l.close s 0
  | .text content => ⟨l.done, l.run ++ content⟩
  | .comment data => l.close s (s.count data)
  | .instruction _ data => l.close s (s.count data)
  | .doctype name => l.close s (s.count name)
  | _ => l.close s 0

def addEvents (s : Sentinel) (l : Ledger) (events : List Event) : Ledger :=
  events.foldl (addEvent s) l

theorem addEvents_append (l : Ledger) (events others : List Event) :
    l.addEvents s (events ++ others) = (l.addEvents s events).addEvents s others :=
  List.foldl_append

/-- No more tokens are entered, and the same text goes on. -/
structure Within (l l' : Ledger) : Prop where
  done : l.done ≤ l'.done
  run : l.run = l'.run

namespace Within

theorem refl (l : Ledger) : Within l l := ⟨Nat.le_refl _, rfl⟩

theorem trans (h : Within l l') (h' : Within l' l'') : Within l l'' :=
  ⟨Nat.le_trans h.done h'.done, h.run.trans h'.run⟩

theorem total (h : Within l l') : l.total s ≤ l'.total s := by
  rw [Ledger.total, Ledger.total, h.run]
  exact Nat.add_le_add_right h.done _

theorem close (h : Within l l') (le : n ≤ m) : Within (l.close s n) (l'.close s m) :=
  ⟨Nat.add_le_add h.total le, rfl⟩

theorem addEvent (h : Within l l') (event : Event) :
    Within (l.addEvent s event) (l'.addEvent s event) := by
  cases event with
  | closeTag name =>
    rw [Ledger.addEvent, Ledger.addEvent]
    split
    · exact h
    · exact h.close (Nat.le_refl _)
  | text content =>
    refine ⟨h.done, ?_⟩
    rw [Ledger.addEvent, Ledger.addEvent, h.run]
  | _ => exact h.close (Nat.le_refl _)

theorem addEvents (h : Within l l') (events : List Event) :
    Within (l.addEvents s events) (l'.addEvents s events) := by
  induction events generalizing l l' with
  | nil => exact h
  | cons event events ih => exact ih (h.addEvent event)

end Within

theorem addEvents_joinCharacter (l : Ledger) (c : Char) (events : List Event) :
    l.addEvents s (Event.joinCharacter c events) =
      (⟨l.done, l.run ++ [c]⟩ : Ledger).addEvents s events := by
  unfold Event.joinCharacter
  split
  · rename_i content later
    show Ledger.addEvents s ⟨l.done, l.run ++ (c :: content)⟩ later =
      Ledger.addEvents s ⟨l.done, l.run ++ [c] ++ content⟩ later
    rw [List.append_assoc]
    rfl
  · rfl

/-- A character data section tells of a part of the comment that it is. -/
theorem within_ofComment (l : Ledger) (data : Text) :
    Within (l.addEvents s (Event.ofComment data)) (l.close s (s.count data)) := by
  unfold Event.ofComment
  split
  · exact ⟨Nat.add_le_add_left (Nat.zero_le _) _, rfl⟩
  · rename_i c content found
    obtain ⟨inner, stripped, ended⟩ := Option.bind_eq_some_iff.mp found
    have whole : data = Event.sectionOpening ++ ((c :: content) ++ [']', ']']) := by
      rw [Text.strip?_eq_some.mp stripped, Text.stripEnd?_eq_some ended]
    have parts := s.count_add_le Event.sectionOpening ((c :: content) ++ [']', ']'])
    have part := s.count_le_append (c :: content) [']', ']']
    refine ⟨?_, rfl⟩
    show l.total s + 0 + s.count (c :: content) + 0 ≤ l.total s + s.count data
    rw [whole]
    omega
  · split
    · exact .refl _
    · exact .refl _

theorem within_ofMark (l : Ledger) {token : Token} (mark : ∀ c, token ≠ .character c) :
    Within (l.addEvents s (Event.ofMark token)) (l.add s token) := by
  cases token with
  | character c => exact absurd rfl (mark c)
  | startTag name attributes selfClosing =>
    cases selfClosing with
    | false => exact .refl _
    | true =>
      show Within (if Vocabulary.isVoid name = true then _ else _) _
      split
      · exact .refl _
      · exact .refl _
  | comment data => exact within_ofComment l data
  | _ => exact .refl _

/-- Events tell of no more tokens than what was read. -/
theorem within_ofTokens (l : Ledger) (tokens : List Token) :
    Within (l.addEvents s (Event.ofTokens tokens)) (l.addAll s tokens) := by
  induction tokens generalizing l with
  | nil => exact .refl l
  | cons token rest ih =>
    by_cases character : ∃ c, token = .character c
    · obtain ⟨c, rfl⟩ := character
      rw [Event.ofTokens_joinCharacter, addEvents_joinCharacter]
      exact ih _
    · have mark : ∀ c, token ≠ .character c := fun c same => character ⟨c, same⟩
      rw [Event.ofTokens_cons mark, addEvents_append]
      exact ((within_ofMark l mark).addEvents _).trans (ih _)

end Ledger

/-! ## What a start tag writes -/

namespace Sentinel

variable {s : Sentinel} {α : Type} {f : α → Text} {items : List α} {u v : Text} {c : Char}

theorem count_cons (other : isTokenLetter c = false) (rest : Text) :
    s.count (c :: rest) = s.count rest := by
  have whole := s.count_other [] other rest
  rw [List.nil_append, count_nil, Nat.zero_add] at whole
  exact whole

theorem count_written (s : Sentinel) : s.count s.written = 1 := by
  rw [count, tally_written s.due_token]

/-- Texts that begin with a character outside tokens are counted one by one. -/
theorem count_flatMap (begins : ∀ a ∈ items, ∃ c rest, f a = c :: rest ∧ isTokenLetter c = false)
    (u : Text) : s.count (u ++ items.flatMap f) =
      s.count u + (items.map fun a => s.count (f a)).sum := by
  induction items generalizing u with
  | nil => simp
  | cons a items ih =>
    obtain ⟨c, rest, first, other⟩ := begins a List.mem_cons_self
    have later := ih (fun b member => begins b (List.mem_cons_of_mem a member)) (u ++ f a)
    rw [List.append_assoc] at later
    rw [List.flatMap_cons, later, List.map_cons, List.sum_cons, first, s.count_other u other,
      count_cons other, Nat.add_assoc]

theorem count_of_firstSlotIn? (h : s.firstSlotIn? u = none) : s.count u = 0 :=
  count_eq_zero (Text.cut?_eq_none (Option.map_eq_none_iff.mp h))

theorem count_pos_of_slotOf? {slot : Nat} (h : s.slotOf? u = some slot) : 1 ≤ s.count u := by
  obtain ⟨digits, rfl, _⟩ := slotOf?_eq_some h
  exact count_pos_of_infix (List.prefix_append _ _).isInfix

end Sentinel

namespace Draft

open Sentinel

variable {s : Sentinel} {options : Options} {d d' : Draft} {l : Ledger} {page added u : Text}
  {a b : Char} {n : Nat} {kinds : List SlotKind} {attributes : List Attribute}

theorem count_attributeOpening {name : Text} (named : s.count name = 0) (rest : Text) :
    s.count (attributeOpening name ++ rest) = s.count rest := by
  have whole : attributeOpening name ++ rest = ' ' :: (name ++ '=' :: ('"' :: rest)) := by
    simp [attributeOpening]
  rw [whole, count_cons (by decide), s.count_other name (by decide), count_cons (by decide), named,
    Nat.zero_add]

theorem count_printedLiteral {a : Attribute} (named : s.count a.name = 0) :
    s.count (printedLiteral a).text ≤ s.count a.value := by
  unfold printedLiteral
  split
  · rw [Printed.text, count_cons (by decide), named]
    exact Nat.zero_le _
  · have mark : s.count [] = 0 := s.count_nil
    rw [Printed.text, List.append_assoc, count_attributeOpening named, s.count_other _ (by decide),
      mark]
    exact (covers_escape a.value).count_le

theorem count_slottedText {entry : Nat × Text} (named : s.count entry.2 = 0) :
    s.count (slottedText options (marked s) entry) = 1 := by
  unfold slottedText
  split
  · exact s.count_written
  · have mark : s.count [] = 0 := s.count_nil
    rw [List.append_assoc, count_attributeOpening named, s.count_other _ (by decide), mark]
    exact s.count_written

theorem begins_printed (item : Printed) :
    ∃ c rest, item.text = c :: rest ∧ isTokenLetter c = false := by
  cases item <;> exact ⟨' ', _, rfl, by decide⟩

theorem begins_slotted (entry : Nat × Text) :
    ∃ c rest, slottedText options (marked s) entry = c :: rest ∧ isTokenLetter c = false := by
  unfold slottedText
  split
  · exact ⟨'<', _, rfl, by decide⟩
  · exact ⟨' ', _, rfl, by decide⟩

/-- The attributes of a tag are written with no more tokens than their values have. -/
theorem sum_count_le (options : Options) (named : ∀ a ∈ attributes, s.count a.name = 0) :
    ((attributes.filterMap (literal? s)).map fun item => s.count item.text).sum +
        ((slotted s attributes).map fun entry =>
          s.count (slottedText options (marked s) entry)).sum ≤
      Ledger.attributesWeight s attributes := by
  induction attributes with
  | nil => exact Nat.le_refl 0
  | cons a rest ih =>
    have later := ih fun b member => named b (List.mem_cons_of_mem a member)
    have name := named a List.mem_cons_self
    have weight : Ledger.attributesWeight s (a :: rest) =
        s.count a.value + Ledger.attributesWeight s rest := rfl
    cases found : s.slotOf? a.value with
    | none =>
      have literal : literal? s a = some (printedLiteral a) := by rw [literal?, found]
      have slots : slotted s (a :: rest) = slotted s rest := by rw [slotted, found]
      have printed := count_printedLiteral name
      rw [List.filterMap_cons_some literal, slots, List.map_cons, List.sum_cons, weight]
      omega
    | some slot =>
      have literal : literal? s a = none := by rw [literal?, found]
      have slots : slotted s (a :: rest) = insertSlotted (slot, a.name) (slotted s rest) := by
        rw [slotted, found]
      have moved := ((insertSlotted_perm (slot, a.name) (slotted s rest)).map fun entry =>
        s.count (slottedText options (marked s) entry)).sum_eq
      have value := count_pos_of_slotOf? found
      have one : s.count (slottedText options (marked s) (slot, a.name)) = 1 :=
        count_slottedText name
      rw [List.filterMap_cons_none literal, slots, moved, List.map_cons, List.sum_cons, one, weight]
      omega

theorem count_names {entries : List (Nat × Text)}
    (h : writeLiterals s d attributes = .ok (d', entries)) :
    ∀ a ∈ attributes, s.count a.name = 0 := by
  induction attributes generalizing d d' entries with
  | nil => exact fun _ member => absurd member List.not_mem_nil
  | cons a rest ih =>
    rw [writeLiterals] at h
    split at h
    · cases h
    · rename_i named
      have first : s.count a.name = 0 := count_of_firstSlotIn? named
      have all : (∀ b ∈ rest, s.count b.name = 0) → ∀ b ∈ a :: rest, s.count b.name = 0 := by
        intro later b member
        rcases List.mem_cons.mp member with rfl | member
        · exact first
        · exact later b member
      split at h
      · obtain ⟨⟨written, others⟩, later, _⟩ := bind_eq_ok h
        exact all (ih later)
      · cases h
      · exact all (ih h)

/-! ## The account of a page -/

/-- Every token of a page is in the ledger, and so is one that is begun at its end. -/
def Accounted (s : Sentinel) (page : Text) (l : Ledger) : Prop :=
  s.Behind (s.tally s.token page) (l.total s, (s.tally s.token l.run).2)

/-- A text that is covered by what is written of it. -/
theorem Accounted.text (h : Accounted s page l) (covers : s.Covers u added) :
    Accounted s (page ++ added) ⟨l.done, l.run ++ u⟩ := by
  have later := covers (s.tally s.token page) (l.total s, (s.tally s.token l.run).2)
    (s.due_token.tally l.run) h
  rw [Accounted, tally_append, Ledger.total, Sentinel.count, tally_append, ← Nat.add_assoc]
  exact later

/-- Something between two characters that are no part of a token. -/
theorem Accounted.mark (h : Accounted s page l) (first : isTokenLetter a = false)
    (last : isTokenLetter b = false) (le : s.count u ≤ n) :
    Accounted s (page ++ a :: (u ++ [b])) (l.close s n) := by
  have inner := s.count_other u last []
  rw [count_nil] at inner
  have found : s.count page ≤ l.total s := h.found
  rw [Accounted, tally_other page first, tally_other u last, inner]
  refine ⟨?_, .inr rfl⟩
  show s.count page + (s.count u + 0) ≤ l.total s + n
  omega

/-- The page of a draft that goes on is accounted for. -/
structure Kept (s : Sentinel) (d : Draft) (l : Ledger) : Prop where
  even : d.chunks.length = d.slots.length
  page : Accounted s (d.page (marked s)) l

theorem Kept.adds (h : Kept s d l) (adds : Adds (marked s) d d' added kinds) {l' : Ledger}
    (account : Accounted s (d.page (marked s) ++ added) l') : Kept s d' l' := by
  refine ⟨adds.even h.even, ?_⟩
  rw [adds.page h.even]
  exact account

theorem Kept.write (h : Kept s d l) {l' : Ledger}
    (account : Accounted s (d.page (marked s) ++ added) l') : Kept s (d.write added) l' :=
  h.adds (adds_write _ d added) account

theorem Kept.same (h : Kept s d l) (chunks : d'.chunks = d.chunks) (slots : d'.slots = d.slots)
    (current : d'.current = d.current) : Kept s d' l := by
  refine h.adds (.nothing chunks slots current) ?_
  rw [List.append_nil]
  exact h.page

theorem kept_openTag {name : Text} (h : openTag s options d name attributes = .ok d')
    (kept : Kept s d l) : Kept s d' (l.close s (Ledger.attributesWeight s attributes)) := by
  obtain ⟨⟨kinds, adds⟩, _⟩ := adds_openTag (marked s) h
  refine kept.adds adds ?_
  unfold openTag at h
  split at h
  · cases h
  · rename_i named
    obtain ⟨⟨written, entries⟩, found, _⟩ := bind_eq_ok h
    have sum := sum_count_le options (count_names found)
    have literals := s.count_flatMap
      (fun item (_ : item ∈ attributes.filterMap (literal? s)) => begins_printed item) name
    have slots := s.count_flatMap (f := slottedText options (marked s))
      (fun entry (_ : entry ∈ slotted s attributes) => begins_slotted entry)
      (name ++ (attributes.filterMap (literal? s)).flatMap Printed.text)
    have whole : tagText s options (marked s) name attributes =
        '<' :: (name ++ (attributes.filterMap (literal? s)).flatMap Printed.text ++
          (slotted s attributes).flatMap (slottedText options (marked s)) ++ ['>']) := rfl
    have none := count_of_firstSlotIn? named
    rw [whole]
    exact kept.page.mark (by decide) (by decide) (by omega)

theorem kept_closeTag {name : Text} (h : closeTag s d name = .ok d') (kept : Kept s d l) :
    Kept s d' (if Vocabulary.isVoid name then l else l.close s 0) := by
  unfold closeTag at h
  split at h
  · cases h
  · rename_i named
    have none := count_of_firstSlotIn? named
    split at h
    · rename_i isVoid
      cases h
      rw [if_pos isVoid]
      exact kept
    · rename_i notVoid
      cases h
      rw [if_neg notVoid]
      have written : Kept s (d.write (['<', '/'] ++ name ++ ['>'])) (l.close s 0) :=
        kept.write (kept.page.mark (u := '/' :: name) (by decide) (by decide)
          (Nat.le_of_eq ((count_cons (by decide) name).trans none)))
      exact written.same rfl rfl rfl

theorem kept_comment {data : Text} (h : comment s d data = .ok d') (kept : Kept s d l) :
    Kept s d' (l.close s (s.count data)) := by
  unfold comment at h
  split at h
  · rename_i slot found
    refine kept.adds (adds_pushSlot _ h).2 ?_
    exact kept.page.mark (by decide) (by decide)
      (Nat.le_trans (Nat.le_of_eq s.count_token) (count_pos_of_slotOf? found))
  · cases h
  · cases h
    have whole : ['<', '!', '-', '-'] ++ data ++ ['-', '-', '>'] =
        '<' :: ('!' :: '-' :: '-' :: (data ++ '-' :: ['-']) ++ ['>']) := by simp
    have dash : s.count ['-'] = 0 := s.count_cons (by decide) []
    refine kept.write ?_
    rw [whole]
    refine kept.page.mark (by decide) (by decide) ?_
    rw [count_cons (by decide), count_cons (by decide), count_cons (by decide),
      s.count_other data (by decide), dash]
    exact Nat.le_refl _

/-- Whatever a draft takes before the end of the input, its page is accounted for. -/
theorem kept_take (script : ∀ text, options.minifyScript text = .ok text)
    (style : ∀ text, options.minifyStyle text = .ok text) {event : Event}
    (other : event ≠ .endOfInput) (h : take s options d event = .ok d') (kept : Kept s d l) :
    Kept s d' (l.addEvent s event) := by
  cases event with
  | openTag name attributes => exact kept_openTag h kept
  | closeTag name => exact kept_closeTag h kept
  | text content =>
    obtain ⟨added, kinds, adds, covers⟩ := covers_text script style h
    exact kept.adds adds (kept.page.text covers)
  | comment data => exact kept_comment h kept
  | sectionStart =>
    cases h
    have quiet : s.count ('!' :: Event.sectionOpening.dropLast) = 0 := by
      rw [Sentinel.count, tally_eq_zero (by decide)]
    have written : Kept s (d.write ('<' :: '!' :: Event.sectionOpening)) (l.close s 0) :=
      kept.write (kept.page.mark (by decide) (by decide) (Nat.le_of_eq quiet))
    exact written.same rfl rfl rfl
  | sectionEnd =>
    cases h
    have quiet : s.count [']'] = 0 := s.count_cons (by decide) []
    have written : Kept s (d.write [']', ']', '>']) (l.close s 0) :=
      kept.write (kept.page.mark (by decide) (by decide) (Nat.le_of_eq quiet))
    exact written.same rfl rfl rfl
  | instruction name data =>
    cases h
    exact kept.write (kept.page.mark (by decide) (by decide) (Nat.le_refl _))
  | doctype name =>
    cases h
    refine kept.write ?_
    have quiet : s.count ("!DOCTYPE ".toList ++ name) = s.count name := by
      rw [Sentinel.count, tally_quiet (by decide), Sentinel.count]
    exact kept.page.mark (u := "!DOCTYPE ".toList ++ name) (by decide) (by decide)
      (Nat.le_of_eq quiet)
  | endOfInput => exact absurd rfl other

theorem kept_takeAll (script : ∀ text, options.minifyScript text = .ok text)
    (style : ∀ text, options.minifyStyle text = .ok text) {events : List Event}
    (other : .endOfInput ∉ events) (h : takeAll s options d events = .ok d') (kept : Kept s d l) :
    Kept s d' (l.addEvents s events) := by
  induction events generalizing d l with
  | nil =>
    cases h
    exact kept
  | cons event rest ih =>
    obtain ⟨first, found, later⟩ := bind_eq_ok h
    have here : event ≠ .endOfInput := by
      rintro rfl
      exact other List.mem_cons_self
    exact ih (fun member => other (List.mem_cons_of_mem event member)) later
      (kept_take script style here found kept)

/-- The tokens of a page are those of its chunks, and one for each slot. -/
theorem count_page (s : Sentinel) (chunks : List Text) (last : Text) :
    s.count ((chunks.mapIdx fun slot chunk => chunk ++ marked s slot).flatten ++ last) =
      chunks.length + ((chunks ++ [last]).map s.count).sum := by
  induction chunks with
  | nil => simp
  | cons chunk rest ih =>
    have whole : ((chunk :: rest).mapIdx fun slot chunk => chunk ++ marked s slot).flatten ++ last =
        chunk ++ '<' :: (s.token ++ '>' ::
          ((rest.mapIdx fun slot chunk => chunk ++ marked s slot).flatten ++ last)) := by
      simp [List.mapIdx_cons, marked, written]
    rw [whole, s.count_other chunk (by decide), s.count_other s.token (by decide), ih,
      s.count_token]
    simp only [List.length_cons, List.cons_append, List.map_cons, List.sum_cons]
    omega

/-! ## Failures -/

/-- A computation that fails only on account of a slot that was found. -/
def FailsBySlot {α : Type} (x : Except Failure α) : Prop :=
  ∀ failure, x = .error failure → ∀ expected found, failure.error ≠ .missingSlots expected found

section Failures

variable {α β : Type}

theorem failsBySlot_ok (x : α) : FailsBySlot (.ok x) := fun _ same => by cases same

theorem failsBySlot_fail {error : CompileError}
    (other : ∀ expected found, error ≠ .missingSlots expected found) :
    FailsBySlot (d.fail error : Except Failure α) := by
  intro failure same
  cases same
  exact other

theorem FailsBySlot.bind {x : Except Failure α} {f : α → Except Failure β} (h : FailsBySlot x)
    (later : ∀ a, FailsBySlot (f a)) : FailsBySlot (x >>= f) := by
  cases x with
  | error failure =>
    intro other same
    cases same
    exact h failure rfl
  | ok a => exact later a

theorem failsBySlot_pushSlot (d : Draft) (slot : Nat) (kind : SlotKind) :
    FailsBySlot (d.pushSlot slot kind) := by
  unfold pushSlot
  split
  · exact failsBySlot_ok _
  · exact failsBySlot_fail fun _ _ same => by cases same

theorem failsBySlot_pushAttributes (options : Options) (d : Draft) (entries : List (Nat × Text)) :
    FailsBySlot (pushAttributes options d entries) := by
  induction entries generalizing d with
  | nil => exact failsBySlot_ok d
  | cons entry rest ih =>
    refine FailsBySlot.bind ?_ ih
    unfold pushAttribute
    split
    · exact failsBySlot_pushSlot _ _ _
    · exact (failsBySlot_pushSlot _ _ _).bind fun _ => failsBySlot_ok _

theorem failsBySlot_writeLiterals (s : Sentinel) (d : Draft) (attributes : List Attribute) :
    FailsBySlot (writeLiterals s d attributes) := by
  induction attributes generalizing d with
  | nil => exact failsBySlot_ok _
  | cons a rest ih =>
    rw [writeLiterals]
    split
    · exact failsBySlot_fail fun _ _ same => by cases same
    · split
      · exact (ih d).bind fun _ => failsBySlot_ok _
      · exact failsBySlot_fail fun _ _ same => by cases same
      · exact ih _

theorem failsBySlot_pieces (options : Options) (d : Draft) (parts : List Piece) :
    FailsBySlot (pieces options d parts) := by
  induction parts generalizing d with
  | nil => exact failsBySlot_ok d
  | cons piece rest ih =>
    cases piece with
    | literal text => exact ih _
    | slot slot => exact (failsBySlot_pushSlot d slot .content).bind ih

theorem failsBySlot_take (s : Sentinel) (options : Options) (d : Draft) (event : Event) :
    FailsBySlot (take s options d event) := by
  cases event with
  | openTag name attributes =>
    show FailsBySlot (openTag s options d name attributes)
    unfold openTag
    split
    · exact failsBySlot_fail fun _ _ same => by cases same
    · exact (failsBySlot_writeLiterals _ _ _).bind fun _ =>
        (failsBySlot_pushAttributes _ _ _).bind fun _ => failsBySlot_ok _
  | closeTag name =>
    show FailsBySlot (closeTag s d name)
    unfold closeTag
    split
    · exact failsBySlot_fail fun _ _ same => by cases same
    · split <;> exact failsBySlot_ok _
  | text content =>
    show FailsBySlot (text s options d content)
    unfold text
    split
    · exact failsBySlot_ok _
    · exact failsBySlot_pieces _ _ _
  | comment data =>
    show FailsBySlot (comment s d data)
    unfold comment
    split
    · exact failsBySlot_pushSlot _ _ _
    · exact failsBySlot_fail fun _ _ same => by cases same
    · exact failsBySlot_ok _
  | _ => exact failsBySlot_ok _

theorem failsBySlot_takeAll (s : Sentinel) (options : Options) (d : Draft) (events : List Event) :
    FailsBySlot (takeAll s options d events) := by
  induction events generalizing d with
  | nil => exact failsBySlot_ok d
  | cons event rest ih => exact (failsBySlot_take s options d event).bind ih

end Failures

end Draft

/-! ## Templates -/

namespace Template

open Sentinel

variable {s : Sentinel} {options : Options} {segments : List Text} {d : Draft} {n : Nat}

/-- The slots of a draft and the tokens in its chunks are no more than the slots of the skeleton. -/
theorem count_draft_le (some : segments ≠ [])
    (absent : ∀ segment ∈ segments, s.Absent (normalizeNewlines segment))
    (script : ∀ text, options.minifyScript text = .ok text)
    (style : ∀ text, options.minifyStyle text = .ok text)
    (taken : Draft.takeAll s options Draft.empty (Event.ofTokens (Token.read (s.join segments))) =
      .ok d) :
    d.chunks.length = d.slots.length ∧
      d.slots.length + ((d.chunks ++ [d.current]).map s.count).sum ≤ segments.length - 1 := by
  have start : Draft.Kept s Draft.empty ⟨0, []⟩ := ⟨rfl, .refl _⟩
  have kept := Draft.kept_takeAll script style (Event.endOfInput_not_mem _) taken start
  have page : s.count (d.page (Draft.marked s)) ≤ _ := kept.page.found
  rw [Draft.page, Draft.count_page, kept.even] at page
  have events :=
    (Ledger.within_ofTokens (s := s) ⟨0, []⟩ (Token.read (s.join segments))).total (s := s)
  exact ⟨kept.even, Nat.le_trans page (Nat.le_trans events (total_join_le absent some))⟩

/-- A draft that holds as many slots as it is to have has no token left in its chunks, and one that
does not holds fewer. -/
theorem slots_of_draft (even : d.chunks.length = d.slots.length)
    (bound : d.slots.length + ((d.chunks ++ [d.current]).map s.count).sum ≤ n) :
    match (ofDraft n { d with current := [], chunks := d.chunks ++ [d.current] }).result with
    | .ok template => template.slots.length = n ∧ template.chunks.length = n + 1 ∧
        ∀ chunk ∈ template.chunks, ¬ s.token <:+: chunk
    | .error (.missingSlots expected found) => expected = n ∧ found < expected
    | .error _ => True := by
  have parity : (d.chunks ++ [d.current]).length = d.slots.length + 1 := by
    rw [List.length_append, even]
    rfl
  by_cases all : d.slots.length = n
  · have none : ∀ chunk ∈ d.chunks ++ [d.current], ¬ s.token <:+: chunk := by
      intro chunk member
      have part := List.single_le_sum (fun _ _ => Nat.zero_le _) _
        (List.mem_map_of_mem (f := s.count) member)
      exact not_infix_of_count (by omega)
    simp only [ofDraft, all, if_true, ofParts?, parity, dif_pos]
    exact ⟨trivial, trivial, none⟩
  · simp only [ofDraft, all, if_false]
    exact ⟨trivial, by omega⟩

/-- Segments without the token compile to a template that has all of their slots and no token in its
chunks, or slots are missing. The number of slots is never right while that of the chunks is not. -/
theorem slots_of_compile (length : segments.length = n + 1)
    (absent : ∀ segment ∈ segments, s.Absent (normalizeNewlines segment))
    (script : ∀ text, options.minifyScript text = .ok text)
    (style : ∀ text, options.minifyStyle text = .ok text) :
    match (compile s options Event.source segments).result with
    | .ok template => template.slots.length = n ∧ template.chunks.length = n + 1 ∧
        ∀ chunk ∈ template.chunks, ¬ s.token <:+: chunk
    | .error (.missingSlots expected found) => expected = n ∧ found < expected
    | .error _ => True := by
  have some : segments ≠ [] := by
    rintro rfl
    cases length
  have expected : segments.length - 1 = n := by omega
  have report : (compile s options Event.source segments).result =
      (ofReport s options n (Event.source (s.join segments))).result := by rw [← expected]; rfl
  rw [report]
  unfold ofReport
  cases taken : Draft.takeAll s options Draft.empty (Event.source (s.join segments)).events with
  | error failure =>
    have other := Draft.failsBySlot_takeAll s options Draft.empty _ failure taken
    show match (Except.error failure.error : Except CompileError Template) with
      | .ok template => _
      | .error (.missingSlots expected found) => _
      | .error _ => _
    generalize failure.error = error at other
    cases error with
    | missingSlots expected found => exact absurd rfl (other expected found)
    | _ => trivial
  | ok last =>
    have ended : Draft.takeAll s options Draft.empty
        (Event.ofTokens (Token.read (s.join segments)) ++ [.endOfInput]) = .ok last := taken
    rw [Draft.takeAll_append] at ended
    obtain ⟨d, found, same⟩ := Draft.bind_eq_ok ended
    cases same
    obtain ⟨even, bound⟩ := count_draft_le some absent script style found
    rw [expected] at bound
    exact slots_of_draft even bound

/-- A slot in an attribute and one in content. -/
theorem slots_of_compile_paragraph : ∃ template,
    (compile simplest {} Event.source ["<p class=".toList, ">a".toList, "</p>".toList]).result =
      .ok template ∧
    template.slots.length = 2 ∧ template.chunks.length = 3 ∧
      ∀ chunk ∈ template.chunks, ¬ simplest.token <:+: chunk := by
  have absent : ∀ segment ∈ ["<p class=".toList, ">a".toList, "</p>".toList],
      simplest.Absent (normalizeNewlines segment) := by decide
  have compiled : (compile simplest {} Event.source
      ["<p class=".toList, ">a".toList, "</p>".toList]).result =
      .ok ⟨["<p class=\"".toList, "\">a".toList, "</p>".toList], [.generic, .content], rfl⟩ := rfl
  have script : ∀ text, ({} : Options).minifyScript text = .ok text := fun _ => rfl
  have style : ∀ text, ({} : Options).minifyStyle text = .ok text := fun _ => rfl
  have all := slots_of_compile (n := 2) rfl absent script style
  rw [compiled] at all
  exact ⟨_, compiled, all⟩

/-- It is not enough that the token is nowhere in the markup: where an end tag leaves nothing, the
texts around it are put next to each other. -/
theorem token_put_together :
    ¬ simplest.token <:+: Text.lower "<p>hw0000000000000000</br>0000000000000000</p>".toList ∧
    (∀ inAttribute, ¬ simplest.token <:+: Text.lower ((Reading.decoded inAttribute).textOf
      "<p>hw0000000000000000</br>0000000000000000</p>".toList)) ∧
    (compile simplest {} Event.source
      ["<p>hw0000000000000000</br>0000000000000000</p>".toList]).result =
        .ok ⟨["<p>hw00000000000000000000000000000000</p>".toList], [], rfl⟩ ∧
    simplest.token <:+: "<p>hw00000000000000000000000000000000</p>".toList := by
  have events : Event.read "<p>hw0000000000000000</br>0000000000000000</p>".toList =
      [.openTag ['p'] [], .text "hw0000000000000000".toList, .closeTag ['b', 'r'],
        .text "0000000000000000".toList, .closeTag ['p'], .endOfInput] := rfl
  have joined : simplest.join ["<p>hw0000000000000000</br>0000000000000000</p>".toList] =
      "<p>hw0000000000000000</br>0000000000000000</p>".toList := rfl
  have report : (ofReport simplest {} 0 ⟨[.openTag ['p'] [], .text "hw0000000000000000".toList,
      .closeTag ['b', 'r'], .text "0000000000000000".toList, .closeTag ['p'], .endOfInput],
      none⟩).result = .ok ⟨["<p>hw00000000000000000000000000000000</p>".toList], [], rfl⟩ := rfl
  refine ⟨by decide, fun inAttribute => by cases inAttribute <;> decide, ?_, by decide⟩
  show (ofReport simplest {} 0 (Event.source (simplest.join
    ["<p>hw0000000000000000</br>0000000000000000</p>".toList]))).result = _
  rw [joined, Event.source, events]
  exact report

end Template

end HtmlTemplate

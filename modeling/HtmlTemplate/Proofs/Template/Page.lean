import HtmlTemplate.Proofs.Output.StartTag
import HtmlTemplate.Proofs.Template.Company
import HtmlTemplate.Render.Whole
import Mathlib.Data.List.Basic

/-!
# The page of a draft

What a page is up to the place where a draft has come is what its chunks are, with what the slots
become between them. Every event before the end of the input adds to it, and `Draft.Adds` says what:
slots of some kinds, and a text. For a start tag this is the text `Draft.tagText`.
-/

namespace HtmlTemplate

namespace Draft

variable {s : Sentinel} {options : Options} {outputs : Nat → Text} {d d' d'' : Draft}
  {added more : Text} {kinds others : List SlotKind}

/-- The page up to where a draft has come, given what its slots become. -/
def page (outputs : Nat → Text) (d : Draft) : Text :=
  (d.chunks.mapIdx fun slot chunk => chunk ++ outputs slot).flatten ++ d.current

/-- What a part of the markup adds to a draft: slots of these kinds, and to the page this text. -/
structure Adds (outputs : Nat → Text) (d d' : Draft) (added : Text) (kinds : List SlotKind) :
    Prop where
  slots : d'.slots = d.slots ++ kinds
  even : d.chunks.length = d.slots.length → d'.chunks.length = d'.slots.length
  page : d.chunks.length = d.slots.length → d'.page outputs = d.page outputs ++ added

theorem Adds.nothing (chunks : d'.chunks = d.chunks) (slots : d'.slots = d.slots)
    (current : d'.current = d.current) : Adds outputs d d' [] [] := by
  refine ⟨by rw [slots, List.append_nil], fun even => by rw [chunks, slots, even], fun _ => ?_⟩
  rw [List.append_nil, Draft.page, Draft.page, chunks, current]

theorem Adds.trans (h : Adds outputs d d' added kinds) (h' : Adds outputs d' d'' more others) :
    Adds outputs d d'' (added ++ more) (kinds ++ others) := by
  refine ⟨?_, fun even => h'.even (h.even even), fun even => ?_⟩
  · rw [h'.slots, h.slots, List.append_assoc]
  · rw [h'.page (h.even even), h.page even, List.append_assoc]

variable (outputs)

theorem adds_write (d : Draft) (text : Text) : Adds outputs d (d.write text) text [] := by
  refine ⟨(List.append_nil _).symm, fun even => even, fun _ => ?_⟩
  simp only [Draft.page, write, List.append_assoc]

theorem adds_pushSlot {slot : Nat} {kind : SlotKind} (h : d.pushSlot slot kind = .ok d') :
    slot = d.slots.length ∧ Adds outputs d d' (outputs slot) [kind] := by
  unfold pushSlot at h
  split at h
  · rename_i next
    cases h
    refine ⟨next, rfl, fun even => ?_, fun even => ?_⟩
    · simp [even]
    · simp [Draft.page, List.mapIdx_append, next, even]
  · cases h

/-! ## Start tags -/

/-- A literal attribute as it is printed. -/
def printedLiteral (a : Attribute) : Printed :=
  if a.value = [] ∧ Vocabulary.isBareAttribute a.name then .bare a.name else .valued a.name a.value

theorem text_printedLiteral (a : Attribute) : (printedLiteral a).text = literalAttribute a := by
  unfold printedLiteral literalAttribute
  split <;> rfl

/-- The literal attribute of a tag, unless it holds a slot. -/
def literal? (s : Sentinel) (a : Attribute) : Option Printed :=
  match s.slotOf? a.value with
  | some _ => none
  | none => some (printedLiteral a)

/-- The slots of a tag in their order, with the names of their attributes. -/
def slotted (s : Sentinel) : List Attribute → List (Nat × Text)
  | [] => []
  | a :: rest =>
    match s.slotOf? a.value with
    | some slot => insertSlotted (slot, a.name) (slotted s rest)
    | none => slotted s rest

/-- What a slotted attribute adds to a page. -/
def slottedText (options : Options) (outputs : Nat → Text) (entry : Nat × Text) : Text :=
  match attributeKind options entry.2 with
  | .boolean _ => outputs entry.1
  | _ => attributeOpening entry.2 ++ outputs entry.1 ++ ['"']

theorem adds_writeLiterals {attributes : List Attribute} {entries : List (Nat × Text)}
    (h : writeLiterals s d attributes = .ok (d', entries)) :
    Adds outputs d d' ((attributes.filterMap (literal? s)).flatMap Printed.text) [] ∧
      entries = slotted s attributes := by
  induction attributes generalizing d entries with
  | nil =>
    cases h
    exact ⟨.nothing rfl rfl rfl, rfl⟩
  | cons a rest ih =>
    rw [writeLiterals] at h
    rw [slotted, List.filterMap_cons]
    split at h
    · cases h
    · split at h
      · rename_i slot found
        obtain ⟨⟨written, later⟩, after, same⟩ := bind_eq_ok h
        cases same
        obtain ⟨adds, all⟩ := ih after
        rw [literal?, found]
        exact ⟨adds, by rw [all]⟩
      · cases h
      · rename_i found _
        obtain ⟨adds, all⟩ := ih h
        rw [literal?, found]
        refine ⟨?_, all⟩
        have both := (adds_write outputs d (literalAttribute a)).trans adds
        rw [← text_printedLiteral] at both
        exact both

theorem adds_pushAttribute {slot : Nat} {name : Text}
    (h : pushAttribute options d slot name = .ok d') :
    slot = d.slots.length ∧
      Adds outputs d d' (slottedText options outputs (slot, name))
        [attributeKind options name] := by
  unfold pushAttribute at h
  unfold slottedText
  split at h
  · rename_i kind same
    simp only [same]
    exact adds_pushSlot outputs h
  · rename_i kind other
    obtain ⟨pushed, found, same⟩ := bind_eq_ok h
    cases same
    obtain ⟨next, adds⟩ := adds_pushSlot outputs found
    refine ⟨next, ?_⟩
    have all := ((adds_write outputs d (attributeOpening name)).trans adds).trans
      (adds_write outputs pushed ['"'])
    cases kinded : attributeKind options name with
    | boolean name => exact absurd kinded (other name)
    | _ =>
      rw [kinded] at all
      exact all

/-- Attributes with slots get the next slots, each of the kind that its name asks for. -/
theorem adds_pushAttributes {entries : List (Nat × Text)}
    (h : pushAttributes options d entries = .ok d') :
    (∃ kinds, Adds outputs d d' (entries.flatMap (slottedText options outputs)) kinds) ∧
      ∀ entry ∈ entries, d'.slots[entry.1]? = some (attributeKind options entry.2) := by
  induction entries generalizing d with
  | nil =>
    cases h
    exact ⟨⟨[], .nothing rfl rfl rfl⟩, fun _ member => absurd member List.not_mem_nil⟩
  | cons entry rest ih =>
    obtain ⟨first, found, later⟩ := bind_eq_ok h
    obtain ⟨next, adds⟩ := adds_pushAttribute outputs found
    obtain ⟨⟨kinds, more⟩, known⟩ := ih later
    refine ⟨⟨_, adds.trans more⟩, fun other member => ?_⟩
    rcases List.mem_cons.mp member with rfl | member
    · rw [(adds.trans more).slots, next]
      simp
    · exact known other member

/-- What a draft adds to the page for a start tag. -/
def tagText (s : Sentinel) (options : Options) (outputs : Nat → Text) (name : Text)
    (attributes : List Attribute) : Text :=
  '<' :: name ++ (attributes.filterMap (literal? s)).flatMap Printed.text ++
    (slotted s attributes).flatMap (slottedText options outputs) ++ ['>']

theorem adds_openTag {name : Text} {attributes : List Attribute}
    (h : openTag s options d name attributes = .ok d') :
    (∃ kinds, Adds outputs d d' (tagText s options outputs name attributes) kinds) ∧
      ∀ entry ∈ slotted s attributes,
        d'.slots[entry.1]? = some (attributeKind options entry.2) := by
  unfold openTag at h
  split at h
  · cases h
  · obtain ⟨⟨written, entries⟩, found, later⟩ := bind_eq_ok h
    obtain ⟨pushed, attributes, same⟩ := bind_eq_ok later
    obtain ⟨literals, rfl⟩ := adds_writeLiterals outputs found
    obtain ⟨⟨kinds, slots⟩, known⟩ := adds_pushAttributes outputs attributes
    have opened : Adds outputs (pushed.write ['>']) d' [] [] := by
      cases same
      split <;> exact .nothing rfl rfl rfl
    have whole := (((adds_write outputs d ('<' :: name)).trans literals).trans slots).trans
      ((adds_write outputs pushed ['>']).trans opened)
    have last : d'.slots = pushed.slots := by
      rw [opened.slots, (adds_write outputs pushed ['>']).slots]
      simp
    refine ⟨⟨_, whole⟩, ?_⟩
    rw [last]
    exact known

/-! ## Other events -/

theorem adds_closeTag {name : Text} (h : closeTag s d name = .ok d') :
    ∃ added kinds, Adds outputs d d' added kinds := by
  unfold closeTag at h
  split at h
  · cases h
  · split at h
    · cases h
      exact ⟨_, _, .nothing rfl rfl rfl⟩
    · cases h
      exact ⟨_, _, (adds_write outputs d _).trans (.nothing rfl rfl rfl)⟩

theorem adds_pieces {parts : List Sentinel.Piece} (h : pieces options d parts = .ok d') :
    ∃ added kinds, Adds outputs d d' added kinds := by
  induction parts generalizing d with
  | nil =>
    cases h
    exact ⟨_, _, .nothing rfl rfl rfl⟩
  | cons piece rest ih =>
    cases piece with
    | literal text =>
      obtain ⟨added, kinds, later⟩ := ih h
      exact ⟨_, _, (adds_write outputs d _).trans later⟩
    | slot slot =>
      obtain ⟨first, found, after⟩ := bind_eq_ok h
      obtain ⟨added, kinds, later⟩ := ih after
      exact ⟨_, _, (adds_pushSlot outputs found).2.trans later⟩

theorem adds_minify (d : Draft) (minifier : Minifier) (language text : Text) :
    ∃ added, Adds outputs d (d.minify minifier language text) added [] := by
  unfold minify
  split
  · exact ⟨_, adds_write outputs d _⟩
  · exact ⟨_, (adds_write outputs d text).trans (.nothing rfl rfl rfl)⟩

theorem adds_text {content : Text} (h : text s options d content = .ok d') :
    ∃ added kinds, Adds outputs d d' added kinds := by
  unfold text at h
  split at h
  · cases h
    unfold plainText
    split
    · obtain ⟨added, adds⟩ := adds_minify outputs d options.minifyScript _ content
      exact ⟨added, [], adds⟩
    · split
      · obtain ⟨added, adds⟩ := adds_minify outputs d options.minifyStyle _ content
        exact ⟨added, [], adds⟩
      · exact ⟨_, _, adds_write outputs d _⟩
  · exact adds_pieces outputs h

theorem adds_comment {data : Text} (h : comment s d data = .ok d') :
    ∃ added kinds, Adds outputs d d' added kinds := by
  unfold comment at h
  split at h
  · exact ⟨_, _, (adds_pushSlot outputs h).2⟩
  · cases h
  · cases h
    exact ⟨_, _, adds_write outputs d _⟩

/-- Every event before the end of the input adds to the page. -/
theorem adds_take {event : Event} (other : event ≠ .endOfInput)
    (h : take s options d event = .ok d') : ∃ added kinds, Adds outputs d d' added kinds := by
  cases event with
  | openTag name attributes => exact ⟨_, (adds_openTag outputs h).1⟩
  | closeTag name => exact adds_closeTag outputs h
  | text content => exact adds_text outputs h
  | comment data => exact adds_comment outputs h
  | sectionStart =>
    cases h
    exact ⟨_, _, (adds_write outputs d _).trans (.nothing rfl rfl rfl)⟩
  | sectionEnd =>
    cases h
    exact ⟨_, _, (adds_write outputs d _).trans (.nothing rfl rfl rfl)⟩
  | instruction name data =>
    cases h
    exact ⟨_, _, adds_write outputs d _⟩
  | doctype name =>
    cases h
    exact ⟨_, _, adds_write outputs d _⟩
  | endOfInput => exact absurd rfl other

theorem adds_takeAll {events : List Event} (other : .endOfInput ∉ events)
    (h : takeAll s options d events = .ok d') : ∃ added kinds, Adds outputs d d' added kinds := by
  induction events generalizing d with
  | nil =>
    cases h
    exact ⟨_, _, .nothing rfl rfl rfl⟩
  | cons event rest ih =>
    obtain ⟨first, found, after⟩ := bind_eq_ok h
    have here : event ≠ .endOfInput := by
      rintro rfl
      exact other List.mem_cons_self
    obtain ⟨added, kinds, adds⟩ := adds_take outputs here found
    obtain ⟨more, others, later⟩ :=
      ih (fun member => other (List.mem_cons_of_mem event member)) after
    exact ⟨_, _, adds.trans later⟩

theorem takeAll_append {events more : List Event} :
    takeAll s options d (events ++ more) =
      takeAll s options d events >>= fun d => takeAll s options d more := by
  induction events generalizing d with
  | nil => rfl
  | cons event rest ih =>
    rw [List.cons_append, takeAll, takeAll]
    cases take s options d event with
    | error failure => rfl
    | ok first => exact ih

end Draft

namespace Event

variable {token : Token} {event : Event}

/-- Comments are told of neither as start tags nor as the end of the input. -/
theorem mem_ofComment {data : Text} (h : event ∈ ofComment data) :
    event ≠ .endOfInput ∧ ∀ name attributes, event ≠ .openTag name attributes := by
  unfold ofComment at h
  split at h
  · rcases List.mem_pair.mp h with rfl | rfl <;> simp
  · simp only [List.mem_cons, List.not_mem_nil, or_false] at h
    rcases h with rfl | rfl | rfl <;> simp
  · split at h <;> rw [List.mem_singleton.mp h] <;> simp

/-- A mark is never told of as the end of the input, and as a start tag only if it is one. -/
theorem mem_ofMark (h : event ∈ ofMark token) : event ≠ .endOfInput ∧
    ∀ name attributes, event = .openTag name attributes →
      ∃ selfClosing, token = .startTag name attributes selfClosing := by
  cases token with
  | startTag other others selfClosing =>
    rcases List.mem_cons.mp h with rfl | closing
    · refine ⟨by simp, fun _ _ same => ⟨selfClosing, ?_⟩⟩
      cases same
      rfl
    · have named : event = .closeTag other := by cases selfClosing <;> simp_all
      rw [named]
      simp
  | comment data =>
    obtain ⟨ends, opens⟩ := mem_ofComment h
    exact ⟨ends, fun name attributes same => absurd same (opens name attributes)⟩
  | _ =>
    rw [List.mem_singleton.mp h]
    simp

/-- A start tag is told of only where one was read. -/
theorem exists_of_openTag_mem {name : Text} {attributes : List Attribute} {tokens : List Token}
    (h : .openTag name attributes ∈ ofTokens tokens) :
    ∃ selfClosing, .startTag name attributes selfClosing ∈ tokens := by
  rcases mem_ofTokens h with ⟨text, same⟩ | ⟨token, member, here⟩
  · cases same
  · obtain ⟨selfClosing, rfl⟩ := (mem_ofMark here).2 _ _ rfl
    exact ⟨selfClosing, member⟩

/-- The end of the input comes after all tokens. -/
theorem endOfInput_not_mem (tokens : List Token) : .endOfInput ∉ ofTokens tokens := by
  intro h
  rcases mem_ofTokens h with ⟨text, same⟩ | ⟨token, _, here⟩
  · cases same
  · exact (mem_ofMark here).1 rfl

/-- The events before the end of the input are those of the tokens. -/
theorem ofTokens_of_read {input : Text} {before after : List Event} (other : event ≠ .endOfInput)
    (h : read input = before ++ event :: after) :
    ∃ later, ofTokens (Token.read input) = before ++ event :: later := by
  rw [read] at h
  rcases List.eq_nil_or_concat after with rfl | ⟨later, last, rfl⟩
  · have ends := (List.append_inj' h rfl).2
    exact absurd (List.cons.inj ends).1.symm other
  · refine ⟨later, ?_⟩
    rw [List.concat_eq_append, ← List.cons_append, ← List.append_assoc] at h
    exact (List.append_inj' h rfl).1

end Event

end HtmlTemplate

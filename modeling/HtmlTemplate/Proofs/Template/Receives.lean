import HtmlTemplate.Proofs.Template.Page

/-!
# Drafts that take what they are given

An event asks for slots (`Event.pushes`), each of a kind. A draft takes events without an error if
no token stands where it must not (`Event.Clean`) and if the slots that the events ask for are the
next ones, one after the other; and then it gets them with their kinds (`Draft.exists_takeAll`).
-/

namespace HtmlTemplate

/-! ## What events ask for -/

namespace Event

variable (s : Sentinel) (options : Options)

/-- The slots that an event asks for, in the order in which a draft gets them, and what they
mean. -/
def pushes : Event → List (Nat × SlotKind)
  | .openTag _ attributes => (Draft.slotted s attributes).map fun entry =>
      (entry.1, Draft.attributeKind options entry.2)
  | .text content => (s.slotsOf content).map fun slot => (slot, .content)
  | .comment data => (s.slotOf? data).toList.map fun slot => (slot, .content)
  | _ => []

/-- No token stands in a name, and in values and comments only whole markers do. -/
def Clean : Event → Prop
  | .openTag name attributes => s.firstSlotIn? name = none ∧ ∀ a ∈ attributes,
      s.firstSlotIn? a.name = none ∧ (s.slotOf? a.value = none → s.firstSlotIn? a.value = none)
  | .closeTag name => s.firstSlotIn? name = none
  | .comment data => s.slotOf? data = none → s.firstSlotIn? data = none
  | _ => True

end Event

/-! ## Drafts -/

namespace Draft

variable {s : Sentinel} {options : Options} {d : Draft} {pairs more : List (Nat × SlotKind)}

/-- A draft gets slots that are the next ones. -/
def Receives (d : Draft) (result : Except Failure Draft) (pairs : List (Nat × SlotKind)) : Prop :=
  pairs.map Prod.fst = List.range' d.slots.length pairs.length →
    ∃ d', result = .ok d' ∧ d'.slots = d.slots ++ pairs.map Prod.snd

theorem Receives.nothing {d' : Draft} (h : d'.slots = d.slots) : Receives d (.ok d') [] :=
  fun _ => ⟨d', rfl, by rw [h, List.map_nil, List.append_nil]⟩

theorem Receives.of_slots {d' : Draft} {result : Except Failure Draft}
    (h : Receives d' result pairs) (same : d'.slots = d.slots) : Receives d result pairs := by
  unfold Receives at h ⊢
  rw [← same]
  exact h

theorem Receives.bind {x : Except Failure Draft} {f : Draft → Except Failure Draft}
    (h : Receives d x pairs) (later : ∀ d', Receives d' (f d') more) :
    Receives d (x >>= f) (pairs ++ more) := by
  intro next
  rw [List.map_append, List.length_append, ← List.range'_append_1] at next
  obtain ⟨first, rest⟩ := List.append_inj next (by simp)
  obtain ⟨d', rfl, slots⟩ := h first
  have count : d'.slots.length = d.slots.length + pairs.length := by
    rw [slots, List.length_append, List.length_map]
  obtain ⟨d'', same, slots'⟩ := later d' (by rw [count]; exact rest)
  refine ⟨d'', same, ?_⟩
  rw [slots', slots, List.append_assoc, List.map_append]

/-- What is done to the draft in the end leaves its slots as they are. -/
theorem Receives.map {x : Except Failure Draft} {f : Draft → Draft} (h : Receives d x pairs)
    (same : ∀ d', (f d').slots = d'.slots) : Receives d (x >>= fun d' => pure (f d')) pairs := by
  have both := h.bind (f := fun d' => pure (f d')) fun d' => .nothing (same d')
  rw [List.append_nil] at both
  exact both

theorem receives_pushSlot (d : Draft) (slot : Nat) (kind : SlotKind) :
    Receives d (d.pushSlot slot kind) [(slot, kind)] := by
  intro next
  have here : slot = d.slots.length := (List.cons.inj next).1
  exact ⟨_, if_pos here, rfl⟩

theorem receives_pushAttribute (options : Options) (d : Draft) (slot : Nat) (name : Text) :
    Receives d (pushAttribute options d slot name) [(slot, attributeKind options name)] := by
  have pushed :=
    receives_pushSlot (d.write (attributeOpening name)) slot (attributeKind options name)
  unfold pushAttribute
  split
  · rename_i name same
    rw [same]
    exact receives_pushSlot d slot (.boolean name)
  · exact (pushed.of_slots rfl).map fun _ => rfl

theorem receives_pushAttributes (options : Options) (d : Draft) (entries : List (Nat × Text)) :
    Receives d (pushAttributes options d entries)
      (entries.map fun entry => (entry.1, attributeKind options entry.2)) := by
  induction entries generalizing d with
  | nil => exact .nothing rfl
  | cons entry rest ih =>
    exact (receives_pushAttribute options d entry.1 entry.2).bind fun d' => ih d'

/-! ### Events -/

theorem exists_writeLiterals {attributes : List Attribute} (clean : ∀ a ∈ attributes,
      s.firstSlotIn? a.name = none ∧ (s.slotOf? a.value = none → s.firstSlotIn? a.value = none)) :
    ∃ d', writeLiterals s d attributes = .ok (d', slotted s attributes) ∧ d'.slots = d.slots := by
  induction attributes generalizing d with
  | nil => exact ⟨d, rfl, rfl⟩
  | cons a rest ih =>
    obtain ⟨name, value⟩ := clean a List.mem_cons_self
    have later := fun b member => clean b (List.mem_cons_of_mem a member)
    cases found : s.slotOf? a.value with
    | some slot =>
      obtain ⟨d', same, slots⟩ := ih (d := d) later
      refine ⟨d', ?_, slots⟩
      simp only [writeLiterals, name, found, same, slotted]
      rfl
    | none =>
      obtain ⟨d', same, slots⟩ := ih (d := d.write (literalAttribute a)) later
      refine ⟨d', ?_, slots⟩
      simp only [writeLiterals, name, found, value found, same, slotted]

theorem receives_openTag {name : Text} {attributes : List Attribute}
    (clean : Event.Clean s (.openTag name attributes)) :
    Receives d (openTag s options d name attributes)
      (Event.pushes s options (.openTag name attributes)) := by
  obtain ⟨named, values⟩ := clean
  obtain ⟨d', literals, slots⟩ := exists_writeLiterals (d := d.write ('<' :: name)) values
  have pushed := (receives_pushAttributes options d' (slotted s attributes)).map
    (f := fun d => if Vocabulary.isVoid name then d.write ['>'] else
      { d.write ['>'] with openElements := name :: (d.write ['>']).openElements })
    fun d' => by split <;> rfl
  unfold openTag
  simp only [named, literals]
  exact pushed.of_slots slots

theorem receives_closeTag {name : Text} (clean : Event.Clean s (.closeTag name)) :
    Receives d (closeTag s d name) [] := by
  have named : s.firstSlotIn? name = none := clean
  unfold closeTag
  simp only [named]
  split
  · exact .nothing rfl
  · exact .nothing rfl

theorem receives_pieces (options : Options) (d : Draft) (parts : List Sentinel.Piece) :
    Receives d (pieces options d parts)
      ((parts.filterMap Sentinel.Piece.slot?).map fun slot => (slot, .content)) := by
  induction parts generalizing d with
  | nil => exact .nothing rfl
  | cons piece rest ih =>
    cases piece with
    | literal content => exact (ih (d.write (literalText options d content))).of_slots rfl
    | slot slot => exact (receives_pushSlot d slot .content).bind fun d' => ih d'

theorem receives_text (s : Sentinel) (options : Options) (d : Draft) (content : Text) :
    Receives d (text s options d content) (Event.pushes s options (.text content)) := by
  unfold text
  split
  · rename_i piece single
    rw [Event.pushes, Sentinel.slotsOf_eq_nil single]
    exact .nothing (slots_plainText options d content)
  · exact receives_pieces options d (s.split content)

theorem receives_comment {data : Text} (clean : Event.Clean s (.comment data)) :
    Receives d (comment s d data) (Event.pushes s options (.comment data)) := by
  have all : s.slotOf? data = none → s.firstSlotIn? data = none := clean
  rw [comment, Event.pushes]
  cases found : s.slotOf? data with
  | some slot => exact receives_pushSlot d slot .content
  | none =>
    simp only [all found]
    exact .nothing rfl

/-- A draft takes an event where no token stands in a wrong place. -/
theorem receives_take {event : Event} (clean : event.Clean s) :
    Receives d (take s options d event) (event.pushes s options) := by
  cases event with
  | openTag name attributes => exact receives_openTag clean
  | closeTag name => exact receives_closeTag clean
  | text content => exact receives_text s options d content
  | comment data => exact receives_comment clean
  | _ => exact .nothing rfl

theorem receives_takeAll {events : List Event} (clean : ∀ event ∈ events, event.Clean s) :
    Receives d (takeAll s options d events) (events.flatMap (Event.pushes s options)) := by
  induction events generalizing d with
  | nil => exact .nothing rfl
  | cons event rest ih =>
    exact (receives_take (clean event List.mem_cons_self)).bind fun d' =>
      ih fun other member => clean other (List.mem_cons_of_mem event member)

end Draft

/-! ## Templates -/

namespace Template

variable {s : Sentinel} {options : Options} {segments : List Text} {kinds : List SlotKind}

/-- A skeleton compiles if the events of its joined text ask for all its slots, in their order, and
no token stands in a wrong place. -/
theorem compile_of_pushes
    (clean : ∀ event ∈ Event.ofTokens (Token.read (s.join segments)), event.Clean s)
    (count : kinds.length = segments.length - 1)
    (all : (Event.ofTokens (Token.read (s.join segments))).flatMap (Event.pushes s options) =
      (List.range kinds.length).zip kinds) :
    ∃ template, (compile s options Event.source segments).result = .ok template ∧
      template.slots = kinds := by
  have length : ((List.range kinds.length).zip kinds).length = kinds.length := by simp
  have receives : Draft.Receives Draft.empty (Draft.takeAll s options Draft.empty
      (Event.ofTokens (Token.read (s.join segments)))) _ := Draft.receives_takeAll clean
  obtain ⟨d, taken, slots⟩ := receives (by
    rw [all, length, List.map_fst_zip (by simp), List.range_eq_range']
    rfl)
  rw [all, List.map_snd_zip (by simp)] at slots
  obtain ⟨added, others, adds⟩ :=
    Draft.adds_takeAll (fun _ => []) (Event.endOfInput_not_mem _) taken
  have even : d.chunks.length = d.slots.length := adds.even rfl
  have parity : (d.chunks ++ [d.current]).length = d.slots.length + 1 := by
    rw [List.length_append, even]
    rfl
  have ended : Draft.takeAll s options Draft.empty (Event.source (s.join segments)).events =
      .ok { d with current := [], chunks := d.chunks ++ [d.current] } := by
    show Draft.takeAll s options Draft.empty
      (Event.ofTokens (Token.read (s.join segments)) ++ [.endOfInput]) = _
    rw [Draft.takeAll_append, taken]
    rfl
  have complete : d.slots.length = segments.length - 1 := by
    rw [slots, ← count]
    rfl
  refine ⟨⟨d.chunks ++ [d.current], d.slots, parity⟩, ?_, slots⟩
  show (ofReport s options (segments.length - 1) (Event.source (s.join segments))).result = _
  rw [ofReport, ended]
  simp only [Event.source, ofDraft, complete, if_true, ofParts?, parity, dif_pos]

end Template

end HtmlTemplate

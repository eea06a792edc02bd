import HtmlTemplate.Proofs.Template.Receives

/-!
# Slots and the markers they come from

Any source may report any events in any order. A draft that has taken them without an error has
recognised in them exactly the slots after its own, one after the other, and has a chunk more for
each of them and for each end of the input (`Draft.Recognises`). A template has one chunk more than
slots, so it is made only of events that carry each marker of the skeleton once, in order, and that
end once (`Template.compile_recognises`).
-/

namespace HtmlTemplate

namespace Draft

variable {s : Sentinel} {options : Options} {d d' d'' : Draft} {pairs more : List (Nat × SlotKind)}
  {ends others : Nat}

/-- What a draft has when it has recognised these slots in its events, and this many ends. -/
structure Recognises (d d' : Draft) (pairs : List (Nat × SlotKind)) (ends : Nat) : Prop where
  next : pairs.map Prod.fst = List.range' d.slots.length pairs.length
  slots : d'.slots = d.slots ++ pairs.map Prod.snd
  chunks : d'.chunks.length = d.chunks.length + pairs.length + ends

theorem Recognises.nothing (slots : d'.slots = d.slots) (chunks : d'.chunks = d.chunks) :
    Recognises d d' [] 0 :=
  ⟨rfl, by rw [slots, List.map_nil, List.append_nil], by rw [chunks]; rfl⟩

theorem Recognises.trans (h : Recognises d d' pairs ends) (h' : Recognises d' d'' more others) :
    Recognises d d'' (pairs ++ more) (ends + others) := by
  have count : d'.slots.length = d.slots.length + pairs.length := by
    rw [h.slots, List.length_append, List.length_map]
  refine ⟨?_, ?_, ?_⟩
  · rw [List.map_append, List.length_append, ← List.range'_append_1, h.next, h'.next, count]
  · rw [h'.slots, h.slots, List.append_assoc, List.map_append]
  · rw [h'.chunks, h.chunks, List.length_append]
    omega

/-- What is written before and after changes nothing. -/
theorem Recognises.of_eq {e e' : Draft} (h : Recognises e e' pairs ends)
    (slots : e.slots = d.slots) (chunks : e.chunks = d.chunks)
    (slots' : d'.slots = e'.slots) (chunks' : d'.chunks = e'.chunks) :
    Recognises d d' pairs ends := by
  refine ⟨?_, ?_, ?_⟩
  · rw [← slots, h.next]
  · rw [slots', h.slots, slots]
  · rw [chunks', h.chunks, chunks]

theorem recognises_pushSlot {slot : Nat} {kind : SlotKind} (h : d.pushSlot slot kind = .ok d') :
    Recognises d d' [(slot, kind)] 0 := by
  unfold pushSlot at h
  split at h
  · rename_i next
    cases h
    exact ⟨congrArg (fun n => [n]) next, rfl, List.length_append⟩
  · cases h

/-! ## Start tags -/

theorem recognises_pushAttribute {slot : Nat} {name : Text}
    (h : pushAttribute options d slot name = .ok d') :
    Recognises d d' [(slot, attributeKind options name)] 0 := by
  unfold pushAttribute at h
  split at h
  · rename_i kind same
    rw [same]
    exact recognises_pushSlot h
  · obtain ⟨pushed, found, same⟩ := bind_eq_ok h
    cases same
    exact (recognises_pushSlot found).of_eq rfl rfl rfl rfl

theorem recognises_pushAttributes {entries : List (Nat × Text)}
    (h : pushAttributes options d entries = .ok d') :
    Recognises d d' (entries.map fun entry => (entry.1, attributeKind options entry.2)) 0 := by
  induction entries generalizing d with
  | nil =>
    cases h
    exact .nothing rfl rfl
  | cons entry rest ih =>
    obtain ⟨first, found, later⟩ := bind_eq_ok h
    exact (recognises_pushAttribute found).trans (ih later)

/-- Literal attributes are written only if no token stands in a wrong place. -/
theorem clean_of_writeLiterals {attributes : List Attribute} {entries : List (Nat × Text)}
    (h : writeLiterals s d attributes = .ok (d', entries)) :
    (∀ a ∈ attributes, s.firstSlotIn? a.name = none ∧
      (s.slotOf? a.value = none → s.firstSlotIn? a.value = none)) ∧
      entries = slotted s attributes ∧ Recognises d d' [] 0 := by
  induction attributes generalizing d entries with
  | nil =>
    cases h
    exact ⟨fun _ member => absurd member List.not_mem_nil, rfl, .nothing rfl rfl⟩
  | cons a rest ih =>
    rw [writeLiterals] at h
    rw [List.forall_mem_cons, slotted]
    split at h
    · cases h
    · rename_i named
      split at h
      · rename_i slot found
        obtain ⟨⟨written, later⟩, after, same⟩ := bind_eq_ok h
        cases same
        obtain ⟨clean, all, recognises⟩ := ih after
        refine ⟨⟨⟨named, fun none => ?_⟩, clean⟩, by rw [all, found], recognises⟩
        rw [found] at none
        cases none
      · cases h
      · rename_i found value
        obtain ⟨clean, all, recognises⟩ := ih h
        exact ⟨⟨⟨named, fun _ => value⟩, clean⟩, by rw [all, found],
          recognises.of_eq rfl rfl rfl rfl⟩

theorem recognises_openTag {name : Text} {attributes : List Attribute}
    (h : openTag s options d name attributes = .ok d') :
    Event.Clean s (.openTag name attributes) ∧
      Recognises d d' (Event.pushes s options (.openTag name attributes)) 0 := by
  unfold openTag at h
  split at h
  · cases h
  · rename_i named
    obtain ⟨⟨written, entries⟩, found, later⟩ := bind_eq_ok h
    obtain ⟨pushed, attributes, same⟩ := bind_eq_ok later
    obtain ⟨clean, rfl, literals⟩ := clean_of_writeLiterals found
    refine ⟨⟨named, clean⟩, ?_⟩
    have slots :=
      (literals.trans (recognises_pushAttributes attributes)).of_eq (d := d) rfl rfl rfl rfl
    cases same
    split
    · exact slots.of_eq rfl rfl rfl rfl
    · exact slots.of_eq rfl rfl rfl rfl

/-! ## Other events -/

theorem recognises_closeTag {name : Text} (h : closeTag s d name = .ok d') :
    Event.Clean s (.closeTag name) ∧ Recognises d d' [] 0 := by
  unfold closeTag at h
  split at h
  · cases h
  · rename_i named
    split at h
    · cases h
      exact ⟨named, .nothing rfl rfl⟩
    · cases h
      exact ⟨named, .nothing rfl rfl⟩

theorem recognises_pieces {parts : List Sentinel.Piece} (h : pieces options d parts = .ok d') :
    Recognises d d'
      ((parts.filterMap Sentinel.Piece.slot?).map fun slot => (slot, .content)) 0 := by
  induction parts generalizing d with
  | nil =>
    cases h
    exact .nothing rfl rfl
  | cons piece rest ih =>
    cases piece with
    | literal text => exact (ih h).of_eq rfl rfl rfl rfl
    | slot slot =>
      obtain ⟨first, found, later⟩ := bind_eq_ok h
      exact (recognises_pushSlot found).trans (ih later)

theorem chunks_plainText (options : Options) (d : Draft) (content : Text) :
    (plainText options d content).chunks = d.chunks := by
  unfold plainText minify
  split
  · split <;> rfl
  · split
    · split <;> rfl
    · rfl

theorem recognises_text {content : Text} (h : text s options d content = .ok d') :
    Recognises d d' (Event.pushes s options (.text content)) 0 := by
  unfold text at h
  split at h
  · rename_i piece single
    cases h
    rw [Event.pushes, Sentinel.slotsOf_eq_nil single]
    exact .nothing (slots_plainText options d content) (chunks_plainText options d content)
  · exact recognises_pieces h

theorem recognises_comment {data : Text} (h : comment s d data = .ok d') :
    Event.Clean s (.comment data) ∧ Recognises d d' (Event.pushes s options (.comment data)) 0 := by
  unfold comment at h
  rw [Event.pushes, Event.Clean]
  split at h
  · rename_i slot found
    rw [found]
    exact ⟨fun none => absurd none (by simp), recognises_pushSlot h⟩
  · cases h
  · rename_i found none
    cases h
    rw [found]
    exact ⟨fun _ => none, .nothing rfl rfl⟩

/-- A draft takes an event only if no token stands in it where it must not and if the slots it asks
for are the next ones. -/
theorem recognises_take {event : Event} (h : take s options d event = .ok d') :
    event.Clean s ∧ Recognises d d' (event.pushes s options) ([event].count .endOfInput) := by
  cases event with
  | openTag name attributes => exact recognises_openTag h
  | closeTag name => exact recognises_closeTag h
  | text content => exact ⟨trivial, recognises_text h⟩
  | comment data => exact recognises_comment h
  | endOfInput =>
    cases h
    exact ⟨trivial, rfl, (List.append_nil _).symm, List.length_append⟩
  | _ =>
    cases h
    exact ⟨trivial, .nothing rfl rfl⟩

theorem recognises_takeAll {events : List Event} (h : takeAll s options d events = .ok d') :
    (∀ event ∈ events, event.Clean s) ∧
      Recognises d d' (events.flatMap (Event.pushes s options)) (events.count .endOfInput) := by
  induction events generalizing d with
  | nil =>
    cases h
    exact ⟨fun _ member => absurd member List.not_mem_nil, .nothing rfl rfl⟩
  | cons event rest ih =>
    obtain ⟨first, found, later⟩ := bind_eq_ok h
    obtain ⟨clean, here⟩ := recognises_take found
    obtain ⟨cleans, there⟩ := ih later
    have both := here.trans there
    rw [← List.count_append, List.singleton_append, ← List.flatMap_cons] at both
    exact ⟨List.forall_mem_cons.mpr ⟨clean, cleans⟩, both⟩

end Draft

/-! ## Templates -/

namespace EventReport

variable (s : Sentinel) (options : Options)

/-- The slots that the events of a report carry markers of, with what they mean. -/
def recognised (report : EventReport) : List (Nat × SlotKind) :=
  report.events.flatMap (Event.pushes s options)

/-- A report in line with a skeleton of `expected` slots: nothing went wrong in it, it has the
marker of each slot once and in order, and it ends once. -/
structure InLine (expected : Nat) (report : EventReport) : Prop where
  complete : report.failure = none
  clean : ∀ event ∈ report.events, event.Clean s
  markers : (report.recognised s options).map Prod.fst = List.range expected
  ends : report.events.count .endOfInput = 1

end EventReport

namespace Template

variable {s : Sentinel} {options : Options} {report : EventReport} {expected : Nat}
  {template : Template}

/-- What the report of a compiled skeleton was. -/
theorem recognised_of_ofReport
    (h : (ofReport s options expected report).result = .ok template) :
    report.InLine s options expected ∧ template.slots.length = expected ∧
      report.recognised s options = (List.range expected).zip template.slots := by
  unfold ofReport at h
  split at h
  · cases h
  · rename_i d taken
    obtain ⟨clean, recognises⟩ := Draft.recognises_takeAll taken
    split at h
    · cases h
    · rename_i complete
      unfold ofDraft at h
      split at h
      · rename_i count
        simp only at h
        split at h
        · rename_i made fits
          cases h
          obtain ⟨parity, same⟩ := Option.dite_none_right_eq_some.mp fits
          cases same
          have slots : d.slots = (report.recognised s options).map Prod.snd := recognises.slots
          have length : (report.recognised s options).length = expected := by
            rw [← count, slots, List.length_map]
          have markers : (report.recognised s options).map Prod.fst = List.range expected := by
            rw [List.range_eq_range', ← length]
            exact recognises.next
          have chunks : d.chunks.length = 0 + (report.recognised s options).length +
              report.events.count .endOfInput := recognises.chunks
          refine ⟨⟨complete, clean, markers, by omega⟩, count, ?_⟩
          exact List.zip_of_prod markers slots.symm
        · cases h
      · cases h

/-- A report in line with the skeleton makes a template. -/
theorem exists_ofReport (inLine : report.InLine s options expected) :
    ∃ template, (ofReport s options expected report).result = .ok template := by
  have length : (report.recognised s options).length = expected := by
    rw [← List.length_map Prod.fst, inLine.markers, List.length_range]
  have receives : Draft.Receives Draft.empty (Draft.takeAll s options Draft.empty report.events)
      (report.recognised s options) := Draft.receives_takeAll inLine.clean
  obtain ⟨d, taken, slots⟩ := receives (by
    rw [inLine.markers, length, List.range_eq_range']
    rfl)
  have recognises := (Draft.recognises_takeAll taken).2
  have count : d.slots.length = expected := by
    rw [slots, ← length]
    exact List.length_map _
  have chunks : d.chunks.length = 0 + (report.recognised s options).length +
      report.events.count .endOfInput := recognises.chunks
  have parity : d.chunks.length = d.slots.length + 1 := by
    rw [chunks, inLine.ends, length, count]
    omega
  refine ⟨⟨d.chunks, d.slots, parity⟩, ?_⟩
  rw [ofReport, taken]
  simp only [inLine.complete, ofDraft, count, if_true, ofParts?, parity, dif_pos]

/-- The events of any source make a template exactly if they are in line with the skeleton. -/
theorem exists_compile_iff (s : Sentinel) (options : Options) (source : EventSource)
    (segments : List Text) :
    (∃ template, (compile s options source segments).result = .ok template) ↔
      (source (s.join segments)).InLine s options (segments.length - 1) :=
  ⟨fun ⟨_, h⟩ => (recognised_of_ofReport h).1, exists_ofReport⟩

/-- For every source of events, the slots of a template line up with the markers of the skeleton. A
template of a skeleton with `n` slots has just these and one chunk more, and the report it was made
of ends once and carries the markers of the slots 0, 1, … in this order, each once and with the kind
that the slot has. All other reports are answered with an error. -/
theorem compile_recognises (s : Sentinel) (options : Options) (source : EventSource)
    (segments : List Text) (n : Nat) (count : segments.length = n + 1) :
    (∀ template, (compile s options source segments).result = .ok template →
      template.slots.length = n ∧ template.chunks.length = n + 1 ∧
        (source (s.join segments)).events.count .endOfInput = 1 ∧
        (source (s.join segments)).recognised s options = (List.range n).zip template.slots) ∧
    (((source (s.join segments)).recognised s options).map Prod.fst ≠ List.range n ∨
        (source (s.join segments)).events.count .endOfInput ≠ 1 →
      ∃ error, (compile s options source segments).result = .error error) := by
  have expected : segments.length - 1 = n := by omega
  constructor
  · intro template h
    have made : (ofReport s options (segments.length - 1) (source (s.join segments))).result =
        .ok template := h
    rw [expected] at made
    obtain ⟨inLine, slots, recognised⟩ := recognised_of_ofReport made
    exact ⟨slots, by rw [template.parity, slots], inLine.ends, recognised⟩
  · intro other
    cases result : (compile s options source segments).result with
    | error error => exact ⟨error, rfl⟩
    | ok template =>
      have inLine := (exists_compile_iff s options source segments).mp ⟨template, result⟩
      rw [expected] at inLine
      exact absurd other (not_or.mpr ⟨not_not.mpr inLine.markers, not_not.mpr inLine.ends⟩)

/-- A tag may name its slots in any order; a marker that comes again is an error. -/
theorem compile_recognises_tag :
    (compile simplest {} (fun _ => ⟨[.openTag ['p'] [⟨['i', 'd'], simplest.attributeMarker 1⟩,
        ⟨['o', 'n', 'x'], simplest.attributeMarker 0⟩], .endOfInput], none⟩) [[], [], []]).result =
      .ok ⟨["<p onx=\"".toList, "\" id=\"".toList, "\">".toList], [.event, .generic], rfl⟩ ∧
    EventReport.recognised simplest {} ⟨[.openTag ['p'] [⟨['i', 'd'], simplest.attributeMarker 1⟩,
        ⟨['o', 'n', 'x'], simplest.attributeMarker 0⟩], .endOfInput], none⟩ =
      [(0, .event), (1, .generic)] ∧
    ∃ error, (compile simplest {} (fun _ => ⟨[.comment (simplest.attributeMarker 0),
      .comment (simplest.attributeMarker 0), .endOfInput], none⟩) [[], [], []]).result =
        .error error := by
  have compiled : (compile simplest {} (fun _ => ⟨[.openTag ['p']
      [⟨['i', 'd'], simplest.attributeMarker 1⟩, ⟨['o', 'n', 'x'], simplest.attributeMarker 0⟩],
      .endOfInput], none⟩) [[], [], []]).result =
      .ok ⟨["<p onx=\"".toList, "\" id=\"".toList, "\">".toList], [.event, .generic], rfl⟩ := by
    decide
  exact ⟨compiled, ((compile_recognises simplest {} _ [[], [], []] 2 rfl).1 _ compiled).2.2.2,
    (compile_recognises simplest {} _ [[], [], []] 2 rfl).2 (.inl (by decide))⟩

end Template

end HtmlTemplate

import HtmlTemplate.Proofs.Markup.Trail
import HtmlTemplate.Template.Compile
import Mathlib.Data.List.Perm.Basic

/-!
# The slots of a draft

Which slots an event asks for can be told without making a draft of it, and so can which slots a
datum of the markup is read as. A draft that takes events has their slots, each once
(`pushed_takeAll`), so the data of a skeleton that compiles are read as all of its slots
(`perm_of_compile`).
-/

namespace HtmlTemplate

namespace Sentinel

/-- The slot of a piece that is one. -/
def Piece.slot? : Piece → Option Nat
  | .literal _ => none
  | .slot n => some n

/-- The slots of a text. -/
def slotsOf (s : Sentinel) (content : Text) : List Nat := (s.split content).filterMap Piece.slot?

theorem splitWithin_eq_cons (s : Sentinel) (fuel : Nat) (content : Text) :
    ∃ text parts, s.splitWithin fuel content = .literal text :: parts := by
  cases fuel with
  | zero => exact ⟨_, _, rfl⟩
  | succ fuel =>
    rw [splitWithin]
    split
    · exact ⟨_, _, rfl⟩
    · split <;> exact ⟨_, _, rfl⟩

/-- A text of a single piece has no slots. -/
theorem slotsOf_eq_nil {s : Sentinel} {content : Text} {piece : Piece}
    (h : s.split content = [piece]) : s.slotsOf content = [] := by
  obtain ⟨text, parts, same⟩ := s.splitWithin_eq_cons content.length content
  have both : [piece] = .literal text :: parts := h.symm.trans same
  rw [slotsOf, h, (List.cons.inj both).1]
  rfl

end Sentinel

/-- The slots that an event asks for. -/
def Event.slots (s : Sentinel) : Event → List Nat
  | .openTag _ attributes => attributes.flatMap fun a => (s.slotOf? a.value).toList
  | .text content => s.slotsOf content
  | .comment data => (s.slotOf? data).toList
  | _ => []

/-- The slots that a datum is read as. -/
def Datum.slots (s : Sentinel) : Datum → List Nat
  | .value body => (s.slotOf? body).toList
  | .comment body => (Event.ofComment body).flatMap (Event.slots s)
  | .text body => s.slotsOf body

/-! ## Events and data -/

section Events

variable {s : Sentinel}

theorem flatMap_slots_values (s : Sentinel) (attributes : List Attribute) :
    (attributes.map fun a => Datum.value a.value).flatMap (Datum.slots s) =
      attributes.flatMap fun a => (s.slotOf? a.value).toList := by
  rw [List.flatMap_map]
  rfl

/-- Adjacent characters are one text. -/
theorem Event.ofTokens_characters (c : Char) (r : Text) {rest : List Token}
    (other : ∀ d, rest.head? ≠ some (.character d)) :
    ofTokens (Token.characters (c :: r) ++ rest) = text (c :: r) :: ofTokens rest := by
  induction r generalizing c with
  | nil =>
    cases rest with
    | nil => rfl
    | cons token rest =>
      show ofTokens (.character c :: token :: rest) = _
      rw [ofTokens]
      · rfl
      · intro x d others _ same
        exact other d (by rw [(List.cons.inj same).1]; rfl)
  | cons d r ih =>
    show ofTokens (.character c :: .character d :: (Token.characters r ++ rest)) = _
    rw [ofTokens, show .character d :: (Token.characters r ++ rest) =
      Token.characters (d :: r) ++ rest from rfl, ih d]

theorem flatMap_slots_ofTokens_characters (r : Text) (rest : List Token)
    (other : ∀ d, rest.head? ≠ some (.character d)) :
    (Event.ofTokens (Token.characters r ++ rest)).flatMap (Event.slots s) =
      s.slotsOf r ++ (Event.ofTokens rest).flatMap (Event.slots s) := by
  cases r with
  | nil => rfl
  | cons c r =>
    rw [Event.ofTokens_characters c r other, List.flatMap_cons]
    rfl

/-- A mark ends the text before it and tells of its data. -/
theorem flatMap_slots_ofTokens_cons (g : Gathered) {token : Token} (rest : List Token)
    (other : ∀ d, token ≠ .character d) :
    (g.add token).run = [] ∧ (g.add token).closed.flatMap (Datum.slots s) ++
        (Event.ofTokens rest).flatMap (Event.slots s) =
      g.whole.flatMap (Datum.slots s) ++
        (Event.ofTokens (token :: rest)).flatMap (Event.slots s) := by
  have cut : Event.ofTokens (token :: rest) = Event.ofMark token ++ Event.ofTokens rest := by
    rw [Event.ofTokens]
    intro c d _ same
    exact absurd same (other c)
  rw [cut]
  cases token with
  | character c => exact absurd rfl (other c)
  | startTag name attributes selfClosing =>
    refine ⟨rfl, ?_⟩
    have last : (if selfClosing then [Event.closeTag name] else []).flatMap (Event.slots s) =
        [] := by
      cases selfClosing <;> rfl
    rw [Event.ofMark, List.cons_append, List.flatMap_cons, List.flatMap_append, last,
      Gathered.add, List.flatMap_append, flatMap_slots_values]
    simp only [List.append_assoc, List.nil_append]
    rfl
  | endTag name => exact ⟨rfl, rfl⟩
  | comment data =>
    refine ⟨rfl, ?_⟩
    rw [Event.ofMark, Gathered.add, List.flatMap_append, List.flatMap_append, List.append_assoc,
      List.flatMap_singleton]
    rfl
  | doctype name => exact ⟨rfl, rfl⟩

/-- The slots of the events of tokens are those of the data that the tokens tell of. -/
theorem flatMap_slots_addAll (g : Gathered) (tokens : List Token) :
    (g.addAll tokens).whole.flatMap (Datum.slots s) = g.closed.flatMap (Datum.slots s) ++
      (Event.ofTokens (Token.characters g.run ++ tokens)).flatMap (Event.slots s) := by
  induction tokens generalizing g with
  | nil =>
    rw [flatMap_slots_ofTokens_characters _ [] (fun d same => by cases same)]
    simp only [Gathered.addAll, List.foldl_nil, Gathered.whole, List.flatMap_append,
      List.flatMap_singleton]
    rw [show Event.ofTokens [] = [] from rfl, List.flatMap_nil, List.append_nil]
    rfl
  | cons token rest ih =>
    have step : (g.addAll (token :: rest)).whole = ((g.add token).addAll rest).whole := rfl
    rw [step, ih]
    by_cases isCharacter : ∃ c, token = .character c
    · obtain ⟨c, rfl⟩ := isCharacter
      rw [Gathered.add, Token.characters, List.map_append, List.append_assoc]
      rfl
    · have other : ∀ d, token ≠ .character d := fun d same => isCharacter ⟨d, same⟩
      obtain ⟨run, same⟩ := flatMap_slots_ofTokens_cons (s := s) g rest other
      rw [run, show Token.characters [] ++ rest = rest from rfl, same,
        flatMap_slots_ofTokens_characters g.run (token :: rest)
          (fun d first => other d (Option.some.inj first)),
        Gathered.whole, List.flatMap_append, List.flatMap_singleton, List.append_assoc]
      rfl

end Events

/-! ## Drafts -/

namespace Draft

variable {s : Sentinel} {options : Options} {d d' d'' : Draft}

/-- The slots that a draft gets are the next ones, in some order. -/
structure Pushed (d d' : Draft) (slots : List Nat) : Prop where
  next : slots.Perm (List.range' d.slots.length slots.length)
  count : d'.slots.length = d.slots.length + slots.length

theorem Pushed.none (h : d'.slots = d.slots) : Pushed d d' [] :=
  ⟨.refl _, by rw [h]; rfl⟩

theorem Pushed.of_slots {slots : List Nat} (h : Pushed d' d'' slots) (same : d'.slots = d.slots) :
    Pushed d d'' slots := ⟨same ▸ h.next, same ▸ h.count⟩

theorem Pushed.trans {slots others : List Nat} (h : Pushed d d' slots)
    (h' : Pushed d' d'' others) : Pushed d d'' (slots ++ others) := by
  refine ⟨?_, ?_⟩
  · rw [List.length_append, ← List.range'_append_1]
    refine h.next.append ?_
    rw [← h.count]
    exact h'.next
  · rw [h'.count, h.count, List.length_append, Nat.add_assoc]

theorem Pushed.of_perm {slots others : List Nat} (h : Pushed d d' slots)
    (perm : others.Perm slots) : Pushed d d' others := by
  refine ⟨?_, ?_⟩
  · rw [perm.length_eq]
    exact perm.trans h.next
  · rw [perm.length_eq]
    exact h.count

theorem pushed_pushSlot {slot : Nat} {kind : SlotKind} (h : d.pushSlot slot kind = .ok d') :
    Pushed d d' [slot] := by
  rw [pushSlot] at h
  split at h
  · rename_i next
    cases h
    rw [next]
    exact ⟨.refl _, by rw [List.length_append]; rfl⟩
  · cases h

theorem bind_eq_ok {α β : Type} {x : Except Failure α} {f : α → Except Failure β} {b : β}
    (h : (x >>= f) = .ok b) : ∃ a, x = .ok a ∧ f a = .ok b := by
  cases x with
  | error failure => cases h
  | ok a => exact ⟨a, rfl, h⟩

theorem pushed_pushAttribute {slot : Nat} {name : Text}
    (h : pushAttribute options d slot name = .ok d') : Pushed d d' [slot] := by
  unfold pushAttribute at h
  split at h
  · exact pushed_pushSlot h
  · obtain ⟨pushed, found, same⟩ := bind_eq_ok h
    cases same
    have step : Pushed (d.write (attributeOpening name)) pushed [slot] := pushed_pushSlot found
    have all : Pushed d pushed [slot] := step.of_slots rfl
    exact all.trans (.none rfl)

theorem pushed_pushAttributes {slotted : List (Nat × Text)}
    (h : pushAttributes options d slotted = .ok d') : Pushed d d' (slotted.map Prod.fst) := by
  induction slotted generalizing d with
  | nil =>
    cases h
    exact .none rfl
  | cons entry rest ih =>
    obtain ⟨first, found, later⟩ := bind_eq_ok h
    exact (pushed_pushAttribute found).trans (ih later)

theorem insertSlotted_perm (entry : Nat × Text) (l : List (Nat × Text)) :
    (insertSlotted entry l).Perm (entry :: l) := by
  induction l with
  | nil => exact .refl _
  | cons first rest ih =>
    rw [insertSlotted]
    split
    · exact .refl _
    · exact (ih.cons first).trans (.swap entry first rest)

theorem writeLiterals_eq_ok {attributes : List Attribute} {slotted : List (Nat × Text)}
    (h : writeLiterals s d attributes = .ok (d', slotted)) :
    d'.slots = d.slots ∧ (slotted.map Prod.fst).Perm
      (attributes.flatMap fun a => (s.slotOf? a.value).toList) := by
  induction attributes generalizing d slotted with
  | nil =>
    cases h
    exact ⟨rfl, .refl _⟩
  | cons a rest ih =>
    rw [writeLiterals] at h
    rw [List.flatMap_cons]
    split at h
    · cases h
    · split at h
      · rename_i slot found
        obtain ⟨⟨written, others⟩, later, same⟩ := bind_eq_ok h
        cases same
        obtain ⟨slots, perm⟩ := ih later
        refine ⟨slots, ?_⟩
        rw [found]
        exact ((insertSlotted_perm _ _).map Prod.fst).trans (perm.cons slot)
      · cases h
      · rename_i found _
        obtain ⟨slots, perm⟩ := ih h
        rw [found]
        exact ⟨slots, perm⟩

theorem pushed_openTag {name : Text} {attributes : List Attribute}
    (h : openTag s options d name attributes = .ok d') :
    Pushed d d' (Event.slots s (.openTag name attributes)) := by
  unfold openTag at h
  split at h
  · cases h
  · obtain ⟨⟨written, slotted⟩, found, later⟩ := bind_eq_ok h
    obtain ⟨pushed, attributes, same⟩ := bind_eq_ok later
    obtain ⟨slots, perm⟩ := writeLiterals_eq_ok found
    have all : Pushed d pushed (slotted.map Prod.fst) :=
      (pushed_pushAttributes attributes).of_slots slots
    have last : d'.slots = pushed.slots := by
      cases same
      split <;> rfl
    have whole := all.trans (.none last)
    rw [List.append_nil] at whole
    exact whole.of_perm perm.symm

theorem pushed_closeTag {name : Text} (h : closeTag s d name = .ok d') : Pushed d d' [] := by
  unfold closeTag at h
  split at h
  · cases h
  · split at h <;> cases h <;> exact .none rfl

theorem pushed_pieces {parts : List Sentinel.Piece} (h : pieces options d parts = .ok d') :
    Pushed d d' (parts.filterMap Sentinel.Piece.slot?) := by
  induction parts generalizing d with
  | nil =>
    cases h
    exact .none rfl
  | cons piece rest ih =>
    cases piece with
    | literal text =>
      have later : Pushed (d.write (literalText options d text)) d' _ := ih h
      exact later.of_slots rfl
    | slot n =>
      obtain ⟨first, found, later⟩ := bind_eq_ok h
      have step : Pushed d d' ([n] ++ _) := (pushed_pushSlot found).trans (ih later)
      exact step

theorem slots_plainText (options : Options) (d : Draft) (content : Text) :
    (plainText options d content).slots = d.slots := by
  have minified : ∀ minifier language, (d.minify minifier language content).slots = d.slots := by
    intro minifier language
    unfold minify
    split <;> rfl
  unfold plainText
  split
  · exact minified _ _
  · split
    · exact minified _ _
    · rfl

theorem pushed_text {content : Text} (h : text s options d content = .ok d') :
    Pushed d d' (s.slotsOf content) := by
  unfold text at h
  split at h
  · rename_i single
    cases h
    rw [Sentinel.slotsOf_eq_nil single]
    exact .none (slots_plainText options d content)
  · exact pushed_pieces h

theorem pushed_comment {data : Text} (h : comment s d data = .ok d') :
    Pushed d d' (s.slotOf? data).toList := by
  unfold comment at h
  split at h
  · rename_i slot found
    rw [found]
    exact pushed_pushSlot h
  · cases h
  · rename_i found _
    cases h
    rw [found]
    exact .none rfl

theorem pushed_take {event : Event} (h : take s options d event = .ok d') :
    Pushed d d' (event.slots s) := by
  cases event with
  | openTag name attributes => exact pushed_openTag h
  | closeTag name => exact pushed_closeTag h
  | text content => exact pushed_text h
  | comment data => exact pushed_comment h
  | sectionStart => cases h; exact .none rfl
  | sectionEnd => cases h; exact .none rfl
  | instruction name data => cases h; exact .none rfl
  | doctype name => cases h; exact .none rfl
  | endOfInput => cases h; exact .none rfl

/-- A draft that takes events gets their slots. -/
theorem pushed_takeAll {events : List Event} (h : takeAll s options d events = .ok d') :
    Pushed d d' (events.flatMap (Event.slots s)) := by
  induction events generalizing d with
  | nil =>
    cases h
    exact .none rfl
  | cons event rest ih =>
    obtain ⟨first, found, later⟩ := bind_eq_ok h
    rw [List.flatMap_cons]
    exact (pushed_take found).trans (ih later)

end Draft

/-! ## Templates -/

namespace Template

variable {s : Sentinel} {options : Options} {segments : List Text} {template : Template}

/-- The data of the tokens of a skeleton that compiles. -/
def dataOf (s : Sentinel) (segments : List Text) : List Datum :=
  ((⟨[], []⟩ : Gathered).addAll (Token.read (s.join segments))).whole

theorem takeAll_of_compile (h : (compile s options Event.source segments).result = .ok template) :
    ∃ d, Draft.takeAll s options Draft.empty (Event.read (s.join segments)) = .ok d ∧
      d.slots.length = segments.length - 1 := by
  have report : (ofReport s options (segments.length - 1)
      (Event.source (s.join segments))).result = .ok template := h
  unfold ofReport at report
  split at report
  · cases report
  · rename_i d taken
    refine ⟨d, taken, ?_⟩
    have draft : (ofDraft (segments.length - 1) d).result = .ok template := report
    unfold ofDraft at draft
    split at draft
    · rename_i count
      exact count
    · cases draft

/-- The data of a skeleton that compiles are read as each of its slots, once. -/
theorem perm_of_compile (h : (compile s options Event.source segments).result = .ok template) :
    ((dataOf s segments).flatMap (Datum.slots s)).Perm (List.range (segments.length - 1)) := by
  obtain ⟨d, taken, count⟩ := takeAll_of_compile h
  have pushed := Draft.pushed_takeAll taken
  have same : (dataOf s segments).flatMap (Datum.slots s) =
      (Event.read (s.join segments)).flatMap (Event.slots s) := by
    rw [dataOf, flatMap_slots_addAll, Event.read, List.flatMap_append]
    simp only [List.flatMap_nil, List.nil_append, List.flatMap_singleton]
    rw [show Event.slots s .endOfInput = [] from rfl, List.append_nil]
    rfl
  have length := pushed.count
  rw [count, show Draft.empty.slots.length = 0 from rfl, Nat.zero_add] at length
  rw [same, List.range_eq_range', length]
  exact pushed.next

end Template

end HtmlTemplate

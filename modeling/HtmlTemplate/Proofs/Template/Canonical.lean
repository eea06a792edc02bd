import HtmlTemplate.Proofs.Markup.Mapped
import HtmlTemplate.Proofs.Text
import HtmlTemplate.Template.Compile

/-!
# Ways to write a number

The number of a slot can be written with zeros in front. Of a value that is a marker a draft only
sees which slot it stands for, so skeletons whose markup differs in such zeros only are compiled to
the same template, with the same notes (`compile_congr`).
-/

namespace HtmlTemplate

namespace Sentinel

variable {s : Sentinel} {n : Nat}

/-- A value, with the number of the slot written in the plain way if it is a marker. -/
def canonical (s : Sentinel) (v : Text) : Text :=
  match s.slotOf? v with
  | some slot => s.attributeMarker slot
  | none => v

theorem slotOf?_append_digits {digits : Text} (some : digits ≠ [])
    (all : ∀ c ∈ digits, Text.isDigit c = true) (word : Text.decimalValue digits < Text.wordBound) :
    s.slotOf? (s.token ++ ':' :: digits) = Option.some (Text.decimalValue digits) := by
  have stripped : Text.strip? s.token (s.token ++ ':' :: digits) = Option.some (':' :: digits) :=
    Text.strip?_eq_some.mpr rfl
  rw [slotOf?, stripped, Option.bind_some]
  show Text.word? digits = _
  rw [Text.word?, if_pos ⟨some, List.all_eq_true.mpr all, word⟩]

theorem slotOf?_attributeMarker (word : n < Text.wordBound) :
    s.slotOf? (s.attributeMarker n) = some n := by
  have value := Text.decimalValue_ofNat n
  have read := slotOf?_append_digits (s := s) (Text.ofNat_ne_nil n)
    (fun _ => Text.isDigit_of_mem_ofNat) (by rw [value]; exact word)
  rw [value] at read
  exact read

theorem lt_wordBound_of_slotOf? {v : Text} (h : s.slotOf? v = some n) : n < Text.wordBound := by
  obtain ⟨rest, _, number⟩ := Option.bind_eq_some_iff.mp h
  split at number
  · rw [Text.word?] at number
    split at number
    · rename_i fine
      rw [← Option.some.inj number]
      exact fine.2.2
    · cases number
  · cases number

theorem canonical_of_slotOf? {v : Text} (h : s.slotOf? v = some n) :
    s.canonical v = s.attributeMarker n := by
  rw [canonical, h]

theorem canonical_of_none {v : Text} (h : s.slotOf? v = none) : s.canonical v = v := by
  rw [canonical, h]

theorem slotOf?_canonical (s : Sentinel) (v : Text) : s.slotOf? (s.canonical v) = s.slotOf? v := by
  cases read : s.slotOf? v with
  | none => rw [canonical_of_none read, read]
  | some n => rw [canonical_of_slotOf? read, slotOf?_attributeMarker (lt_wordBound_of_slotOf? read)]

/-- Zeros after the number 0 leave it as it is. -/
theorem canonical_zeros (s : Sentinel) (count : Nat) :
    s.canonical (s.attributeMarker 0 ++ List.replicate count '0') =
      s.canonical (s.attributeMarker 0) := by
  have zeros : ∀ count, Text.decimalValue (List.replicate count '0') = 0 := by
    intro count
    induction count with
    | zero => rfl
    | succ count ih =>
      rw [List.replicate_succ, ← List.singleton_append, Text.decimalValue_append, ih]
      rfl
  have read : ∀ count, s.slotOf? (s.token ++ ':' :: List.replicate (count + 1) '0') = some 0 := by
    intro count
    have word : Text.decimalValue (List.replicate (count + 1) '0') < Text.wordBound := by
      rw [zeros]
      exact Nat.pow_pos (by decide)
    rw [slotOf?_append_digits (by simp) (fun c member => by
      rw [(List.mem_replicate.mp member).2]; rfl) word, zeros]
  have long : s.attributeMarker 0 ++ List.replicate count '0' =
      s.token ++ ':' :: List.replicate (count + 1) '0' := by
    rw [attributeMarker, List.append_assoc]
    rfl
  have plain : s.slotOf? (s.attributeMarker 0) = some 0 := read 0
  rw [canonical_of_slotOf? (long ▸ read count), canonical_of_slotOf? plain]

end Sentinel

namespace Draft

variable {s : Sentinel} {options : Options}

theorem writeLiterals_canonical (s : Sentinel) (d : Draft) (attributes : List Attribute) :
    writeLiterals s d (attributes.map (Attribute.mapValue s.canonical)) =
      writeLiterals s d attributes := by
  induction attributes generalizing d with
  | nil => rfl
  | cons a rest ih =>
    rw [List.map_cons, writeLiterals, writeLiterals]
    simp only [Attribute.mapValue]
    split
    · rfl
    · rw [Sentinel.slotOf?_canonical]
      cases read : s.slotOf? a.value with
      | some slot =>
        simp only
        rw [ih]
      | none =>
        rw [Sentinel.canonical_of_none read]
        cases s.firstSlotIn? a.value with
        | some slot => rfl
        | none => exact ih _

theorem take_canonical (s : Sentinel) (options : Options) (d : Draft) (event : Event) :
    take s options d (event.mapValues s.canonical) = take s options d event := by
  cases event with
  | openTag name attributes =>
    show openTag s options d name (attributes.map (Attribute.mapValue s.canonical)) =
      openTag s options d name attributes
    unfold openTag
    split
    · rfl
    · rw [writeLiterals_canonical]
  | _ => rfl

theorem takeAll_canonical (s : Sentinel) (options : Options) (d : Draft) (events : List Event) :
    takeAll s options d (events.map (Event.mapValues s.canonical)) =
      takeAll s options d events := by
  induction events generalizing d with
  | nil => rfl
  | cons event rest ih =>
    rw [List.map_cons, takeAll, takeAll, take_canonical]
    exact congrArg (take s options d event >>= ·) (funext ih)

end Draft

namespace Template

/-- Skeletons whose tokens differ in the way that numbers of slots are written are compiled
alike. -/
theorem compile_congr {s : Sentinel} {segments others : List Text} (options : Options)
    (count : segments.length = others.length)
    (same : (Token.read (s.join segments)).map (Token.mapValues s.canonical) =
      (Token.read (s.join others)).map (Token.mapValues s.canonical)) :
    compile s options Event.source segments = compile s options Event.source others := by
  have events : Draft.takeAll s options Draft.empty (Event.read (s.join segments)) =
      Draft.takeAll s options Draft.empty (Event.read (s.join others)) := by
    rw [← Draft.takeAll_canonical s options Draft.empty (Event.read (s.join segments)),
      ← Draft.takeAll_canonical s options Draft.empty (Event.read (s.join others)), Event.read,
      Event.read, List.map_append, List.map_append, ← Event.mapValues_ofTokens,
      ← Event.mapValues_ofTokens, same]
  unfold compile ofReport
  rw [count]
  simp only [Event.source, events]

end Template

end HtmlTemplate

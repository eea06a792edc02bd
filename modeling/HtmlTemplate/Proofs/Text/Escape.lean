import HtmlTemplate.Proofs.Output.Once
import HtmlTemplate.Proofs.Text.Bytes

/-!
# Escaping as a code

Escaping can be done on the bytes of a text: whatever lies between two bytes that are replaced is
copied in one piece. Only ASCII characters are replaced, so the pieces begin and end between
characters, and the result is the one of replacing character by character (`Text.replaceBytes_eq`).

A text can be had back from its escaped form, escaping goes part by part, and only a text with
nothing to escape is the same when it is escaped a second time (`Text.escape_reversible`).
-/

namespace HtmlTemplate

namespace Text

/-! ## Replacing bytes -/

/-- The characters that are replaced in attribute values, each with its reference. -/
def references : List (Char × Text) :=
  [('&', ['&', 'a', 'm', 'p', ';']), ('<', ['&', 'l', 't', ';']), ('>', ['&', 'g', 't', ';']),
    ('"', ['&', 'q', 'u', 'o', 't', ';']), ('\'', ['&', '#', '3', '9', ';'])]

/-- The characters that are replaced between tags, each with its reference. -/
def textReferences : List (Char × Text) := references.take 3

/-- What a table has for a byte. -/
def lookUp (table : List (Char × Text)) (b : UInt8) : Option Text :=
  (table.find? fun entry => entry.1.toUInt8 == b).map Prod.snd

/-- Goes through the bytes from position `i` on. The text from `start` on is not copied yet; it is
when something is replaced or the end is reached. Nothing comes of it if a part would be cut in the
middle of a character. -/
def copyFrom (replace? : UInt8 → Option Text) (s : Text) :
    List UInt8 → Nat → Nat → Text → Option Text
  | [], _, start, out => (sliceFrom? start s).map (out ++ ·)
  | b :: rest, i, start, out =>
    match replace? b with
    | none => copyFrom replace? s rest (i + 1) start out
    | some replacement =>
      (slice? start i s).bind fun part =>
        copyFrom replace? s rest (i + 1) (i + 1) (out ++ part ++ replacement)

/-- The text with bytes replaced. It is looked for a first one, and without one the text is
returned. -/
def replaceBytes (replace? : UInt8 → Option Text) (s : Text) : Option Text :=
  match (bytes s).findIdx? fun b => (replace? b).isSome with
  | none => some s
  | some first =>
    (slice? 0 first s).bind fun out => copyFrom replace? s ((bytes s).drop first) first first out

section Replacing

variable {replace? : UInt8 → Option Text} {s t : Text} {c : Char}

/-- What is written for a character, if it is replaced. -/
def replaced? (replace? : UInt8 → Option Text) (c : Char) : Option Text :=
  if isAscii c then replace? c.toUInt8 else none

/-- What is written for a character. -/
def written (replace? : UInt8 → Option Text) (c : Char) : Text := (replaced? replace? c).getD [c]

theorem flatMap_written (kept : ∀ c ∈ s, replaced? replace? c = none) :
    s.flatMap (written replace?) = s := by
  induction s with
  | nil => rfl
  | cons c s ih =>
    have first : written replace? c = [c] := by simp [written, kept c List.mem_cons_self]
    rw [List.flatMap_cons, first, ih fun d member => kept d (List.mem_cons_of_mem c member)]
    rfl

/-- A replaced character is one byte. -/
theorem utf8EncodeChar_of_replaced {replacement : Text}
    (h : replaced? replace? c = some replacement) :
    String.utf8EncodeChar c = [c.toUInt8] ∧ replace? c.toUInt8 = some replacement := by
  by_cases ascii : isAscii c = true
  · simp only [replaced?, ascii, if_true] at h
    exact ⟨utf8EncodeChar_of_isAscii ascii, h⟩
  · simp [replaced?, ascii] at h

variable (asciiOnly : ∀ b : UInt8, 128 ≤ b.toNat → replace? b = none)
include asciiOnly

/-- Of a character that is not replaced no byte is. -/
theorem replace?_of_mem {b : UInt8} (kept : replaced? replace? c = none)
    (member : b ∈ String.utf8EncodeChar c) : replace? b = none := by
  by_cases ascii : isAscii c = true
  · rw [utf8EncodeChar_of_isAscii ascii] at member
    rw [List.mem_singleton.mp member]
    simpa [replaced?, ascii] using kept
  · apply asciiOnly
    exact le_of_mem_utf8EncodeChar (by simpa using ascii) member

theorem replace?_of_mem_bytes {b : UInt8} (kept : ∀ c ∈ s, replaced? replace? c = none)
    (member : b ∈ bytes s) : replace? b = none := by
  obtain ⟨c, inside, member⟩ := List.mem_flatMap.mp member
  exact replace?_of_mem asciiOnly (kept c inside) member

omit asciiOnly in
theorem copyFrom_skip {skipped rest : List UInt8} {i start : Nat} {out : Text}
    (kept : ∀ b ∈ skipped, replace? b = none) :
    copyFrom replace? s (skipped ++ rest) i start out =
      copyFrom replace? s rest (i + skipped.length) start out := by
  induction skipped generalizing i with
  | nil => rfl
  | cons b skipped ih =>
    rw [List.cons_append, copyFrom, kept b List.mem_cons_self]
    simp only
    rw [ih fun b' member => kept b' (List.mem_cons_of_mem b member), List.length_cons]
    congr 1
    omega

/-- The text up to `start` is copied, what follows it up to `i` stays as it is, and the rest is
still to be gone through. -/
theorem copyFrom_eq (copied pending rest out : Text) :
    copyFrom replace? (copied ++ pending ++ rest) (bytes rest) (bytes (copied ++ pending)).length
        (bytes copied).length out =
      some (out ++ pending ++ rest.flatMap (written replace?)) := by
  induction rest generalizing copied pending out with
  | nil =>
    rw [bytes_nil, copyFrom, List.append_nil, sliceFrom?_append]
    simp
  | cons c rest ih =>
    have whole : copied ++ pending ++ c :: rest = copied ++ (pending ++ [c]) ++ rest := by simp
    cases found : replaced? replace? c with
    | none =>
      have size : (bytes (copied ++ pending)).length + (String.utf8EncodeChar c).length =
          (bytes (copied ++ (pending ++ [c]))).length := by
        simp [bytes_append, bytes_cons]
        omega
      rw [bytes_cons, copyFrom_skip fun b => replace?_of_mem asciiOnly found, size, whole,
        ih copied (pending ++ [c]) out]
      simp [written, found]
    | some replacement =>
      obtain ⟨single, replaced⟩ := utf8EncodeChar_of_replaced found
      have size : (bytes (copied ++ pending)).length + 1 =
          (bytes (copied ++ (pending ++ [c]))).length := by
        simp [bytes_append, bytes_cons, single]
        omega
      have later := ih (copied ++ (pending ++ [c])) [] (out ++ pending ++ replacement)
      rw [List.append_nil] at later
      rw [bytes_cons, single, List.singleton_append, copyFrom, replaced]
      simp only
      rw [slice?_append, Option.bind_some, size, whole, later]
      simp [written, found]

/-- Replacing bytes cuts the text between characters only, and it is replacing characters. -/
theorem replaceBytes_eq (s : Text) :
    replaceBytes replace? s = some (s.flatMap (written replace?)) := by
  obtain ⟨kept, rest, rfl, plain, begins⟩ := exists_front (fun c => (replaced? replace? c).isNone) s
  have plain : ∀ c ∈ kept, replaced? replace? c = none := by simpa using plain
  have skipped : (bytes kept).findIdx? (fun b => (replace? b).isSome) = none := by
    rw [List.findIdx?_eq_none_iff]
    intro b member
    rw [replace?_of_mem_bytes asciiOnly plain member]
    rfl
  cases rest with
  | nil => rw [List.append_nil, replaceBytes, skipped, flatMap_written plain]
  | cons c rest =>
    obtain ⟨replacement, found⟩ : ∃ replacement, replaced? replace? c = some replacement := by
      apply Option.isSome_iff_exists.mp
      simpa using begins c rfl
    obtain ⟨single, replaced⟩ := utf8EncodeChar_of_replaced found
    have first : (bytes (kept ++ c :: rest)).findIdx? (fun b => (replace? b).isSome) =
        some (bytes kept).length := by
      rw [bytes_append, List.findIdx?_append, skipped, bytes_cons, single]
      simp [List.findIdx?_cons, replaced]
    have left : (bytes (kept ++ c :: rest)).drop (bytes kept).length = bytes (c :: rest) := by
      rw [bytes_append, List.drop_left]
    have copied := copyFrom_eq asciiOnly kept [] (c :: rest) kept
    rw [List.append_nil] at copied
    rw [replaceBytes, first]
    simp only
    rw [slice?_first, Option.bind_some, left, copied, List.flatMap_append, flatMap_written plain]

end Replacing

/-! ## The two escapers -/

section Tables

variable {table : List (Char × Text)}

theorem toUInt8_beq {c d : Char} (left : isAscii c = true) (right : isAscii d = true) :
    (c.toUInt8 == d.toUInt8) = (c == d) := by
  rw [Bool.eq_iff_iff, beq_iff_eq, beq_iff_eq, ← UInt8.toNat_inj, toNat_toUInt8 left,
    toNat_toUInt8 right, Char.toNat_inj]

variable (ascii : ∀ entry ∈ table, isAscii entry.1 = true)
include ascii

theorem lookUp_of_le {b : UInt8} (large : 128 ≤ b.toNat) : lookUp table b = none := by
  rw [lookUp, Option.map_eq_none_iff, List.find?_eq_none]
  intro entry member same
  have plain := ascii entry member
  have small := lt_of_isAscii plain
  rw [← toNat_toUInt8 plain, beq_iff_eq.mp same] at small
  omega

/-- For a character, a table of ASCII characters has what stands beside it. -/
theorem replaced?_lookUp (c : Char) :
    replaced? (lookUp table) c = (table.find? fun entry => entry.1 == c).map Prod.snd := by
  by_cases plain : isAscii c = true
  · rw [replaced?, if_pos plain, lookUp]
    congr 1
    induction table with
    | nil => rfl
    | cons entry table ih =>
      rw [List.find?_cons, List.find?_cons, toUInt8_beq (ascii entry List.mem_cons_self) plain,
        ih fun e member => ascii e (List.mem_cons_of_mem entry member)]
  · rw [replaced?, if_neg plain, eq_comm, Option.map_eq_none_iff, List.find?_eq_none]
    intro entry member same
    apply plain
    rw [← beq_iff_eq.mp same]
    exact ascii entry member

theorem written_of_not_mem {c : Char} (other : c ∉ table.map Prod.fst) :
    written (lookUp table) c = [c] := by
  have none : (table.find? fun entry => entry.1 == c) = none := by
    rw [List.find?_eq_none]
    intro entry member same
    exact other (List.mem_map.mpr ⟨entry, member, beq_iff_eq.mp same⟩)
  rw [written, replaced?_lookUp ascii, none]
  rfl

end Tables

theorem isAscii_references : ∀ entry ∈ references, isAscii entry.1 = true :=
  List.all_iff_forall_prop.mp (by decide)

theorem isAscii_textReferences : ∀ entry ∈ textReferences, isAscii entry.1 = true :=
  fun entry member => isAscii_references entry (List.mem_of_mem_take member)

theorem written_references (c : Char) : written (lookUp references) c = escapeChar c := by
  by_cases special : c ∈ '&' :: marks
  · rcases cases_of_special special with rfl | rfl | rfl | rfl | rfl <;> rfl
  · rw [escapeChar_eq_self special]
    exact written_of_not_mem isAscii_references special

theorem written_textReferences (c : Char) :
    written (lookUp textReferences) c = escapeTextChar c := by
  by_cases special : c ∈ ['&', '<', '>']
  · have cases : c = '&' ∨ c = '<' ∨ c = '>' := by simpa using special
    rcases cases with rfl | rfl | rfl <;> rfl
  · rw [written_of_not_mem isAscii_textReferences special]
    simp only [List.mem_cons, List.not_mem_nil, or_false, not_or] at special
    obtain ⟨ampersand, less, greater⟩ := special
    simp only [escapeTextChar, ampersand, less, greater, if_false]

/-- The loop over bytes escapes. -/
theorem replaceBytes_references (s : Text) :
    replaceBytes (lookUp references) s = some (escape s) := by
  have each : written (lookUp references) = escapeChar := funext written_references
  rw [replaceBytes_eq (fun _ => lookUp_of_le isAscii_references), each]
  rfl

theorem replaceBytes_textReferences (s : Text) :
    replaceBytes (lookUp textReferences) s = some (escapeText s) := by
  have each : written (lookUp textReferences) = escapeTextChar := funext written_textReferences
  rw [replaceBytes_eq (fun _ => lookUp_of_le isAscii_textReferences), each]
  rfl

/-! ## Escaping twice -/

/-- A reference is longer than the character it stands for. -/
theorem one_lt_length_escapeChar {c : Char} (special : c ∈ '&' :: marks) :
    1 < (escapeChar c).length := by
  rcases cases_of_special special with rfl | rfl | rfl | rfl | rfl <;> decide

theorem length_le_escape (s : Text) : s.length ≤ (escape s).length := by
  induction s with
  | nil => exact Nat.le_refl 0
  | cons c s ih =>
    have some : 0 < (escapeChar c).length := List.length_pos_of_ne_nil (escapeChar_ne_nil c)
    rw [escape_cons, List.length_append, List.length_cons]
    omega

/-- Only a text with nothing to escape stays as it is: any reference makes it longer. -/
theorem escape_eq_self_iff {s : Text} : escape s = s ↔ Literal s := by
  refine ⟨fun same => ?_, escape_eq_self⟩
  induction s with
  | nil => exact fun c member => absurd member List.not_mem_nil
  | cons c s ih =>
    have size := congrArg List.length same
    have rest := length_le_escape s
    rw [escape_cons, List.length_append, List.length_cons] at size
    have plain : c ∉ '&' :: marks := by
      intro special
      have longer := one_lt_length_escapeChar special
      omega
    rw [escape_cons, escapeChar_eq_self plain, List.singleton_append] at same
    exact List.forall_mem_cons.mpr ⟨plain, ih (List.cons.inj same).2⟩

theorem escape_inj {s t : Text} : escape s = escape t ↔ s = t := by
  refine ⟨fun same => ?_, congrArg escape⟩
  rw [← unescape_escape s, same, unescape_escape]

/-! ## Main result -/

/-- Escaping is a faithful code. The loops over bytes never cut a text in the middle of a character
and come to the text with its characters replaced, for attribute values and for text between tags.
Escaping two texts one after the other is escaping them together. Reading the references of an
escaped text once gives the text back, so different texts are escaped differently; and a text that
is escaped a second time stays as it is exactly if it has none of the five characters. -/
theorem escape_reversible (s t : Text) :
    replaceBytes (lookUp references) s = some (escape s) ∧
    replaceBytes (lookUp textReferences) s = some (escapeText s) ∧
    escape (s ++ t) = escape s ++ escape t ∧
    unescape (escape s) = s ∧
    (escape s = escape t ↔ s = t) ∧
    (escape (escape s) = escape s ↔ ∀ c ∈ s, c ∉ ['&', '<', '>', '"', '\'']) := by
  refine ⟨replaceBytes_references s, replaceBytes_textReferences s, escape_append s t,
    unescape_escape s, escape_inj, ?_⟩
  rw [escape_inj]
  exact escape_eq_self_iff

end Text

end HtmlTemplate

import HtmlTemplate.Proofs.Text
import Mathlib.Data.List.Basic

/-!
# Texts as bytes

Positions in a text that is kept in UTF-8 are numbers of bytes, and a text can only be cut between
two characters. A cut is found at a position exactly if so many bytes are those of a first part of
the text (`Text.breakAt?_eq_some`). Bytes below 128 are the ASCII characters, one byte each, so what
is found by looking at such bytes is where it would be found by looking at characters
(`Text.takeWhile_bytes`).
-/

namespace HtmlTemplate

namespace Text

/-- The bytes of a text. -/
def bytes (s : Text) : List UInt8 := s.flatMap String.utf8EncodeChar

/-- The parts of a text before and after a position, or nothing if the position is inside a
character or beyond the end. -/
def breakAt? : Nat → Text → Option (Text × Text)
  | 0, s => some ([], s)
  | _ + 1, [] => none
  | n + 1, c :: s =>
    if c.utf8Size ≤ n + 1 then
      (breakAt? (n + 1 - c.utf8Size) s).map fun (before, after) => (c :: before, after)
    else none

/-- The text from a position on. -/
def sliceFrom? (start : Nat) (s : Text) : Option Text := (breakAt? start s).map Prod.snd

/-- The text between two positions. -/
def slice? (start stop : Nat) (s : Text) : Option Text :=
  (breakAt? stop s).bind fun (before, _) => sliceFrom? start before

/-- The position of the first occurrence of `phrase`. -/
def indexOf? (phrase s : Text) : Option Nat :=
  (cut? phrase s).map fun (before, _) => (bytes before).length

variable {s t u before after : Text} {c : Char} {b : UInt8} {n : Nat}

@[simp] theorem bytes_nil : bytes [] = [] := rfl

@[simp] theorem bytes_cons (c : Char) (s : Text) :
    bytes (c :: s) = String.utf8EncodeChar c ++ bytes s := rfl

@[simp] theorem bytes_append (s t : Text) : bytes (s ++ t) = bytes s ++ bytes t :=
  List.flatMap_append

theorem length_bytes_cons (c : Char) (s : Text) :
    (bytes (c :: s)).length = c.utf8Size + (bytes s).length := by
  rw [bytes_cons, List.length_append, String.length_utf8EncodeChar]

/-! ## Cutting at a position -/

theorem breakAt?_append (s t : Text) : breakAt? (bytes s).length (s ++ t) = some (s, t) := by
  induction s with
  | nil => simp [breakAt?]
  | cons c s ih =>
    obtain ⟨m, size⟩ : ∃ m, (bytes (c :: s)).length = m + 1 :=
      Nat.exists_eq_succ_of_ne_zero (by
        have positive := c.utf8Size_pos
        rw [length_bytes_cons]
        omega)
    have fits : c.utf8Size ≤ m + 1 := by
      rw [← size, length_bytes_cons]
      omega
    have left : m + 1 - c.utf8Size = (bytes s).length := by
      rw [← size, length_bytes_cons]
      omega
    rw [size, List.cons_append, breakAt?, if_pos fits, left, ih]
    rfl

/-- A text is cut at a position exactly if so many bytes are those of its first part. -/
theorem breakAt?_eq_some :
    breakAt? n s = some (before, after) ↔ s = before ++ after ∧ n = (bytes before).length := by
  constructor
  · intro h
    induction s generalizing n before with
    | nil =>
      cases n with
      | zero =>
        cases h
        exact ⟨rfl, rfl⟩
      | succ n => cases h
    | cons c s ih =>
      cases n with
      | zero =>
        cases h
        exact ⟨rfl, rfl⟩
      | succ n =>
        rw [breakAt?] at h
        split at h
        · rename_i fits
          obtain ⟨⟨first, rest⟩, found, same⟩ := Option.map_eq_some_iff.mp h
          cases same
          obtain ⟨whole, size⟩ := ih found
          refine ⟨by rw [whole, List.cons_append], ?_⟩
          rw [length_bytes_cons]
          omega
        · cases h
  · rintro ⟨rfl, rfl⟩
    exact breakAt?_append before after

theorem sliceFrom?_append (s t : Text) : sliceFrom? (bytes s).length (s ++ t) = some t := by
  rw [sliceFrom?, breakAt?_append]
  rfl

/-- The middle of a text lies between the position where it begins and the one where it ends. -/
theorem slice?_append (s t u : Text) :
    slice? (bytes s).length (bytes (s ++ t)).length (s ++ t ++ u) = some t := by
  rw [slice?, breakAt?_append, Option.bind_some]
  exact sliceFrom?_append s t

theorem slice?_first (s t : Text) : slice? 0 (bytes s).length (s ++ t) = some s :=
  slice?_append [] s t

/-! ## ASCII -/

/-- Whether a character is one of the 128 that are a byte of the same number. -/
def isAscii (c : Char) : Bool := c.toNat < 128

theorem lt_of_isAscii (ascii : isAscii c = true) : c.toNat < 128 := by
  simpa [isAscii] using ascii

theorem toNat_toUInt8 (ascii : isAscii c = true) : c.toUInt8.toNat = c.toNat := by
  apply Nat.mod_eq_of_lt
  exact Nat.lt_trans (lt_of_isAscii ascii) (by decide)

theorem utf8EncodeChar_of_isAscii (ascii : isAscii c = true) :
    String.utf8EncodeChar c = [c.toUInt8] := by
  have size : c.utf8Size = 1 := by
    rw [Char.utf8Size_eq_one_iff, UInt32.le_iff_toNat_le]
    exact Nat.le_of_lt_succ (lt_of_isAscii ascii)
  exact String.utf8EncodeChar_eq_singleton size

theorem le_toNat_ofNat {m : Nat} (low : 128 ≤ m) (high : m < 256) :
    128 ≤ (UInt8.ofNat m).toNat := by
  rw [UInt8.toNat_ofNat', Nat.mod_eq_of_lt high]
  exact low

/-- The bytes of all other characters are no ASCII characters. -/
theorem le_of_mem_utf8EncodeChar (other : isAscii c = false)
    (member : b ∈ String.utf8EncodeChar c) :
    128 ≤ b.toNat := by
  have large : 128 ≤ c.val.toNat := by simpa [isAscii] using other
  -- a leading byte and up to three further ones, by how large the character is
  rw [String.utf8EncodeChar] at member
  split at member
  · omega
  · split at member
    · simp only [List.mem_cons, List.not_mem_nil, or_false] at member
      rcases member with rfl | rfl <;> apply le_toNat_ofNat <;> omega
    · split at member
      · simp only [List.mem_cons, List.not_mem_nil, or_false] at member
        rcases member with rfl | rfl | rfl <;> apply le_toNat_ofNat <;> omega
      · simp only [List.mem_cons, List.not_mem_nil, or_false] at member
        rcases member with rfl | rfl | rfl | rfl <;> apply le_toNat_ofNat <;> omega

/-- Whether `test` on bytes holds of the ASCII characters that `p` holds of, and of no other
byte. -/
structure Tells (test : UInt8 → Bool) (p : Char → Bool) : Prop where
  ascii : ∀ c, isAscii c = true → test c.toUInt8 = p c
  beyond : ∀ b : UInt8, 128 ≤ b.toNat → test b = false
  other : ∀ c, isAscii c = false → p c = false

/-- The first bytes that such a test holds of are the first characters that it holds of. -/
theorem takeWhile_bytes {test : UInt8 → Bool} {p : Char → Bool} (tells : Tells test p) (s : Text) :
    (bytes s).takeWhile test = bytes (s.takeWhile p) := by
  induction s with
  | nil => rfl
  | cons c s ih =>
    by_cases ascii : isAscii c = true
    · rw [bytes_cons, utf8EncodeChar_of_isAscii ascii, List.singleton_append, List.takeWhile_cons,
        tells.ascii c ascii, List.takeWhile_cons]
      cases holds : p c with
      | true => simp [utf8EncodeChar_of_isAscii ascii, ih]
      | false => simp
    · have ascii : isAscii c = false := by simpa using ascii
      obtain ⟨first, more, encoded⟩ : ∃ first more, String.utf8EncodeChar c = first :: more := by
        apply List.exists_cons_of_ne_nil
        rw [← List.length_pos_iff, String.length_utf8EncodeChar]
        exact c.utf8Size_pos
      have large : 128 ≤ first.toNat := le_of_mem_utf8EncodeChar ascii (by simp [encoded])
      simp [encoded, tells.beyond first large, tells.other c ascii]

end Text

end HtmlTemplate

import HtmlTemplate.Markup.Tokenizer
import Mathlib.Data.Bool.AllAny

/-!
# How texts are written

The same text can be written in many ways, since any character can be written as a reference.
`Spells` relates what is written to what it is read as, piece by piece. It leaves open where a
reference without a semicolon ends, so that whatever the tokenizer makes of a piece of markup is
spelled by it (`Reference.Written.step`).
-/

namespace HtmlTemplate

/-! ## References -/

namespace Reference

/-- The number that hexadecimal digits spell. -/
def hexValue (digits : Text) : Nat := digits.foldl (fun n c => 16 * n + (hexDigit? c).getD 0) 0

/-- What follows the ampersand of a numeric reference, up to its semicolon, and the number. -/
inductive Numeral : Text → Nat → Prop
  | decimal {digits : Text} : digits ≠ [] → (∀ c ∈ digits, Text.isDigit c = true) →
      Numeral ('#' :: digits) (Text.decimalValue digits)
  | hex {mark : Char} {digits : Text} : mark = 'x' ∨ mark = 'X' → digits ≠ [] →
      (∀ c ∈ digits, (hexDigit? c).isSome = true) →
      Numeral ('#' :: mark :: digits) (hexValue digits)

/-- What was written after the ampersand of a reference that has been read so far. -/
inductive Written : Reference → Text → Prop
  | named (run : Text) : Written (named run) run
  | hash : Written hash ['#']
  | hexMark {mark : Char} : mark = 'x' ∨ mark = 'X' → Written (hexMark mark) ['#', mark]
  | hex {mark : Char} {digits : Text} : mark = 'x' ∨ mark = 'X' → digits ≠ [] →
      (∀ c ∈ digits, (hexDigit? c).isSome = true) →
      Written (hex (hexValue digits)) ('#' :: mark :: digits)
  | decimal {digits : Text} : digits ≠ [] → (∀ c ∈ digits, Text.isDigit c = true) →
      Written (decimal (Text.decimalValue digits)) ('#' :: digits)

theorem longestName?_eq_some {run text rest : Text} {n : Nat}
    (h : longestName? run n = some (text, rest)) :
    ∃ m, NamedReference.lookup? (run.take m) = some text ∧ rest = run.drop m := by
  induction n with
  | zero => cases h
  | succ n ih =>
    rw [longestName?] at h
    split at h
    · rename_i found
      cases h
      exact ⟨n + 1, found, rfl⟩
    · exact ih h

end Reference

/-! ## The table of names -/

/-- The letters that tokens of slot markers are made of. -/
def isTokenLetter (c : Char) : Bool :=
  Text.isDigit c || ('a' ≤ c && c ≤ 'f') || c == 'h' || c == 'w'

namespace NamedReference

/-- A text that is no use for spelling a token: it has no `h`, and if it starts with a letter of
tokens, a `j` follows. -/
def isHarmless (text : Text) : Bool :=
  text.all (· != 'h') &&
    match text with
    | [] => false
    | c :: rest => !isTokenLetter c || rest.head? == some 'j'

theorem isHarmless_startingWith (c : Char) :
    (startingWith c).all (fun e => isHarmless (e.2.map Char.ofNat)) = true := by
  unfold startingWith
  split <;> decide +kernel

/-- No name stands for letters that a token could be spelled with. -/
theorem isHarmless_of_lookup? {name text : Text} (h : lookup? name = some text) :
    isHarmless text = true := by
  cases name with
  | nil => cases h
  | cons c rest =>
    obtain ⟨codes, found, rfl⟩ := Option.map_eq_some_iff.mp h
    obtain ⟨before, after, same, _⟩ := List.lookup_eq_some_iff.mp found
    have member : (String.ofList (c :: rest), codes) ∈ startingWith c :=
      same ▸ List.mem_append_right _ List.mem_cons_self
    exact List.all_eq_true.mp (isHarmless_startingWith c) _ member

theorem not_mem_of_lookup? {name text : Text} (h : lookup? name = some text) : 'h' ∉ text := by
  have harmless := isHarmless_of_lookup? h
  unfold isHarmless at harmless
  rw [Bool.and_eq_true, List.all_eq_true] at harmless
  intro member
  exact absurd (harmless.1 'h' member) (by decide)

theorem exists_of_lookup? {name text : Text} (h : lookup? name = some text) :
    ∃ c rest, text = c :: rest ∧ (isTokenLetter c = true → rest.head? = some 'j') := by
  have harmless := isHarmless_of_lookup? h
  unfold isHarmless at harmless
  rw [Bool.and_eq_true] at harmless
  cases text with
  | nil => exact absurd harmless.2 (by decide)
  | cons c rest =>
    refine ⟨c, rest, rfl, fun letter => ?_⟩
    simpa [letter] using harmless.2

end NamedReference

/-! ## Spelling -/

/-- A piece of markup and the piece of text that it is read as: a character, a reference, or an
empty end tag, which is read as nothing where it may be a gap. -/
inductive Glyph (gaps : Bool) : Text → Text → Prop
  | plain (c : Char) : Glyph gaps [c] [c]
  | null : Glyph gaps [State.null] [Reference.replacement]
  | numeral {r e : Text} {n : Nat} : Reference.Numeral r n → e = [] ∨ e = [';'] →
      Glyph gaps ('&' :: r ++ e) [Reference.numbered n]
  | named {name text : Text} : NamedReference.lookup? name = some text →
      Glyph gaps ('&' :: name) text
  | gap : gaps = true → Glyph gaps ['<', '/', '>'] []

/-- Markup that can be read as a text. -/
inductive Spells (gaps : Bool) : Text → Text → Prop
  | nil : Spells gaps [] []
  | cons {r t w v : Text} : Glyph gaps r t → Spells gaps w v → Spells gaps (r ++ w) (t ++ v)

namespace Spells

variable {gaps : Bool} {w v w' v' : Text}

theorem glyph {r t : Text} (h : Glyph gaps r t) : Spells gaps r t := by
  have whole := cons h nil
  rw [List.append_nil, List.append_nil] at whole
  exact whole

theorem append (h : Spells gaps w v) (h' : Spells gaps w' v') :
    Spells gaps (w ++ w') (v ++ v') := by
  induction h with
  | nil => exact h'
  | cons piece _ ih =>
    rw [List.append_assoc, List.append_assoc]
    exact cons piece ih

/-- Every text can be written as it is. -/
theorem plain (v : Text) : Spells gaps v v := by
  induction v with
  | nil => exact nil
  | cons c v ih => exact cons (.plain c) ih

theorem kept (c : Char) : Spells gaps [c] [State.kept c] := by
  unfold State.kept
  split
  · rename_i same
    rw [same]
    exact glyph .null
  · exact glyph (.plain c)

theorem named {name text : Text} (h : NamedReference.lookup? name = some text) :
    Spells gaps ('&' :: name) text := glyph (.named h)

theorem numeral {r : Text} {n : Nat} (h : Reference.Numeral r n) :
    Spells gaps ('&' :: r) [Reference.numbered n] := by
  have whole : Spells gaps ('&' :: r ++ []) [Reference.numbered n] := glyph (.numeral h (.inl rfl))
  rw [List.append_nil] at whole
  exact whole

/-- A reference that ends without a semicolon, whatever becomes of it. -/
theorem unterminated (inAttribute : Bool) (run : Text) (next : Option Char) :
    Spells gaps ('&' :: run) (Reference.unterminated inAttribute run next) := by
  have literal : Spells gaps ('&' :: run) ('&' :: run) := plain _
  unfold Reference.unterminated
  split
  · split
    · exact literal
    · cases found : NamedReference.lookup? run with
      | none => exact literal
      | some text => exact named found
  · split
    · rename_i found
      obtain ⟨m, known, rfl⟩ := Reference.longestName?_eq_some found
      have whole : Spells gaps _ _ := (named known).append (plain (run.drop m))
      rw [List.cons_append, List.take_append_drop] at whole
      exact whole
    · exact literal

end Spells

/-! ## Reading what is spelled -/

/-- The characters that numbers are written with, as digits and as references. -/
def isNumeralLetter (c : Char) : Bool :=
  (Reference.hexDigit? c).isSome || ['&', '#', 'x', 'X', ';'].contains c

theorem isNumeralLetter_of_isDigit {c : Char} (h : Text.isDigit c = true) :
    isNumeralLetter c = true := by
  rw [isNumeralLetter, Reference.hexDigit?, if_pos h]
  rfl

theorem Reference.Numeral.isNumeralLetter {r : Text} {n : Nat} (h : Numeral r n) :
    ∀ c ∈ r, isNumeralLetter c = true := by
  have mark : ∀ c ∈ ['#', 'x', 'X'], HtmlTemplate.isNumeralLetter c = true :=
    List.all_iff_forall_prop.mp (by decide)
  intro c member
  cases h with
  | decimal some all =>
    rcases List.mem_cons.mp member with rfl | member
    · exact mark '#' (by decide)
    · exact isNumeralLetter_of_isDigit (all c member)
  | hex isMark some all =>
    rcases List.mem_cons.mp member with rfl | member
    · exact mark '#' (by decide)
    · rcases List.mem_cons.mp member with rfl | member
      · rcases isMark with rfl | rfl
        · exact mark 'x' (by decide)
        · exact mark 'X' (by decide)
      · rw [HtmlTemplate.isNumeralLetter, all c member]
        rfl

namespace Glyph

variable {gaps : Bool} {r t : Text}

theorem isNumeralLetter {r e : Text} {n : Nat} (h : Reference.Numeral r n)
    (last : e = [] ∨ e = [';']) : ∀ c ∈ '&' :: r ++ e, isNumeralLetter c = true := by
  intro c member
  rcases List.mem_append.mp member with member | member
  · rcases List.mem_cons.mp member with rfl | member
    · decide
    · exact h.isNumeralLetter c member
  · rcases last with rfl | rfl
    · cases member
    · rw [List.mem_singleton.mp member]
      decide

theorem ne_nil (h : Glyph gaps r t) : r ≠ [] := by
  cases h <;> exact List.cons_ne_nil _ _

theorem text_ne_nil (h : Glyph gaps r t) (first : gaps = false ∨ r.head? ≠ some '<') : t ≠ [] := by
  cases h with
  | named found =>
    obtain ⟨c, rest, rfl, _⟩ := NamedReference.exists_of_lookup? found
    exact List.cons_ne_nil _ _
  | gap allowed =>
    rcases first with none | other
    · rw [allowed] at none
      cases none
    · exact absurd rfl other
  | _ => exact List.cons_ne_nil _ _

theorem mono (h : Glyph gaps r t) : Glyph true r t := by
  cases h with
  | plain c => exact .plain c
  | null => exact .null
  | numeral number last => exact .numeral number last
  | named found => exact .named found
  | gap _ => exact .gap rfl

end Glyph

namespace Spells

variable {gaps : Bool} {w v y u rest : Text}

theorem mono (h : Spells gaps w v) : Spells true w v := by
  induction h with
  | nil => exact nil
  | cons piece _ ih => exact cons piece.mono ih

theorem eq_nil_of_nil (h : Spells gaps [] v) : v = [] := by
  generalize same : ([] : Text) = w at h
  cases h with
  | nil => rfl
  | cons piece _ => exact absurd (List.append_eq_nil_iff.mp same.symm).1 piece.ne_nil

theorem eq_nil_of_text_nil (h : Spells false w []) : w = [] := by
  generalize same : ([] : Text) = v at h
  cases h with
  | nil => rfl
  | cons piece _ =>
    exact absurd (List.append_eq_nil_iff.mp same.symm).1 (piece.text_ne_nil (.inl rfl))

/-- Characters that begin no other glyph are read as they are, as far as the markup goes. -/
theorem literally (h : Spells gaps w v) (split : w ++ y = u ++ rest)
    (inert : ∀ c ∈ u, c ≠ '&' ∧ c ≠ '<' ∧ c ≠ State.null) :
    (∃ w' v', w = u ++ w' ∧ v = u ++ v' ∧ Spells gaps w' v' ∧ w' ++ y = rest) ∨
      (v = w ∧ ∃ z, u = w ++ z ∧ z ≠ [] ∧ y = z ++ rest) := by
  induction u generalizing w v with
  | nil => exact .inl ⟨w, v, rfl, rfl, h, split⟩
  | cons c u ih =>
    cases h with
    | nil => exact .inr ⟨rfl, c :: u, rfl, List.cons_ne_nil _ _, split⟩
    | @cons r t w v piece later =>
      obtain ⟨reference, mark, zero⟩ := inert c List.mem_cons_self
      cases piece with
      | plain d =>
        obtain ⟨rfl, tail⟩ := List.cons.inj split
        rcases ih later tail fun e member => inert e (List.mem_cons_of_mem d member) with
          ⟨w', v', rfl, rfl, rest⟩ | ⟨rfl, z, rfl, others⟩
        · exact .inl ⟨w', v', rfl, rfl, rest⟩
        · exact .inr ⟨rfl, z, rfl, others⟩
      | null => exact absurd (List.cons.inj split).1.symm zero
      | numeral _ _ => exact absurd (List.cons.inj split).1.symm reference
      | named _ => exact absurd (List.cons.inj split).1.symm reference
      | gap _ => exact absurd (List.cons.inj split).1.symm mark

end Spells

/-- What is read as digits is written with digits and references only. -/
theorem Spells.isNumeralLetter {z v : Text} (h : Spells false z v)
    (all : ∀ c ∈ v, Text.isDigit c = true) : ∀ c ∈ z, isNumeralLetter c = true := by
  induction h with
  | nil => exact fun c member => absurd member List.not_mem_nil
  | @cons r t w v piece _ ih =>
    intro c member
    rcases List.mem_append.mp member with member | member
    · cases piece with
      | plain d =>
        rw [List.mem_singleton.mp member]
        exact isNumeralLetter_of_isDigit (all d (by simp))
      | null => exact absurd (all Reference.replacement (by simp)) (by decide)
      | numeral number last => exact Glyph.isNumeralLetter number last c member
      | named found =>
        -- After a digit there would be a `j`.
        obtain ⟨d, rest, rfl, next⟩ := NamedReference.exists_of_lookup? found
        have digit : Text.isDigit d = true := all d (by simp)
        have first := next (by rw [isTokenLetter, digit]; rfl)
        have member : 'j' ∈ d :: rest ++ v :=
          List.mem_append_left _ (List.mem_cons_of_mem d (List.mem_of_mem_head? first))
        exact absurd (all 'j' member) (by decide)
      | gap none => cases none
    · exact ih (fun d member => all d (List.mem_append_right _ member)) c member

/-- The outcome of one more character, `c`, of a reference that was written as `r` so far, is right:
the reference goes on, or what was written is read as the text. -/
def Reference.Outcome.Spelled (gaps : Bool) (r : Text) (c : Char) : Outcome → Prop
  | .more ref => Written ref (r ++ [c])
  | .done text => Spells gaps ('&' :: (r ++ [c])) text
  | .before text => Spells gaps ('&' :: r) text

namespace Reference.Written

variable {gaps : Bool} {ref : Reference} {r : Text}

/-- A number goes on with a digit. -/
theorem decimalDigit {digits : Text} {c : Char} (all : ∀ d ∈ digits, Text.isDigit d = true)
    (digit : Text.isDigit c = true) :
    Written (.decimal (10 * Text.decimalValue digits + (c.toNat - 48)))
      ('#' :: (digits ++ [c])) := by
  have whole : Written (.decimal (Text.decimalValue (digits ++ [c]))) ('#' :: (digits ++ [c])) := by
    refine .decimal (by simp) fun e member => ?_
    rcases List.mem_append.mp member with before | last
    · exact all e before
    · rw [List.mem_singleton.mp last]
      exact digit
  have value : Text.decimalValue (digits ++ [c]) =
      10 * Text.decimalValue digits + (c.toNat - 48) := by
    rw [Text.decimalValue, List.foldl_append]
    rfl
  rw [value] at whole
  exact whole

theorem hexDigit {mark : Char} {digits : Text} {c : Char} {d : Nat}
    (isMark : mark = 'x' ∨ mark = 'X') (all : ∀ e ∈ digits, (hexDigit? e).isSome = true)
    (digit : hexDigit? c = some d) :
    Written (.hex (16 * hexValue digits + d)) ('#' :: mark :: (digits ++ [c])) := by
  have whole : Written (.hex (hexValue (digits ++ [c]))) ('#' :: mark :: (digits ++ [c])) := by
    refine .hex isMark (by simp) fun e member => ?_
    rcases List.mem_append.mp member with before | last
    · exact all e before
    · rw [List.mem_singleton.mp last, digit]
      rfl
  have value : hexValue (digits ++ [c]) = 16 * hexValue digits + d := by
    rw [hexValue, List.foldl_append]
    show 16 * hexValue digits + (hexDigit? c).getD 0 = _
    rw [digit, Option.getD_some]
  rw [value] at whole
  exact whole

theorem step (h : Written ref r) (inAttribute : Bool) (c : Char) :
    (ref.step inAttribute c).Spelled gaps r c := by
  cases h with
  | named run =>
    rw [Reference.step]
    split
    · rename_i start
      rw [start.1, start.2]
      exact Written.hash
    · split
      · exact Written.named _
      · split
        · rename_i semicolon
          split
          · rename_i found
            rw [semicolon]
            exact Spells.named found
          · exact Spells.unterminated _ _ _
        · exact Spells.unterminated _ _ _
  | hash =>
    rw [Reference.step]
    split
    · rename_i mark
      exact Written.hexMark mark
    · split
      · rename_i digit
        have first := decimalDigit (fun d member => absurd member List.not_mem_nil) digit
        rw [show 10 * Text.decimalValue [] + (c.toNat - 48) = c.toNat - 48 from Nat.zero_add _]
          at first
        exact first
      · exact Spells.plain _
  | @hexMark mark isMark =>
    rw [Reference.step]
    split
    · rename_i d digit
      have first := hexDigit isMark (fun e member => absurd member List.not_mem_nil) digit
      rw [show 16 * hexValue [] + d = d from Nat.zero_add d] at first
      exact first
    · exact Spells.plain _
  | @hex mark digits isMark some all =>
    rw [Reference.step]
    split
    · rename_i d digit
      exact hexDigit isMark all digit
    · split
      · rename_i semicolon
        rw [semicolon]
        exact Spells.glyph (.numeral (.hex isMark some all) (.inr rfl))
      · exact Spells.numeral (.hex isMark some all)
  | @decimal digits some all =>
    rw [Reference.step]
    split
    · rename_i digit
      exact decimalDigit all digit
    · split
      · rename_i semicolon
        rw [semicolon]
        exact Spells.glyph (.numeral (.decimal some all) (.inr rfl))
      · exact Spells.numeral (.decimal some all)

theorem finish (h : Written ref r) (inAttribute : Bool) :
    Spells gaps ('&' :: r) (ref.finish inAttribute) := by
  cases h with
  | named run => exact .unterminated _ _ _
  | hash => exact .plain _
  | hexMark _ => exact .plain _
  | hex isMark some all => exact .numeral (.hex isMark some all)
  | decimal some all => exact .numeral (.decimal some all)

end Reference.Written

end HtmlTemplate

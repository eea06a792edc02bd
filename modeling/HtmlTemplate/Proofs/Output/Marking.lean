import HtmlTemplate.Proofs.Output.Slot
import HtmlTemplate.Proofs.Task.Agree
import HtmlTemplate.Proofs.Task.Renumber

/-!
# What markers change

Whether a host wants markers makes a difference around content and nowhere else: what a value is
between tags, in any other slot, and on the way to being available does not depend on it. Markers
with different numbers are different texts (`Slot.markerText_injective`).
-/

namespace HtmlTemplate

variable {options : Options} {line line' : Timeline}

namespace Options

/-- The options of a host that wants markers, or none. -/
def marking (options : Options) (adoptable : Bool) : Options :=
  { options with adoptable := adoptable }

end Options

/-! ## The numbers of markers -/

namespace Slot

/-- The value of a digit to base 36. -/
def digitValue (c : Char) : Nat := if c.toNat < 58 then c.toNat - 48 else c.toNat - 87

/-- The number that digits to base 36 are read as, after a number. -/
def readDigits (n : Nat) (digits : Text) : Nat :=
  digits.foldl (fun n c => n * 36 + digitValue c) n

theorem digitValue_digit : ∀ d < 36,
    digitValue (Char.ofNat (if d < 10 then 48 + d else 87 + d)) = d := by decide

/-- The digits of a number, before others, are read as the number. -/
theorem readDigits_base36Digits {fuel n : Nat} (enough : n < fuel) (digits : Text) :
    readDigits 0 (base36Digits fuel n digits) = readDigits n digits := by
  induction fuel generalizing n digits with
  | zero => cases enough
  | succ fuel ih =>
    have digit := digitValue_digit (n % 36) (Nat.mod_lt n (by decide))
    rw [base36Digits]
    split
    · rename_i single
      simp only [readDigits, List.foldl_cons, digit]
      congr 1
      omega
    · rw [ih (by omega)]
      simp only [readDigits, List.foldl_cons, digit, Nat.div_add_mod' n 36]

theorem base36_injective : Function.Injective base36 := by
  have read : ∀ n, readDigits 0 (base36 n) = n := fun n =>
    readDigits_base36Digits (Nat.lt_succ_self n) []
  exact Function.LeftInverse.injective read

/-- Markers with different numbers are different. -/
theorem markerText_injective : Function.Injective markerText := by
  intro n m same
  exact base36_injective (List.append_cancel_left (List.append_cancel_right same))

end Slot

theorem Options.agree_marking (options : Options) (adoptable : Bool) :
    options.Agree (options.marking adoptable) := ⟨rfl, rfl⟩

theorem Content.write_marking (adoptable : Bool) (value : Value) :
    write (options.marking adoptable) value = write options value := by
  rw [write_of_agree (options.agree_marking adoptable)]

theorem Slot.written_marking (adoptable : Bool) (kind : SlotKind) (value : Value) :
    written (options.marking adoptable) kind value = written options kind value := by
  cases kind with
  | content => rw [written, written, Content.write_marking]
  | _ => rfl

/-- Nobody who asks for a value learns whether its host wants markers. -/
theorem Task.poll_marking (adoptable : Bool) : poll (options.marking adoptable) = poll options :=
  poll_of_agree (options.agree_marking adoptable)

end HtmlTemplate

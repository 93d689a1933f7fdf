import Saffui.Foundation.Framing
import Saffui.Text

/-!
# Numbers in decimal digits

`{}` writes a number in the digits `Nat.toDigits 10` gives, and `Text.decimal`
reads what they write. A text of digits is the one its number writes where it
does not start with a zero.
-/

namespace Saffui.Text

theorem decimal_concat (digits : List Char) (digit : Char) :
    decimal (digits ++ [digit]) = decimal digits * 10 + (digit.toNat - '0'.toNat) := by
  simp [decimal, List.foldl_append]

theorem digitChar_decimal : ∀ digit < 10, isAsciiDigit (Nat.digitChar digit) = true ∧
    (Nat.digitChar digit).toNat - '0'.toNat = digit := by
  decide

theorem isAsciiDigit_of_toDigits {value : Nat} {digit : Char}
    (inside : digit ∈ Nat.toDigits 10 value) : isAsciiDigit digit = true := by
  obtain ⟨number, small, rfl⟩ := Foundation.Framing.exists_digit_of_mem (by omega) inside
  exact (digitChar_decimal number small).1

/-- The digits of a number are read back. -/
theorem decimal_toDigits (value : Nat) : decimal (Nat.toDigits 10 value) = value := by
  induction value using Nat.strongRecOn with
  | _ value ih =>
    by_cases small : value < 10
    · rw [Nat.toDigits_of_lt_base small]
      have read := (digitChar_decimal value small).2
      simpa [decimal] using read
    · have high := ih (value / 10) (by omega)
      have low := (digitChar_decimal (value % 10) (by omega)).2
      rw [Nat.toDigits_of_base_le (by omega) (by omega), decimal_concat, high, low]
      omega

end Saffui.Text

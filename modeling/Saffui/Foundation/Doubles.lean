import Mathlib.Data.Rat.Cast.Order
import Mathlib.Tactic.FieldSimp
import Saffui.Foundation.NearestEven

/-!
# Sums of doubles

A rational rounded to the nearest of 53 significant bits, ties to even: what a
sum of two floating-point numbers comes to. Integers that small are kept.
-/

namespace Saffui.Foundation

/-- A quotient with some binary places, in 53 significant bits: one place more
than are kept says whether anything is left after them. -/
def scaledDouble (size parts places : Nat) : Nat :=
  let scaled := size * 2 ^ places / parts
  let left := size * 2 ^ places % parts
  nearestEven 53 (2 * scaled + if left = 0 then 0 else 1)

/-- A rational as the nearest number of 53 significant bits. -/
def nearestDouble (value : Rat) : Rat :=
  let places := value.den.log2 + 55
  let magnitude : Rat := scaledDouble value.num.natAbs value.den places / 2 ^ (places + 1)
  if value.num < 0 then -magnitude else magnitude

example : nearestDouble (2 ^ 53 + 1) = 2 ^ 53 := by decide +kernel

example : nearestDouble (2 ^ 53 + 1 + 1 / 2) = 2 ^ 53 + 2 := by decide +kernel

namespace nearestEven

/-- Zeros after the bits that are kept change nothing. -/
theorem eq_of_shift {bits value places : Nat} (positive : 0 < bits) (small : value < 2 ^ bits) :
    nearestEven bits (value * 2 ^ places) = value * 2 ^ places := by
  by_cases fits : value * 2 ^ places < 2 ^ bits
  · exact eq_of_lt fits
  · obtain ⟨unit, below, left, unit_eq, split, less, -, -, rounded⟩ :=
      nearestEven.cases (Nat.not_lt.mp fits) positive
    have nonzero : value * 2 ^ places ≠ 0 := by
      intro zero
      rw [zero] at fits
      exact fits (Nat.two_pow_pos bits)
    have within : Nat.log2 (value * 2 ^ places) < bits + places := by
      rw [Nat.log2_lt nonzero, Nat.pow_add]
      exact Nat.mul_lt_mul_of_pos_right small (Nat.two_pow_pos places)
    have divides : unit ∣ value * 2 ^ places := by
      rw [unit_eq]
      exact Dvd.dvd.mul_left (Nat.pow_dvd_pow 2 (by omega)) value
    have none_left : left = 0 := by
      rw [split] at divides
      have part := (Nat.dvd_add_right (Dvd.intro_left below rfl)).mp divides
      exact Nat.eq_zero_of_dvd_of_lt part less
    have unit_positive : 0 < unit := by
      rw [unit_eq]
      exact Nat.two_pow_pos _
    rw [rounded, if_pos (Or.inl (by omega)), split, none_left, Nat.add_zero]

end nearestEven

theorem div_two_pow {kept value places : Nat} (shifted : kept = value * 2 ^ places) :
    (kept : Rat) / 2 ^ places = value := by
  rw [shifted, Nat.cast_mul, Nat.cast_pow, Nat.cast_ofNat]
  field_simp

theorem scaledDouble_one {size : Nat} (small : size < 2 ^ 53) (places : Nat) :
    scaledDouble size 1 places = size * 2 ^ (places + 1) := by
  have doubled : 2 * (size * 2 ^ places) = size * 2 ^ (places + 1) := by
    rw [Nat.pow_succ, Nat.mul_left_comm, Nat.mul_comm 2]
  unfold scaledDouble
  rw [Nat.div_one, Nat.mod_one]
  dsimp only
  rw [if_pos rfl, Nat.add_zero, doubled, nearestEven.eq_of_shift (Nat.succ_pos 52) small]

/-- An integer of at most 53 bits is a double. -/
theorem nearestDouble_int {value : Int} (small : value.natAbs < 2 ^ 53) :
    nearestDouble (value : Rat) = value := by
  have magnitude := fun places => div_two_pow (scaledDouble_one small places)
  unfold nearestDouble
  rw [Rat.num_intCast, Rat.den_intCast]
  simp only [magnitude]
  split
  · next negative =>
    rw [← Int.cast_natCast, Int.ofNat_natAbs_of_nonpos (le_of_lt negative), Int.cast_neg, neg_neg]
  · next positive =>
    rw [← Int.cast_natCast, Int.natAbs_of_nonneg (not_lt.mp positive)]

end Saffui.Foundation

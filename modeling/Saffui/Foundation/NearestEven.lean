import Mathlib.Data.Nat.Log
import Mathlib.Tactic.Linarith

/-!
# Rounding to a number of bits, ties to even

A natural number rounded to the nearest that is written with `bits`
significant bits, of two as near the one whose significand is even: what the
conversion of an integer to a floating-point number of that precision does.
It keeps the order, and every number of at most `bits` bits.
-/

namespace Saffui.Foundation

/-- The nearest number of at most `bits` significant bits. -/
def nearestEven (bits value : Nat) : Nat :=
  if value < 2 ^ bits then value
  else
    let unit := 2 ^ (Nat.log2 value - (bits - 1))
    let below := value / unit
    let left := value % unit
    if 2 * left < unit ∨ (2 * left = unit ∧ below % 2 = 0) then below * unit
    else (below + 1) * unit

namespace nearestEven

variable {bits value other : Nat}

theorem eq_of_lt (small : value < 2 ^ bits) : nearestEven bits value = value := by
  rw [nearestEven, if_pos small]

/-- A number past the bits is one of two neighbours, and rounds up only from
the middle of them on. -/
theorem cases (large : 2 ^ bits ≤ value) (positive : 0 < bits) :
    ∃ unit below left, unit = 2 ^ (Nat.log2 value - (bits - 1)) ∧
      value = below * unit + left ∧ left < unit ∧
      2 ^ (bits - 1) ≤ below ∧ below < 2 ^ bits ∧
      nearestEven bits value =
        if 2 * left < unit ∨ (2 * left = unit ∧ below % 2 = 0) then below * unit
        else (below + 1) * unit := by
  have nonzero : value ≠ 0 := by
    have : 0 < 2 ^ bits := Nat.two_pow_pos bits
    omega
  have low := Nat.log2_self_le nonzero
  have high : value < 2 ^ (value.log2 + 1) := Nat.lt_log2_self
  have exponent : bits ≤ value.log2 := (Nat.le_log2 nonzero).mpr large
  have unitPositive : 0 < 2 ^ (value.log2 - (bits - 1)) := Nat.two_pow_pos _
  refine ⟨_, value / 2 ^ (value.log2 - (bits - 1)), value % 2 ^ (value.log2 - (bits - 1)), rfl,
    (Nat.div_add_mod' _ _).symm, Nat.mod_lt _ unitPositive, ?_, ?_, ?_⟩
  · rw [Nat.le_div_iff_mul_le unitPositive, ← Nat.pow_add]
    have same : bits - 1 + (value.log2 - (bits - 1)) = value.log2 := by omega
    rwa [same]
  · rw [Nat.div_lt_iff_lt_mul unitPositive, ← Nat.pow_add]
    have same : bits + (value.log2 - (bits - 1)) = value.log2 + 1 := by omega
    rwa [same]
  · rw [nearestEven, if_neg (Nat.not_lt.mpr large)]

theorem bounds (large : 2 ^ bits ≤ value) (positive : 0 < bits) :
    2 ^ value.log2 ≤ nearestEven bits value ∧ nearestEven bits value ≤ 2 ^ (value.log2 + 1) := by
  have nonzero : value ≠ 0 := by
    have : 0 < 2 ^ bits := Nat.two_pow_pos bits
    omega
  have exponent : bits ≤ value.log2 := (Nat.le_log2 nonzero).mpr large
  obtain ⟨unit, below, left, unitEq, -, -, low, high, rounded⟩ := cases large positive
  have first : 2 ^ value.log2 = 2 ^ (bits - 1) * unit := by
    rw [unitEq, ← Nat.pow_add]
    congr 1
    omega
  have last : 2 ^ (value.log2 + 1) = 2 ^ bits * unit := by
    rw [unitEq, ← Nat.pow_add]
    congr 1
    omega
  have down := Nat.mul_le_mul_right unit low
  have up := Nat.mul_le_mul_right unit (Nat.succ_le_of_lt high)
  rw [first, last, rounded]
  split
  · exact ⟨down, (Nat.mul_le_mul_right unit (Nat.le_succ below)).trans up⟩
  · exact ⟨down.trans (Nat.mul_le_mul_right unit (Nat.le_succ below)), up⟩

/-- Rounding keeps the order of two numbers of as many bits: from the same
neighbours the larger one rounds up where the smaller one does. -/
theorem mono_of_log2_eq (large : 2 ^ bits ≤ value) (positive : 0 < bits) (ordered : value ≤ other)
    (same : value.log2 = other.log2) : nearestEven bits value ≤ nearestEven bits other := by
  obtain ⟨unit, below, left, unitEq, valueEq, leftLt, -, -, rounded⟩ := cases large positive
  obtain ⟨scale, above, right, scaleEq, otherEq, rightLt, -, -, roundedOther⟩ :=
    cases (large.trans ordered) positive
  have scales : scale = unit := by rw [scaleEq, unitEq, same]
  subst scales
  have order : below ≤ above := by
    by_contra reversed
    have step := Nat.mul_le_mul_right scale (Nat.succ_le_of_lt (Nat.lt_of_not_le reversed))
    rw [Nat.succ_mul] at step
    omega
  rw [rounded, roundedOther]
  rcases Nat.lt_or_eq_of_le order with less | equal
  · have step := Nat.mul_le_mul_right scale (Nat.succ_le_of_lt less)
    have more := Nat.mul_le_mul_right scale (Nat.le_succ above)
    have start := Nat.mul_le_mul_right scale (Nat.le_succ below)
    rw [Nat.succ_eq_add_one] at step more start
    split <;> split <;> omega
  · subst equal
    have within : left ≤ right := by omega
    have more := Nat.mul_le_mul_right scale (Nat.le_succ below)
    split <;> split <;> omega

/-- Rounding keeps the order. -/
theorem mono (positive : 0 < bits) (ordered : value ≤ other) :
    nearestEven bits value ≤ nearestEven bits other := by
  by_cases small : other < 2 ^ bits
  · rw [eq_of_lt small, eq_of_lt (ordered.trans_lt small)]
    exact ordered
  · have large : 2 ^ bits ≤ other := Nat.le_of_not_lt small
    have otherNonzero : other ≠ 0 := by
      have : 0 < 2 ^ bits := Nat.two_pow_pos bits
      omega
    by_cases tiny : value < 2 ^ bits
    · rw [eq_of_lt tiny]
      have exponent : bits ≤ other.log2 := (Nat.le_log2 otherNonzero).mpr large
      have start := Nat.pow_le_pow_right (by decide : 0 < 2) exponent
      have low := (bounds large positive).1
      omega
    · have middling : 2 ^ bits ≤ value := Nat.le_of_not_lt tiny
      have valueNonzero : value ≠ 0 := by
        have : 0 < 2 ^ bits := Nat.two_pow_pos bits
        omega
      have logs : value.log2 ≤ other.log2 :=
        (Nat.le_log2 otherNonzero).mpr ((Nat.log2_self_le valueNonzero).trans ordered)
      rcases Nat.lt_or_eq_of_le logs with less | same
      · calc nearestEven bits value ≤ 2 ^ (value.log2 + 1) := (bounds middling positive).2
          _ ≤ 2 ^ other.log2 := Nat.pow_le_pow_right (by decide) less
          _ ≤ nearestEven bits other := (bounds large positive).1
      · exact mono_of_log2_eq middling positive ordered same

end nearestEven

end Saffui.Foundation

import Mathlib.Algebra.Order.Field.Power
import Mathlib.Data.Rat.Cast.Order
import Mathlib.Tactic.FieldSimp
import Mathlib.Tactic.Positivity
import Mathlib.Tactic.Ring
import Reckon.Decimal.Arithmetic
import Reckon.Proofs.Decimal.Plain

/-!
# The value of a decimal number

A decimal number stands for a fraction. Its value does not show the exponent, and zero has one value
for both signs. Plain notation is read back with the same value, and numbers are compared by their
values.

## Main definitions

* `Decimal.toRat`: the value of a decimal number
* `BinaryOp.exact`: the value that a binary operator has before it is rounded

## Main results

* `toRat_settled`: plain notation keeps the value
* `units_mul_zpow`: the units of a number, and its value
* `compare_eq`: numbers are compared by their values
-/

namespace Reckon

/-- A fraction with a sign. -/
def signed (negative : Bool) (x : ℚ) : ℚ := if negative then -x else x

theorem signed_eq_zero_iff {negative : Bool} {x : ℚ} : signed negative x = 0 ↔ x = 0 := by
  cases negative <;> simp [signed]

theorem abs_signed (negative : Bool) (x : ℚ) : |signed negative x| = |x| := by
  cases negative <;> simp [signed]

theorem signed_mul_right (negative : Bool) (x y : ℚ) :
    signed negative (x * y) = signed negative x * y := by
  cases negative <;> simp [signed]

theorem signed_mul (s t : Bool) (x y : ℚ) : signed s x * signed t y = signed (s != t) (x * y) := by
  cases s <;> cases t <;> simp [signed]

theorem signed_div (s t : Bool) (x y : ℚ) : signed s x / signed t y = signed (s != t) (x / y) := by
  cases s <;> cases t <;> simp [signed, neg_div, div_neg]

/-- An integer is its absolute value with its sign. -/
theorem signed_natAbs {negative : Bool} {n : Int} (h : n ≠ 0 → negative = decide (n < 0)) :
    signed negative n.natAbs = n := by
  by_cases hn : n = 0
  · subst hn
    cases negative <;> simp [signed]
  · rw [h hn]
    rcases lt_or_ge n 0 with hlt | hge
    · have : ((n.natAbs : ℤ) : ℚ) = ((-n : ℤ) : ℚ) := by congr 1; omega
      simpa [signed, hlt] using congrArg Neg.neg this
    · have : ((n.natAbs : ℤ) : ℚ) = (n : ℚ) := by congr 1; omega
      simpa [signed, not_lt.mpr hge] using this

namespace Decimal

/-- The value of a number. -/
def toRat (a : Decimal) : ℚ := signed a.negative (a.coefficient * (10 : ℚ) ^ a.exponent)

theorem abs_toRat (a : Decimal) : |a.toRat| = a.coefficient * (10 : ℚ) ^ a.exponent := by
  rw [toRat, abs_signed, abs_of_nonneg (by positivity)]

theorem toRat_eq_zero_iff {a : Decimal} : a.toRat = 0 ↔ a.coefficient = 0 := by
  have hpow : (10 : ℚ) ^ a.exponent ≠ 0 := by positivity
  rw [toRat, signed_eq_zero_iff, mul_eq_zero, Nat.cast_eq_zero]
  exact or_iff_left hpow

theorem isZero_eq_decide (a : Decimal) : a.isZero = decide (a.toRat = 0) := by
  rw [Bool.eq_iff_iff, isZero_iff, decide_eq_true_eq, toRat_eq_zero_iff]

/-- Plain notation keeps the value. -/
theorem toRat_settled (a : Decimal) : a.settled.toRat = a.toRat := by
  by_cases hz : a.coefficient = 0
  · rw [toRat_eq_zero_iff.mpr hz, toRat_eq_zero_iff, settled_coefficient, hz, Nat.zero_mul]
  · have hsign : a.settled.negative = a.negative := by simp [settled, isZero, hz]
    have hpow : ((10 : ℚ) ^ a.exponent.toNat) * (10 : ℚ) ^ min a.exponent 0 =
        (10 : ℚ) ^ a.exponent := by
      rw [← zpow_natCast, ← zpow_add₀ (by norm_num)]
      congr 1
      omega
    rw [toRat, toRat, hsign, settled_coefficient, settled_exponent, ← hpow]
    push_cast
    rw [mul_assoc]

theorem toRat_opposite (a : Decimal) : a.opposite.toRat = -a.toRat := by
  cases h : a.negative <;> simp [toRat, opposite, signed, h]

/-- The units of `10^e` of a number, for `e` at most its exponent, are its value. -/
theorem units_mul_zpow {e : Int} {a : Decimal} (h : e ≤ a.exponent) :
    (a.units e : ℚ) * (10 : ℚ) ^ e = a.toRat := by
  obtain ⟨n, hn⟩ := Int.le.dest h
  have hsub : (a.exponent - e).toNat = n := by omega
  have hpow : (10 : ℚ) ^ a.exponent = (10 : ℚ) ^ n * (10 : ℚ) ^ e := by
    rw [← hn, zpow_add₀ (by norm_num), zpow_natCast, mul_comm]
  rw [toRat, units, hsub, hpow]
  cases a.negative <;> simp [signed] <;> ring

/-- Numbers are compared by their values. -/
theorem compare_eq (a b : Decimal) : a.compare b = Ord.compare a.toRat b.toRat := by
  set e := min a.exponent b.exponent with he
  have ha : (a.units e : ℚ) * (10 : ℚ) ^ e = a.toRat := units_mul_zpow (min_le_left _ _)
  have hb : (b.units e : ℚ) * (10 : ℚ) ^ e = b.toRat := units_mul_zpow (min_le_right _ _)
  have hpos : (0 : ℚ) < (10 : ℚ) ^ e := by positivity
  have hlt {m n : Int} : (m : ℚ) * (10 : ℚ) ^ e < n * (10 : ℚ) ^ e ↔ m < n := by
    rw [mul_lt_mul_iff_left₀ hpos, Int.cast_lt]
  simp only [compare, ← he, ← ha, ← hb]
  rcases lt_trichotomy (a.units e) (b.units e) with h | h | h
  · rw [compare_lt_iff_lt.mpr h, compare_lt_iff_lt.mpr (hlt.mpr h)]
  · rw [h, compare_eq_iff_eq.mpr rfl, compare_eq_iff_eq.mpr rfl]
  · rw [compare_gt_iff_gt.mpr h, compare_gt_iff_gt.mpr (hlt.mpr h)]

end Decimal

namespace BinaryOp

/-- The fraction that stands for a truth value. -/
def indicator (p : Prop) [Decidable p] : ℚ := if p then 1 else 0

/-- The value of a binary operator on two values, before it is rounded. -/
def exact : BinaryOp → ℚ → ℚ → ℚ
  | multiply, x, y => x * y
  | divide, x, y => x / y
  | add, x, y => x + y
  | subtract, x, y => x - y
  | atLeast, x, y => indicator (y ≤ x)
  | atMost, x, y => indicator (x ≤ y)
  | less, x, y => indicator (x < y)
  | greater, x, y => indicator (y < x)
  | both, x, y => indicator (x ≠ 0 ∧ y ≠ 0)
  | either, x, y => indicator (x ≠ 0 ∨ y ≠ 0)
  | equal, x, y => indicator (x = y)
  | differ, x, y => indicator (x ≠ y)

end BinaryOp

end Reckon

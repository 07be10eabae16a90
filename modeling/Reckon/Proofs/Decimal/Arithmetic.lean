import Reckon.Proofs.Decimal.Rounding
import Reckon.Proofs.Decimal.Value
import Reckon.Proofs.Outcome

/-!
# Arithmetic on values

The value of a result depends on the values of the operands only: it is the exact value, rounded
once. So does the overflow. How the operands are written, with how many zeros at the end and which
sign of zero, does not matter for the value.

## Main results

* `map_toRat_round`: rounding a fraction, whatever way it is given, gives the nearest value
* `map_toRat_apply`, `map_toRat_negate`: the values of the results of operators
-/

namespace Reckon

open Decimal

namespace Context

variable (c : Context)

/-- The highest digit of a coefficient at an exponent. -/
theorem log_mul_zpow {k : Nat} (hk : k ≠ 0) (e : Int) :
    Int.log 10 ((k : ℚ) * (10 : ℚ) ^ e) = e + Nat.log 10 k := by
  have h := leadExponent_add_eq_log hk Nat.one_pos e
  rw [leadExponent_one hk, Nat.cast_one, div_one] at h
  rw [← h, add_comm]

theorem nearest_signed (negative : Bool) (x : ℚ) :
    c.nearest (signed negative x) = signed negative (c.nearest x) := by
  cases negative <;> simp [signed]

theorem map_toRat_bounded (negative : Bool) (k : Nat) (e : Int) :
    (bounded negative k e).map toRat =
      if maxExponent < Int.log 10 ((k : ℚ) * (10 : ℚ) ^ e) then .error .overflow
      else .ok (signed negative (k * (10 : ℚ) ^ e)) := by
  by_cases hk : k = 0
  · subst hk
    simp [bounded, maxExponent, Except.map, toRat]
  · rw [log_mul_zpow hk]
    simp only [bounded, Numeral.log10_eq_log, ne_eq, hk, not_false_eq_true, true_and]
    split
    · rfl
    · rfl

/-- Rounding a fraction gives the nearest value, whatever way the fraction is given. -/
theorem map_toRat_round (negative : Bool) (num : Nat) {den : Nat} (hd : 0 < den) (ideal : Int) :
    (c.round negative num den ideal).map toRat =
      c.rounded (signed negative ((num : ℚ) / den * (10 : ℚ) ^ ideal)) := by
  by_cases hn : num = 0
  · subst hn
    have h0 : ∀ s, signed s 0 = 0 := fun s => signed_eq_zero_iff.mpr rfl
    simp [round, rounded, Except.map, toRat, h0, maxExponent]
  · obtain ⟨k, e, hb, -, -, hv⟩ := c.exists_bounded hn hd negative ideal
    have habs : |c.nearest (signed negative ((num : ℚ) / den * (10 : ℚ) ^ ideal))| =
        (k : ℚ) * (10 : ℚ) ^ e := by
      rw [nearest_signed, abs_signed, ← hv, abs_of_nonneg (by positivity)]
    rw [hb, map_toRat_bounded, rounded, habs, nearest_signed, hv]

/-- Truth values are not changed by rounding. -/
theorem rounded_indicator (p : Prop) [Decidable p] :
    c.rounded (BinaryOp.indicator p) = .ok (BinaryOp.indicator p) := by
  have hone : c.nearest 1 = 1 := by
    refine c.nearest_of_multiple (e := 0) ⟨1, by simp⟩ ?_
    rw [abs_one, Int.log_one_right]
    refine c.quantum_le ?_
    have := c.precision_pos
    simp only [leastExponent, minExponent]
    omega
  unfold BinaryOp.indicator
  split <;> simp [rounded, hone, maxExponent]

end Context

namespace Decimal

variable (c : Context) (a b : Decimal)

/-- A negation rounds the number with the other sign. -/
theorem signed_negate :
    signed (!a.isZero && !a.negative) (a.coefficient * (10 : ℚ) ^ a.exponent) = -a.toRat := by
  by_cases hz : a.coefficient = 0
  · rw [toRat_eq_zero_iff.mpr hz, hz, neg_zero, signed_eq_zero_iff]
    simp
  · cases hn : a.negative <;> simp [toRat, signed, isZero, hz, hn]

theorem map_toRat_negate : (a.negate c).map toRat = c.rounded (-a.toRat) := by
  rw [negate, c.map_toRat_round _ _ Nat.one_pos, Nat.cast_one, div_one, signed_negate]

/-- A negation fails only if the highest digit of the rounded number is too high. -/
theorem negate_eq_error_iff {c : Context} {a : Decimal} {s : Signal} :
    a.negate c = .error s ↔
      s = .overflow ∧ Context.maxExponent < Int.log 10 |c.nearest a.toRat| := by
  rw [← map_eq_error (f := toRat), map_toRat_negate, c.rounded_eq_error_iff, c.nearest_neg, abs_neg]

theorem toRat_of_negate {c : Context} {a r : Decimal} (h : a.negate c = .ok r) :
    r.toRat = c.nearest (-a.toRat) := by
  refine c.eq_nearest_of_rounded ?_
  rw [← map_toRat_negate, h]
  rfl

/-- A product rounds the product of the coefficients. -/
theorem signed_multiply :
    signed (a.negative != b.negative)
      ((a.coefficient * b.coefficient : Nat) * (10 : ℚ) ^ (a.exponent + b.exponent)) =
        a.toRat * b.toRat := by
  rw [toRat, toRat, signed_mul, zpow_add₀ (by norm_num)]
  push_cast
  congr 1
  ring

theorem map_toRat_multiply : (a.multiply c b).map toRat = c.rounded (a.toRat * b.toRat) := by
  rw [multiply, c.map_toRat_round _ _ Nat.one_pos, Nat.cast_one, div_one, signed_multiply]

theorem map_toRat_divide (h : b.isZero = false) :
    (a.divide c b).map toRat = c.rounded (a.toRat / b.toRat) := by
  have hpos : 0 < b.coefficient := Nat.pos_of_ne_zero (by simpa [isZero] using h)
  rw [divide, if_neg (by rw [h]; exact Bool.false_ne_true), c.map_toRat_round _ _ hpos, toRat,
    toRat, signed_div, zpow_sub₀ (by norm_num)]
  congr 2
  exact div_mul_div_comm ..

/-- A sum rounds a whole number of units of the lower exponent. -/
theorem exists_round_add :
    ∃ negative num, a.add c b = c.round negative num 1 (min a.exponent b.exponent) ∧
      signed negative (num * (10 : ℚ) ^ min a.exponent b.exponent) = a.toRat + b.toRat := by
  set e := min a.exponent b.exponent with he
  have ha : (a.units e : ℚ) * (10 : ℚ) ^ e = a.toRat := units_mul_zpow (min_le_left _ _)
  have hb : (b.units e : ℚ) * (10 : ℚ) ^ e = b.toRat := units_mul_zpow (min_le_right _ _)
  refine ⟨_, _, rfl, ?_⟩
  rw [← he, signed_mul_right, signed_natAbs fun h => if_neg h, ← ha, ← hb, ← add_mul, Int.cast_add]

theorem map_toRat_add : (a.add c b).map toRat = c.rounded (a.toRat + b.toRat) := by
  obtain ⟨negative, num, hr, hv⟩ := exists_round_add c a b
  rw [hr, c.map_toRat_round _ _ Nat.one_pos, Nat.cast_one, div_one, hv]

theorem map_toRat_subtract : (a.subtract c b).map toRat = c.rounded (a.toRat - b.toRat) := by
  rw [subtract, map_toRat_add, toRat_opposite, sub_eq_add_neg]

theorem toRat_truth {t : Bool} {p : Prop} [Decidable p] (h : t = true ↔ p) :
    (truth t).toRat = BinaryOp.indicator p := by
  simp only [BinaryOp.indicator, ← h]
  cases t <;> simp [truth, toRat, signed]

end Decimal

namespace BinaryOp

/-- Unless something is divided by zero, the value of a result is the exact value, rounded once. -/
theorem map_toRat_apply (c : Context) (op : BinaryOp) (a b : Decimal)
    (h : ¬ (op = .divide ∧ b.isZero = true)) :
    (op.apply c a b).map toRat = c.rounded (op.exact a.toRat b.toRat) := by
  have htruth : ∀ {t : Bool} {p : Prop} [Decidable p], (t = true ↔ p) →
      (Except.ok (truth t) : Except Signal Decimal).map toRat = c.rounded (indicator p) := by
    intro t p _ ht
    rw [c.rounded_indicator]
    exact congrArg Except.ok (toRat_truth ht)
  have hlt : a.compare b = .lt ↔ a.toRat < b.toRat := by rw [compare_eq, compare_lt_iff_lt]
  have hgt : a.compare b = .gt ↔ b.toRat < a.toRat := by rw [compare_eq, compare_gt_iff_gt]
  have heq : a.compare b = .eq ↔ a.toRat = b.toRat := by rw [compare_eq, compare_eq_iff_eq]
  cases op with
  | multiply => exact map_toRat_multiply c a b
  | divide => exact map_toRat_divide c a b (by simpa using h)
  | add => exact map_toRat_add c a b
  | subtract => exact map_toRat_subtract c a b
  | atLeast => exact htruth (by simp [hlt])
  | atMost => exact htruth (by simp [hgt])
  | less => exact htruth (by simp [hlt])
  | greater => exact htruth (by simp [hgt])
  | both => exact htruth (by simp [isZero_eq_decide])
  | either => exact htruth (by simp [isZero_eq_decide])
  | equal => exact htruth (by simp [heq])
  | differ => exact htruth (by simp [heq])

theorem toRat_of_apply {c : Context} {op : BinaryOp} {a b r : Decimal}
    (hz : ¬ (op = .divide ∧ b.isZero = true)) (h : op.apply c a b = .ok r) :
    r.toRat = c.nearest (op.exact a.toRat b.toRat) := by
  refine c.eq_nearest_of_rounded ?_
  rw [← map_toRat_apply c op a b hz, h]
  rfl

end BinaryOp

end Reckon

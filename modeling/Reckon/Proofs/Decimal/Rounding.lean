import Mathlib.Algebra.Order.Field.Power
import Mathlib.Data.Nat.Cast.Field
import Mathlib.Data.Rat.Cast.Order
import Mathlib.Tactic.Positivity
import Reckon.Decimal.Arithmetic
import Reckon.Proofs.Decimal.Nearest
import Reckon.Proofs.Decimal.Plain

/-!
# What rounding yields

A rounded number fits into its context: it has no more digits than the precision, and neither its
lowest nor its highest digit is out of range. The only signal that rounding raises is the overflow.
So no operator raises another one, as long as nothing is divided by zero. A number that fits loses
nothing when it is written, read back and rounded again.

## Main definitions

* `Context.Fits c a`: a number fits into a context

## Main results

* `exists_bounded`: a rounded value is a coefficient of at most as many digits as the precision has,
  and it is the nearest value
* `round_of_quantum_le`, `round_of_quantum_eq`: exact values at and below their quantum
* `fits_round`, `fits_apply`, `fits_negate`: the results of operators fit
* `fits_of_ofLiteral?`: a literal of no more digits than the precision fits
* `apply_eq_error`: the only signal is the overflow
* `round_settled`: rounding what is read back from a number that fits
-/

namespace Reckon

open Numeral

namespace Context

variable (c : Context)

/-! ## The highest digit -/

/-- Shifting multiplies by a power of ten. -/
theorem shifted_div (num den : Nat) (shift : Int) :
    ((shifted num den shift).1 : ℚ) / (shifted num den shift).2 =
      (num : ℚ) / den * (10 : ℚ) ^ shift := by
  unfold shifted
  split
  · rename_i h
    obtain ⟨k, rfl⟩ := Int.eq_ofNat_of_zero_le h
    simp [mul_div_right_comm]
  · rename_i h
    obtain ⟨k, hk⟩ := Int.eq_ofNat_of_zero_le (by omega : 0 ≤ -shift)
    obtain rfl : shift = -(k : Int) := by omega
    simp [div_eq_mul_inv, mul_assoc, mul_comm ((10 : ℚ) ^ k)⁻¹]

theorem shifted_pos {den : Nat} (h : 0 < den) (num : Nat) (shift : Int) :
    0 < (shifted num den shift).2 := by
  unfold shifted
  split
  · exact h
  · positivity

/-- A fraction is below the power of ten after its highest digit. -/
theorem div_lt_leadExponent {den : Nat} (hd : 0 < den) (num : Nat) :
    (num : ℚ) / den < (10 : ℚ) ^ (leadExponent num den + 1) := by
  have hd' : (0 : ℚ) < den := by exact_mod_cast hd
  simp only [leadExponent, log10_eq_log]
  -- The exponents of both highest digits differ by the guess, which is right or one too high.
  set guess : Int := (Nat.log 10 num : Int) - Nat.log 10 den with hguess
  have hs := shifted_div num den (-guess)
  have hpos := shifted_pos hd num (-guess)
  split
  · have hnum : (num : ℚ) < (10 : ℚ) ^ (Nat.log 10 num + 1) := by
      exact_mod_cast Nat.lt_pow_succ_log_self (by omega : 1 < 10) num
    have hden : (10 : ℚ) ^ Nat.log 10 den ≤ den := by
      exact_mod_cast Nat.pow_log_le_self 10 (by omega)
    have hexp : (10 : ℚ) ^ (Nat.log 10 num + 1) = (10 : ℚ) ^ (guess + 1) * 10 ^ Nat.log 10 den := by
      rw [← zpow_natCast, ← zpow_natCast, ← zpow_add₀ (by norm_num)]
      congr 1
      push_cast
      omega
    rw [div_lt_iff₀ hd']
    calc (num : ℚ) < (10 : ℚ) ^ (Nat.log 10 num + 1) := hnum
      _ = (10 : ℚ) ^ (guess + 1) * 10 ^ Nat.log 10 den := hexp
      _ ≤ (10 : ℚ) ^ (guess + 1) * den := by gcongr
  · rename_i hlt
    have hlt' : ((shifted num den (-guess)).1 : ℚ) / (shifted num den (-guess)).2 < 1 := by
      rw [div_lt_one (by exact_mod_cast hpos)]
      exact_mod_cast not_le.mp hlt
    rw [hs, zpow_neg, ← div_eq_mul_inv, div_lt_one (by positivity)] at hlt'
    simpa using hlt'

/-- A fraction is not below the power of ten of its highest digit. -/
theorem zpow_leadExponent_le {num den : Nat} (hn : num ≠ 0) (hd : 0 < den) :
    (10 : ℚ) ^ leadExponent num den ≤ (num : ℚ) / den := by
  have hd' : (0 : ℚ) < den := by exact_mod_cast hd
  simp only [leadExponent, log10_eq_log]
  set guess : Int := (Nat.log 10 num : Int) - Nat.log 10 den with hguess
  have hs := shifted_div num den (-guess)
  have hpos := shifted_pos hd num (-guess)
  split
  · rename_i hle
    have hle' : 1 ≤ ((shifted num den (-guess)).1 : ℚ) / (shifted num den (-guess)).2 := by
      rw [one_le_div (by exact_mod_cast hpos)]
      exact_mod_cast hle
    rwa [hs, zpow_neg, ← div_eq_mul_inv, one_le_div (by positivity)] at hle'
  · have hnum : (10 : ℚ) ^ Nat.log 10 num ≤ num := by
      exact_mod_cast Nat.pow_log_le_self 10 hn
    have hden : (den : ℚ) ≤ (10 : ℚ) ^ (Nat.log 10 den + 1) := by
      exact_mod_cast (Nat.lt_pow_succ_log_self (by omega : 1 < 10) den).le
    have hexp : (10 : ℚ) ^ Nat.log 10 num =
        (10 : ℚ) ^ (guess - 1) * 10 ^ (Nat.log 10 den + 1) := by
      rw [← zpow_natCast, ← zpow_natCast, ← zpow_add₀ (by norm_num)]
      congr 1
      push_cast
      omega
    rw [le_div_iff₀ hd']
    calc (10 : ℚ) ^ (guess - 1) * den
        ≤ (10 : ℚ) ^ (guess - 1) * 10 ^ (Nat.log 10 den + 1) := by gcongr
      _ = (10 : ℚ) ^ Nat.log 10 num := hexp.symm
      _ ≤ num := hnum

/-- The exponent of the highest digit depends on the value only. -/
theorem leadExponent_add_eq_log {num den : Nat} (hn : num ≠ 0) (hd : 0 < den) (ideal : Int) :
    leadExponent num den + ideal = Int.log 10 ((num : ℚ) / den * (10 : ℚ) ^ ideal) := by
  have hnum : (0 : ℚ) < num := by exact_mod_cast Nat.pos_of_ne_zero hn
  have hden : (0 : ℚ) < den := by exact_mod_cast hd
  have hx : (0 : ℚ) < (num : ℚ) / den * (10 : ℚ) ^ ideal := by positivity
  apply le_antisymm
  · rw [← Int.zpow_le_iff_le_log (by norm_num) hx, Nat.cast_ofNat, zpow_add₀ (by norm_num)]
    gcongr
    exact zpow_leadExponent_le hn hd
  · rw [← Int.lt_add_one_iff, ← Int.lt_zpow_iff_log_lt (by norm_num) hx, Nat.cast_ofNat,
      add_right_comm, zpow_add₀ (by norm_num)]
    gcongr
    exact div_lt_leadExponent hd num

/-- What is kept of a value at its quantum has no more digits than the precision. -/
theorem div_lt_of_quantum {den : Nat} (hd : 0 < den) (ideal : Int) (num : Nat) :
    (shifted num den (ideal - c.quantum (leadExponent num den + ideal))).1 /
      (shifted num den (ideal - c.quantum (leadExponent num den + ideal))).2 <
        10 ^ c.precision := by
  set q := c.quantum (leadExponent num den + ideal) with hq
  have hle : leadExponent num den + 1 + (ideal - q) ≤ c.precision := by
    rw [hq, quantum]
    omega
  have hpos : (0 : ℚ) < (shifted num den (ideal - q)).2 := by
    exact_mod_cast shifted_pos hd num (ideal - q)
  have hlt : ((shifted num den (ideal - q)).1 : ℚ) / (shifted num den (ideal - q)).2 <
      (10 : ℚ) ^ c.precision := by
    rw [shifted_div]
    calc (num : ℚ) / den * (10 : ℚ) ^ (ideal - q)
        < (10 : ℚ) ^ (leadExponent num den + 1) * (10 : ℚ) ^ (ideal - q) := by
          gcongr
          exact div_lt_leadExponent hd num
      _ = (10 : ℚ) ^ (leadExponent num den + 1 + (ideal - q)) := by
          rw [← zpow_add₀ (by norm_num)]
      _ ≤ (10 : ℚ) ^ (c.precision : Int) := zpow_le_zpow_right₀ (by norm_num) hle
      _ = (10 : ℚ) ^ c.precision := zpow_natCast _ _
  rw [div_lt_iff₀ hpos] at hlt
  refine Nat.div_lt_of_lt_mul ?_
  rw [Nat.mul_comm]
  exact_mod_cast hlt

/-! ## Rounding -/

theorem divideHalfEven_le (num den : Nat) : divideHalfEven num den ≤ num / den + 1 := by
  simp only [divideHalfEven]
  split
  · omega
  · split
    · omega
    · split <;> omega

theorem leadExponent_one {num : Nat} (h : num ≠ 0) : leadExponent num 1 = Nat.log 10 num := by
  have hpow := Nat.pow_log_le_self 10 h
  simp only [leadExponent, log10_eq_log, Nat.log_one_right, Nat.cast_zero, sub_zero]
  rw [if_pos]
  unfold shifted
  split
  · have : Nat.log 10 num = 0 := by omega
    simpa [this] using Nat.one_le_iff_ne_zero.mpr h
  · simpa using hpow

/-- A coefficient loses the zeros at its end to the exponent. -/
theorem withoutZeros_eq_bounded (negative : Bool) (k : Nat) (e : Int) (limit : Nat) :
    ∃ k' e', withoutZeros negative k e limit = bounded negative k' e' ∧ k' ≤ k ∧ e ≤ e' ∧
      (k' : ℚ) * (10 : ℚ) ^ e' = k * (10 : ℚ) ^ e := by
  obtain ⟨k', hk⟩ := pow_trailingZeros_dvd limit k
  set zeros := trailingZeros limit k with hz
  refine ⟨k / 10 ^ zeros, e + zeros, by rw [withoutZeros, ← hz], Nat.div_le_self _ _, by omega, ?_⟩
  have hdiv : k / 10 ^ zeros = k' := by
    conv_lhs => rw [hk]
    exact Nat.mul_div_cancel_left _ (by positivity)
  have hcast : (k : ℚ) = (10 : ℚ) ^ zeros * k' := by
    conv_lhs => rw [hk]
    push_cast
    rfl
  rw [hdiv, hcast, zpow_add₀ (by norm_num), zpow_natCast]
  ring

/-- A carry into one digit more is taken back without a change of the value. -/
theorem roundAt_eq_bounded (negative : Bool) {num den : Nat}
    (h : divideHalfEven num den ≤ 10 ^ c.precision) (e : Int) :
    ∃ k' e', c.roundAt negative num den e = bounded negative k' e' ∧ k' < 10 ^ c.precision ∧
      e ≤ e' ∧ (k' : ℚ) * (10 : ℚ) ^ e' = divideHalfEven num den * (10 : ℚ) ^ e := by
  simp only [roundAt]
  split
  · rename_i hq
    have hp := c.precision_pos
    refine ⟨_, _, rfl, Nat.pow_lt_pow_right (by omega) (by omega), by omega, ?_⟩
    have hpow : (10 : ℚ) ^ c.precision = 10 ^ (c.precision - 1) * 10 := by
      rw [← pow_succ]
      congr 1
      omega
    rw [hq, zpow_add₀ (by norm_num)]
    push_cast
    rw [hpow]
    ring
  · exact ⟨_, _, rfl, by omega, le_rfl, rfl⟩

/-- A rounded value is a coefficient of at most as many digits as the precision has, at an exponent
that is not too small, and it is the value nearest to the fraction. -/
theorem exists_bounded {num den : Nat} (hn : num ≠ 0) (hd : 0 < den) (negative : Bool)
    (ideal : Int) : ∃ k e, c.round negative num den ideal = bounded negative k e ∧
      k < 10 ^ c.precision ∧ c.leastExponent ≤ e ∧
      (k : ℚ) * (10 : ℚ) ^ e = c.nearest ((num : ℚ) / den * (10 : ℚ) ^ ideal) := by
  set x : ℚ := (num : ℚ) / den * (10 : ℚ) ^ ideal with hx
  have hquantum : c.leastExponent ≤ c.quantum (leadExponent num den + ideal) := le_max_right _ _
  have hlt := c.div_lt_of_quantum hd ideal num
  have hlog : c.quantum (leadExponent num den + ideal) = c.quantum (Int.log 10 |x|) := by
    rw [leadExponent_add_eq_log hn hd, abs_of_nonneg (by positivity)]
  simp only [round, if_neg hn]
  set q := c.quantum (leadExponent num den + ideal) with hq
  split
  · rename_i h
    obtain ⟨rfl, hle⟩ := h
    refine ⟨num, ideal, rfl, ?_, hquantum.trans hle, ?_⟩
    · rw [hq, quantum, leadExponent_one hn] at hle
      exact Nat.lt_pow_of_log_lt (by omega) (by omega)
    · have hx' : x = (num : ℤ) * (10 : ℚ) ^ ideal := by simp [hx]
      rw [c.nearest_of_multiple ⟨_, hx'⟩ (hlog ▸ hle), hx', Int.cast_natCast]
  · set num' := (shifted num den (ideal - q)).1
    set den' := (shifted num den (ideal - q)).2
    have hpos : 0 < den' := shifted_pos hd num (ideal - q)
    have hunits : (num' : ℚ) / den' = x / (10 : ℚ) ^ q := by
      rw [shifted_div, zpow_sub₀ (by norm_num), hx, mul_div_assoc]
    split
    · rename_i hmod
      obtain ⟨k, e, hb, hk, he, hv⟩ :=
        withoutZeros_eq_bounded negative (num' / den') q (ideal - q).toNat
      refine ⟨k, e, hb, hk.trans_lt hlt, hquantum.trans he, ?_⟩
      have hx' : x = ((num' / den' : ℕ) : ℤ) * (10 : ℚ) ^ q := by
        rw [Int.cast_natCast, Nat.cast_div (Nat.dvd_of_mod_eq_zero hmod) (by positivity), hunits,
          div_mul_cancel₀ _ (by positivity)]
      rw [hv, c.nearest_of_multiple ⟨_, hx'⟩ hlog.ge]
      exact hx'.symm
    -- The value is rounded, perhaps up to one digit more.
    · have hle := divideHalfEven_le num' den'
      obtain ⟨k, e, hb, hk, he, hv⟩ :=
        c.roundAt_eq_bounded negative (by omega : divideHalfEven num' den' ≤ _) q
      refine ⟨k, e, hb, hk, hquantum.trans he, ?_⟩
      rw [hv, nearest, ← hlog, ← hunits, ← divideHalfEven_eq_halfEven hpos, Int.cast_natCast]

/-! ## Exact values -/

theorem trailingZeros_zero (n : Nat) : trailingZeros 0 n = 0 := by
  have h : ∀ ps n, zerosFrom ps 0 n = 0 := by
    intro ps
    induction ps with
    | nil => exact fun n => rfl
    | cons p ps ih =>
      intro n
      have hp : ¬ 2 ^ ps.length ≤ 0 := by simp
      rw [zerosFrom, if_neg fun h => hp h.1]
      exact ih n
  exact h _ n

theorem log_mul_pow {k : Nat} (hk : k ≠ 0) (n : Nat) :
    Nat.log 10 (k * 10 ^ n) = Nat.log 10 k + n := by
  have hdiv := Nat.log_div_base_pow 10 (k * 10 ^ n) n
  rw [Nat.mul_div_cancel _ (by positivity)] at hdiv
  have hle : n ≤ Nat.log 10 (k * 10 ^ n) :=
    Nat.le_log_of_pow_le (by omega) (Nat.le_mul_of_pos_left _ (Nat.pos_of_ne_zero hk))
  omega

/-- A whole number of units that is not below its quantum stays as it is. -/
theorem round_of_quantum_le {num : Nat} (hn : num ≠ 0) {ideal : Int}
    (hq : c.quantum (Nat.log 10 num + ideal) ≤ ideal) (negative : Bool) :
    c.round negative num 1 ideal = bounded negative num ideal := by
  simp only [round, if_neg hn, leadExponent_one hn, true_and]
  rw [if_pos hq]

/-- A whole number of units whose zeros at the end reach up to its quantum loses these zeros. -/
theorem round_of_quantum_eq {k j : Nat} (hk : k ≠ 0) (hj : 0 < j) {ideal : Int}
    (hq : c.quantum (Nat.log 10 (k * 10 ^ j) + ideal) = ideal + j) (negative : Bool) :
    c.round negative (k * 10 ^ j) 1 ideal = bounded negative k (ideal + j) := by
  have hn : k * 10 ^ j ≠ 0 := Nat.mul_ne_zero hk (by positivity)
  have hlt : ¬ ideal + j ≤ ideal := by omega
  have hshift : shifted (k * 10 ^ j) 1 (ideal - (ideal + j)) = (k * 10 ^ j, 10 ^ j) := by
    rw [shifted, if_neg (by omega), Nat.one_mul]
    congr 2
    omega
  have hlimit : (ideal - (ideal + j)).toNat = 0 := by omega
  have hdiv : k * 10 ^ j / 10 ^ j = k := Nat.mul_div_cancel _ (by positivity)
  simp only [round, if_neg hn, leadExponent_one hn, hq, true_and]
  rw [if_neg hlt, hshift]
  simp only [Nat.mul_mod_left, if_true, hdiv, hlimit, withoutZeros, trailingZeros_zero, pow_zero,
    Nat.div_one, Nat.cast_zero, add_zero]

/-! ## Numbers that fit -/

/-- A number fits into a context: it has at most as many digits as the precision, its exponent is
not too small, and its highest digit is not too high. -/
structure Fits (a : Decimal) : Prop where
  coefficient_lt : a.coefficient < 10 ^ c.precision
  leastExponent_le : c.leastExponent ≤ a.exponent
  le_maxExponent : a.coefficient ≠ 0 → a.exponent + Nat.log 10 a.coefficient ≤ maxExponent

theorem bounded_eq_ok {negative : Bool} {k : Nat} {e : Int} {a : Decimal} :
    bounded negative k e = .ok a ↔
      a = ⟨negative, k, e⟩ ∧ (k ≠ 0 → e + Nat.log 10 k ≤ maxExponent) := by
  unfold bounded
  rw [log10_eq_log]
  split
  · rename_i h
    refine ⟨fun h => (by cases h), fun h' => ?_⟩
    have := h'.2 h.1
    omega
  · rename_i h
    rw [Except.ok.injEq, eq_comm, iff_self_and]
    exact fun _ hk => not_lt.mp fun hlt => h ⟨hk, hlt⟩

theorem bounded_eq_error {negative : Bool} {k : Nat} {e : Int} {s : Signal}
    (h : bounded negative k e = .error s) : s = .overflow := by
  unfold bounded at h
  split at h <;> cases h
  rfl

theorem fits_round {num den : Nat} (hd : 0 < den) {negative : Bool} {ideal : Int} {a : Decimal}
    (h : c.round negative num den ideal = .ok a) : c.Fits a := by
  by_cases hn : num = 0
  · rw [round, if_pos hn] at h
    cases h
    exact ⟨by positivity, le_max_left _ _, fun h => absurd rfl h⟩
  · obtain ⟨k, e, hb, hk, he, -⟩ := c.exists_bounded hn hd negative ideal
    rw [hb] at h
    obtain ⟨rfl, hmax⟩ := bounded_eq_ok.mp h
    exact ⟨hk, he, hmax⟩

theorem round_eq_error {num den : Nat} (hd : 0 < den) {negative : Bool} {ideal : Int} {s : Signal}
    (h : c.round negative num den ideal = .error s) : s = .overflow := by
  by_cases hn : num = 0
  · rw [round, if_pos hn] at h
    cases h
  · obtain ⟨k, e, hb, -⟩ := c.exists_bounded hn hd negative ideal
    exact bounded_eq_error (hb ▸ h)

end Context

/-! ## Operators -/

namespace BinaryOp

open Decimal

variable {c : Context} {op : BinaryOp} {a b : Decimal}

/-- Unless something is divided by zero, a result is a truth value or a rounded fraction. -/
theorem apply_cases (h : ¬ (op = .divide ∧ b.isZero = true)) :
    (∃ t, op.apply c a b = .ok (truth t)) ∨
      ∃ negative num den ideal, 0 < den ∧ op.apply c a b = c.round negative num den ideal := by
  cases op with
  | multiply | add | subtract => exact .inr ⟨_, _, 1, _, Nat.one_pos, rfl⟩
  | divide =>
    have hb : b.isZero = false := by simpa using h
    have hpos : 0 < b.coefficient := Nat.pos_of_ne_zero (by simpa [isZero] using hb)
    exact .inr ⟨_, _, _, _, hpos, if_neg (by rw [hb]; exact Bool.false_ne_true)⟩
  | _ => exact .inl ⟨_, rfl⟩

theorem fits_truth (t : Bool) : c.Fits (truth t) where
  coefficient_lt := by
    have := Nat.one_lt_pow (by have := c.precision_pos; omega : c.precision ≠ 0) (by omega : 1 < 10)
    cases t
    · exact Nat.lt_trans Nat.one_pos this
    · exact this
  leastExponent_le := by
    have := c.precision_pos
    simp only [Context.leastExponent, Context.minExponent, truth]
    omega
  le_maxExponent _ := by cases t <;> simp [truth, Context.maxExponent]

/-- The results of operators fit. -/
theorem fits_apply {r : Decimal} (h : op.apply c a b = .ok r) : c.Fits r := by
  by_cases hz : op = .divide ∧ b.isZero = true
  · obtain ⟨rfl, hb⟩ := hz
    rw [apply, Decimal.divide, hb, if_pos rfl] at h
    cases h
  · rcases apply_cases (c := c) (a := a) hz with ⟨t, ht⟩ | ⟨negative, num, den, ideal, hd, hr⟩
    · rw [ht] at h
      cases h
      exact fits_truth t
    · exact c.fits_round hd (hr ▸ h)

/-- The only signal is the overflow, unless something is divided by zero. -/
theorem apply_eq_error {s : Signal} (h : op.apply c a b = .error s)
    (hz : ¬ (op = .divide ∧ b.isZero = true)) : s = .overflow := by
  rcases apply_cases (c := c) (a := a) hz with ⟨t, ht⟩ | ⟨negative, num, den, ideal, hd, hr⟩
  · rw [ht] at h
    cases h
  · exact c.round_eq_error hd (hr ▸ h)

end BinaryOp

namespace Decimal

variable {c : Context} {a : Decimal}

theorem fits_negate {r : Decimal} (h : a.negate c = .ok r) : c.Fits r :=
  c.fits_round Nat.one_pos h

/-- A literal of no more digits than the precision fits. -/
theorem fits_of_ofLiteral? (hc : (c.precision : Int) ≤ Context.maxExponent) {t : Text}
    (ha : ofLiteral? t = some a) (ht : t.countP DecimalDigit.isDigit ≤ c.precision) :
    c.Fits a := by
  obtain ⟨negative, whole, fraction, rfl, hcount⟩ := exists_ofDigits_of_ofLiteral? ha
  have hlt : (ofDigits negative whole fraction).coefficient < 10 ^ c.precision :=
    (ofDigits_coefficient_lt negative whole fraction).trans_le
      (Nat.pow_le_pow_right (by omega) (by omega))
  refine ⟨hlt, ?_, fun hz => ?_⟩
  · simp only [Context.leastExponent, Context.minExponent, ofDigits]
    omega
  · have hlog := Nat.log_lt_of_lt_pow hz hlt
    have hexponent : (ofDigits negative whole fraction).exponent = -fraction.length := rfl
    omega

/-! ## Rounding what is read back -/

/-- Powers of ten may go from the exponent to the coefficient. -/
theorem settled_mul_pow (negative : Bool) (k n : Nat) {e : Int} (he : 0 ≤ e) :
    settled ⟨negative, k * 10 ^ n, e⟩ = settled ⟨negative, k, e + n⟩ := by
  obtain ⟨m, rfl⟩ := Int.eq_ofNat_of_zero_le he
  have hpow : k * 10 ^ n * 10 ^ m = k * 10 ^ (m + n) := by rw [Nat.mul_assoc, ← pow_add, add_comm n]
  have hzero : (k * 10 ^ n == 0) = (k == 0) := by
    rw [Bool.eq_iff_iff, beq_iff_eq, beq_iff_eq, Nat.mul_eq_zero]
    exact or_iff_left (by positivity)
  have htoNat : ((m : Int) + n).toNat = m + n := by omega
  simp only [settled, isZero, hzero, Int.toNat_natCast, hpow, htoNat, Decimal.mk.injEq, true_and]
  omega

/-- Rounding does not change a number that fits and has been settled, but for the exponent. -/
theorem round_settled (hf : c.Fits a) (hz : a.coefficient ≠ 0) :
    ∃ r, c.round a.negative a.settled.coefficient 1 a.settled.exponent = .ok r ∧
      r.settled = a.settled := by
  obtain ⟨negative, k, e⟩ := a
  have hlog : Nat.log 10 k < c.precision := Nat.log_lt_of_lt_pow hz hf.coefficient_lt
  have hleast := hf.leastExponent_le
  have hmax := hf.le_maxExponent hz
  simp only at hz hlog hleast hmax
  simp only [settled_coefficient, settled_exponent]
  by_cases he : e ≤ 0
  · have hq : c.quantum (Nat.log 10 k + e) ≤ e := max_le (by omega) hleast
    rw [Int.toNat_of_nonpos he, min_eq_left he, pow_zero, Nat.mul_one,
      c.round_of_quantum_le hz hq]
    exact ⟨_, Context.bounded_eq_ok.mpr ⟨rfl, fun _ => hmax⟩, rfl⟩
  · obtain ⟨m, rfl⟩ := Int.eq_ofNat_of_zero_le (not_le.mp he).le
    have hlead := Context.log_mul_pow hz m
    rw [min_eq_right (by omega), Int.toNat_natCast]
    by_cases hq : c.quantum (Nat.log 10 (k * 10 ^ m) + 0) ≤ 0
    · rw [c.round_of_quantum_le (Nat.mul_ne_zero hz (by positivity)) hq]
      refine ⟨_, Context.bounded_eq_ok.mpr ⟨rfl, fun _ => by omega⟩, ?_⟩
      rw [settled_mul_pow _ _ _ le_rfl, zero_add]
    · obtain ⟨i, j, rfl, hj, hq⟩ : ∃ i j : Nat, m = i + j ∧ 0 < j ∧
          c.quantum (Nat.log 10 (k * 10 ^ m) + 0) = 0 + j := by
        simp only [Context.quantum, Context.leastExponent, Context.minExponent] at hq ⊢
        refine ⟨m - (Nat.log 10 (k * 10 ^ m) + 1 - c.precision),
          Nat.log 10 (k * 10 ^ m) + 1 - c.precision, ?_, ?_, ?_⟩ <;> omega
      have hki : k * 10 ^ i ≠ 0 := Nat.mul_ne_zero hz (by positivity)
      rw [pow_add, ← Nat.mul_assoc] at hq ⊢
      rw [c.round_of_quantum_eq hki hj hq]
      refine ⟨_, Context.bounded_eq_ok.mpr ⟨rfl, fun _ => ?_⟩, ?_⟩
      · rw [Context.log_mul_pow hz]
        push_cast at hmax ⊢
        omega
      · rw [settled_mul_pow _ _ _ (by omega)]
        congr 2
        push_cast
        omega

end Decimal

end Reckon

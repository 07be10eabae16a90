import Reckon.Proofs.Decimal.Arithmetic

/-!
# The magnitude of results

A bound on the size of a number and a bound on how fine it is are bounds on the results of operators
on it. The finer a divisor may be, the larger is a quotient; the larger it may be, the smaller is
the quotient. A difference of numbers that are not too fine is zero or not too small. Rounding keeps
both bounds, and a quotient is no finer than its highest digit and the precision allow.

## Main definitions

* `Within u g x`: the fraction `x` is at most `10^u` and a whole number of units of `10^-g`
* `Moderate u l x`: the fraction `x` is at most `10^u`, and zero or at least `10^-l`
* `Context.Subnormal`: a value whose highest digit is too low for full precision

## Main results

* `exists_within_of_ofLiteral?`: the bounds of a literal add up to at most its length
* `exists_within_exact`: the bounds of a result add up to at most those of the operands and the
  precision
* `rounded_eq_ok`, `Moderate.nearest`: a moderate value is rounded without overflow and underflow
-/

namespace Reckon

/-- The fraction is at most `10^u`, and a whole number of units of `10^-g`. -/
structure Within (u g : Nat) (x : ℚ) : Prop where
  abs_le : |x| ≤ (10 : ℚ) ^ u
  multiple : Multiple (-g) x

/-- The fraction is at most `10^u` and, unless it is zero, at least `10^-l`. -/
structure Moderate (u l : Nat) (x : ℚ) : Prop where
  abs_le : |x| ≤ (10 : ℚ) ^ u
  le_abs : x ≠ 0 → (10 : ℚ) ^ (-(l : Int)) ≤ |x|

namespace Within

variable {u g u' g' : Nat} {x y : ℚ}

theorem moderate (h : Within u g x) : Moderate u g x := ⟨h.abs_le, h.multiple.le_abs⟩

theorem neg (h : Within u g x) : Within u g (-x) :=
  ⟨(abs_neg x).trans_le h.abs_le, h.multiple.neg⟩

theorem mul (h : Within u g x) (h' : Within u' g' y) : Within (u + u') (g + g') (x * y) where
  abs_le := by
    rw [abs_mul, pow_add]
    exact mul_le_mul h.abs_le h'.abs_le (abs_nonneg y) (by positivity)
  multiple := by
    have := h.multiple.mul h'.multiple
    rwa [← neg_add, ← Nat.cast_add] at this

theorem add (h : Within u g x) (h' : Within u' g' y) :
    Within (max u u' + 1) (max g g') (x + y) where
  abs_le := by
    have hpow {n : Nat} (hn : n ≤ max u u') : (10 : ℚ) ^ n ≤ 10 ^ max u u' :=
      pow_le_pow_right₀ (by norm_num) hn
    calc |x + y| ≤ |x| + |y| := abs_add_le x y
      _ ≤ 10 ^ u + 10 ^ u' := add_le_add h.abs_le h'.abs_le
      _ ≤ 10 ^ max u u' + 10 ^ max u u' :=
        add_le_add (hpow (le_max_left ..)) (hpow (le_max_right ..))
      _ ≤ 10 ^ (max u u' + 1) := by
        rw [pow_succ]
        linarith [pow_pos (by norm_num : (0 : ℚ) < 10) (max u u')]
  multiple := (h.multiple.mono (by omega)).add (h'.multiple.mono (by omega))

/-- The finer the divisor is, the larger the quotient may be, and the larger it is, the smaller. -/
theorem div (h : Within u g x) (h' : Within u' g' y) (hy : y ≠ 0) :
    Moderate (u + g') (g + u') (x / y) where
  abs_le := by
    have hpos : (0 : ℚ) < |y| := abs_pos.mpr hy
    rw [abs_div, div_le_iff₀ hpos]
    calc |x| ≤ 10 ^ u := h.abs_le
      _ = 10 ^ (u + g') * 10 ^ (-(g' : Int)) := by
        rw [pow_add, zpow_neg, zpow_natCast]
        field_simp
      _ ≤ 10 ^ (u + g') * |y| := by
        gcongr
        exact h'.multiple.le_abs hy
  le_abs hxy := by
    have hpos : (0 : ℚ) < |y| := abs_pos.mpr hy
    have hx : x ≠ 0 := fun hx => hxy (by rw [hx, zero_div])
    rw [abs_div, le_div_iff₀ hpos]
    calc (10 : ℚ) ^ (-((g + u' : Nat) : Int)) * |y| ≤ 10 ^ (-((g + u' : Nat) : Int)) * 10 ^ u' := by
          gcongr
          exact h'.abs_le
      _ = 10 ^ (-(g : Int)) := by
        rw [← zpow_natCast, ← zpow_add₀ (by norm_num)]
        congr 1
        push_cast
        ring
      _ ≤ |x| := h.multiple.le_abs hx

theorem indicator (p : Prop) [Decidable p] : Within 0 0 (BinaryOp.indicator p) := by
  unfold BinaryOp.indicator
  split
  · exact ⟨by simp, 1, by simp⟩
  · exact ⟨by simp, Multiple.zero _⟩

/-- Rounding keeps the bounds. -/
theorem nearest (h : Within u g x) (c : Context) : Within u g (c.nearest x) :=
  ⟨c.abs_nearest_le_pow h.abs_le, h.multiple.nearest c⟩

end Within

namespace Moderate

variable {u l : Nat} {x : ℚ} (c : Context)

theorem mono {l' : Nat} (h : Moderate u l x) (hl : l ≤ l') : Moderate u l' x where
  abs_le := h.abs_le
  le_abs hx := (zpow_le_zpow_right₀ (by norm_num) (by omega)).trans (h.le_abs hx)

theorem neg_le_log (h : Moderate u l x) (hx : x ≠ 0) : -(l : Int) ≤ Int.log 10 |x| := by
  rw [← Int.zpow_le_iff_le_log (by norm_num) (abs_pos.mpr hx)]
  exact_mod_cast h.le_abs hx

/-- A rounded value is no finer than its highest digit and the precision allow. -/
theorem within_nearest (h : Moderate u l x) : Within u (l + (c.precision - 1)) (c.nearest x) where
  abs_le := c.abs_nearest_le_pow h.abs_le
  multiple := by
    by_cases hx : x = 0
    · rw [hx, c.nearest_zero]
      exact Multiple.zero _
    · have hlog := h.neg_le_log hx
      have hp := c.precision_pos
      refine (c.multiple_nearest x).mono ((le_max_left _ _).trans' ?_)
      omega

end Moderate

/-! ## Literals -/

namespace Decimal

theorem multiple_toRat (a : Decimal) : Multiple a.exponent a.toRat := by
  unfold toRat signed
  split
  · exact Multiple.neg ⟨a.coefficient, by push_cast; rfl⟩
  · exact ⟨a.coefficient, by push_cast; rfl⟩

/-- The bounds of a literal add up to at most its length. -/
theorem exists_within_of_ofLiteral? {t : Text} {a : Decimal} (h : ofLiteral? t = some a) :
    ∃ u g, u + g ≤ t.length ∧ Within u g a.toRat := by
  obtain ⟨negative, whole, fraction, rfl, hcount⟩ := exists_ofDigits_of_ofLiteral? h
  refine ⟨whole.length, fraction.length, hcount.trans_le List.countP_le_length, ?_,
    multiple_toRat _⟩
  set k := (ofDigits negative whole fraction).coefficient
  have hle : (k : ℚ) ≤ 10 ^ (whole.length + fraction.length) := by
    exact_mod_cast (ofDigits_coefficient_lt negative whole fraction).le
  rw [abs_toRat]
  calc (k : ℚ) * (10 : ℚ) ^ (-(fraction.length : Int))
      ≤ 10 ^ (whole.length + fraction.length) * (10 : ℚ) ^ (-(fraction.length : Int)) := by gcongr
    _ = 10 ^ whole.length := by
      rw [pow_add, zpow_neg, zpow_natCast]
      field_simp

end Decimal

/-! ## Results -/

/-- The bounds of a result, before and after it is rounded, add up to at most those of the operands
and the precision. -/
theorem exists_within_exact (c : Context) (op : BinaryOp) {u g u' g' : Nat} {x y : ℚ}
    (h : Within u g x) (h' : Within u' g' y) (hy : op = .divide → y ≠ 0) :
    ∃ v k, v + k ≤ u + g + (u' + g') + c.precision ∧ Moderate v k (op.exact x y) ∧
      Within v k (c.nearest (op.exact x y)) := by
  have hp := c.precision_pos
  have hwithin {v k : Nat} {z : ℚ} (hz : Within v k z)
      (hle : v + k ≤ u + g + (u' + g') + c.precision) :
      ∃ v k, v + k ≤ u + g + (u' + g') + c.precision ∧ Moderate v k z ∧ Within v k (c.nearest z) :=
    ⟨v, k, hle, hz.moderate, hz.nearest c⟩
  cases op with
  | multiply => exact hwithin (h.mul h') (by omega)
  | divide =>
    have hz := h.div h' (hy rfl)
    exact ⟨_, _, by omega, hz.mono (by omega), hz.within_nearest c⟩
  | add => exact hwithin (h.add h') (by omega)
  | subtract =>
    have hz := h.add h'.neg
    rw [← sub_eq_add_neg] at hz
    exact hwithin hz (by omega)
  | _ => exact hwithin (Within.indicator _) (by omega)

namespace Context

/-- A value that is not zero and whose highest digit is too low for full precision. -/
def Subnormal (x : ℚ) : Prop := x ≠ 0 ∧ |x| < (10 : ℚ) ^ minExponent

end Context

namespace Moderate

variable {u l : Nat} {x : ℚ} (c : Context)

theorem not_subnormal (h : Moderate u l x) (hl : l ≤ 999999) : ¬ Context.Subnormal x := by
  rintro ⟨hx, hlt⟩
  have hpow : (10 : ℚ) ^ Context.minExponent ≤ 10 ^ (-(l : Int)) :=
    zpow_le_zpow_right₀ (by norm_num) (by simp only [Context.minExponent]; omega)
  exact absurd (h.le_abs hx) (not_le.mpr (hlt.trans_le hpow))

/-- The highest digit of a moderate value is kept. -/
theorem zpow_log_le_abs_nearest (h : Moderate u l x) (hl : l ≤ 999999) (hx : x ≠ 0) :
    (10 : ℚ) ^ Int.log 10 |x| ≤ |c.nearest x| := by
  refine c.zpow_log_le_abs_nearest hx ?_
  have := h.neg_le_log hx
  have := c.precision_pos
  simp only [Context.leastExponent, Context.minExponent]
  omega

theorem nearest_ne_zero (h : Moderate u l x) (hl : l ≤ 999999) (hx : x ≠ 0) : c.nearest x ≠ 0 := by
  have hpos : (0 : ℚ) < 10 ^ Int.log 10 |x| := by positivity
  exact abs_pos.mp (hpos.trans_le (h.zpow_log_le_abs_nearest c hl hx))

/-- Rounding keeps a value moderate. -/
theorem nearest (h : Moderate u l x) (hl : l ≤ 999999) : Moderate u l (c.nearest x) where
  abs_le := c.abs_nearest_le_pow h.abs_le
  le_abs hne := by
    have hx : x ≠ 0 := by
      rintro rfl
      exact hne c.nearest_zero
    calc (10 : ℚ) ^ (-(l : Int)) ≤ 10 ^ Int.log 10 |x| :=
          zpow_le_zpow_right₀ (by norm_num) (h.neg_le_log hx)
      _ ≤ |c.nearest x| := h.zpow_log_le_abs_nearest c hl hx

/-- A moderate value is rounded without an overflow. -/
theorem rounded_eq_ok (h : Moderate u l x) (hu : u ≤ 999999) :
    c.rounded x = .ok (c.nearest x) := by
  refine if_neg (not_lt.mpr ?_)
  by_cases hz : c.nearest x = 0
  · simp [hz, Context.maxExponent]
  · have hlog : Int.log 10 |c.nearest x| ≤ u := by
      rw [← Int.log_zpow (R := ℚ) (by norm_num : 1 < 10) u]
      refine Int.log_mono_right (abs_pos.mpr hz) ?_
      exact_mod_cast c.abs_nearest_le_pow h.abs_le
    simp only [Context.maxExponent]
    omega

end Moderate

end Reckon

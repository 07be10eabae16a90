import Reckon.Proofs.Decimal.Nearest

/-!
# Significant digits

What it means to round a fraction to a number of significant digits, without regard to contexts and
quanta: of all fractions with at most so many digits, at whatever place they begin, the nearest one
is taken, and of two equally near ones the one whose digit at the last place is even. Rounding to a
context does this to every value of normal size, that is, unless the exponents of the context come
to their end.

## Main definitions

* `Significant p x`: the fraction `x` has at most `p` significant digits
* `lastPlace p x`: the exponent of the last of the first `p` digits of `x`
* `RoundsTo p x v`: the fraction `x`, rounded to `p` significant digits, is `v`
* `Context.Normal`: the values of normal size

## Main results

* `RoundsTo.unique`: there is only one rounded fraction
* `Context.roundsTo_nearest`: a context rounds values of normal size to as many digits as its
  precision
* `Context.Normal.rounded_eq_ok`: and it does so without an overflow
-/

namespace Reckon

/-- The fraction has at most `p` significant digits. -/
def Significant (p : Nat) (x : ℚ) : Prop :=
  ∃ (k : ℤ) (e : Int), |k| < 10 ^ p ∧ x = k * (10 : ℚ) ^ e

/-- The exponent of the last of the first `p` digits of a fraction. -/
def lastPlace (p : Nat) (x : ℚ) : Int := Int.log 10 |x| + 1 - p

/-- The fraction `x`, rounded to `p` significant digits, is `v`. -/
structure RoundsTo (p : Nat) (x v : ℚ) : Prop where
  significant : Significant p v
  /-- no fraction with so few digits is nearer -/
  nearest : ∀ w, Significant p w → |x - v| ≤ |x - w|
  /-- if another one is as near, the digit at the last place is even -/
  even : ∀ w, Significant p w → w ≠ v → |x - w| = |x - v| →
    ∃ k : ℤ, k % 2 = 0 ∧ v = k * (10 : ℚ) ^ lastPlace p x

/-- A fraction of at most `p` digits is a multiple of the `p`th place from `lead` on, or its digits
begin below `lead`. -/
theorem Significant.multiple_or_lt {p : Nat} {w : ℚ} (h : Significant p w) (lead : Int) :
    Multiple (lead + 1 - p) w ∨ |w| < (10 : ℚ) ^ lead := by
  obtain ⟨k, e, hk, rfl⟩ := h
  by_cases he : lead + 1 - p ≤ e
  · exact .inl (Multiple.mono ⟨k, rfl⟩ he)
  · right
    have hk' : |(k : ℚ)| < (10 : ℚ) ^ (p : Int) := by
      rw [zpow_natCast]
      exact_mod_cast hk
    rw [abs_mul, abs_of_pos (by positivity : (0 : ℚ) < (10 : ℚ) ^ e)]
    calc |(k : ℚ)| * (10 : ℚ) ^ e < (10 : ℚ) ^ (p : Int) * (10 : ℚ) ^ e := by gcongr
      _ = (10 : ℚ) ^ (p + e) := (zpow_add₀ (by norm_num) _ _).symm
      _ ≤ (10 : ℚ) ^ lead := zpow_le_zpow_right₀ (by norm_num) (by omega)

/-- A multiple of the last place has no digits beyond it. -/
theorem significant_of_multiple {p : Nat} {x : ℚ} (h : Multiple (lastPlace p x) x) :
    Significant p x := by
  obtain ⟨m, hm⟩ := h
  set u := (10 : ℚ) ^ lastPlace p x with hu
  have hpos : 0 < u := by positivity
  have hlog : |x| < (10 : ℚ) ^ (Int.log 10 |x| + 1) := by
    exact_mod_cast Int.lt_zpow_succ_log_self (by norm_num : 1 < 10) |x|
  have hpow : (10 : ℚ) ^ (Int.log 10 |x| + 1) = (10 : ℚ) ^ p * u := by
    rw [hu, ← zpow_natCast, ← zpow_add₀ (by norm_num), lastPlace]
    congr 1
    ring
  have habs : |x| = |(m : ℚ)| * u := by
    conv_lhs => rw [hm]
    rw [abs_mul, abs_of_pos hpos]
  rw [hpow, habs] at hlog
  refine ⟨m, _, ?_, hm⟩
  exact_mod_cast lt_of_mul_lt_mul_right hlog hpos.le

namespace RoundsTo

variable {p : Nat} {x v v' : ℚ}

/-- A fraction with so few digits is not changed. -/
theorem eq_of_significant (h : RoundsTo p x v) (hx : Significant p x) : v = x := by
  have hle := h.nearest x hx
  rw [sub_self, abs_zero] at hle
  exact (sub_eq_zero.mp (abs_nonpos_iff.mp hle)).symm

/-- There is only one such fraction. -/
theorem unique (h : RoundsTo p x v) (h' : RoundsTo p x v') : v' = v := by
  by_contra hne
  have htie : |x - v'| = |x - v| :=
    le_antisymm (h'.nearest v h.significant) (h.nearest v' h'.significant)
  obtain ⟨k, hk, hv⟩ := h.even v' h'.significant hne htie
  obtain ⟨n, hn, hv'⟩ := h'.even v h.significant (Ne.symm hne) htie.symm
  -- The fraction is half way between both, and both are even numbers of units.
  obtain ⟨m, hm⟩ : ∃ m, k + n = 2 * m := ⟨(k + n) / 2, by omega⟩
  have hx : x = m * (10 : ℚ) ^ lastPlace p x := by
    have hmid : x - v' = -(x - v) := by
      apply (abs_eq_abs.mp htie).resolve_left
      intro hsame
      exact hne (by linarith)
    have hcast : (k : ℚ) + n = 2 * m := by exact_mod_cast hm
    have htwo : 2 * x = v + v' := by linarith
    rw [hv, hv', ← add_mul, hcast] at htwo
    linarith
  have hs := significant_of_multiple ⟨m, hx⟩
  exact hne ((h'.eq_of_significant hs).trans (h.eq_of_significant hs).symm)

theorem iff_eq (h : RoundsTo p x v) : RoundsTo p x v' ↔ v' = v := by
  constructor
  · exact h.unique
  · rintro rfl
    exact h

end RoundsTo

namespace Context

variable (c : Context) {x : ℚ}

/-! ## Values of normal size -/

/-- The value is zero, or neither subnormal nor too large. -/
def Normal (x : ℚ) : Prop := x = 0 ∨ (10 : ℚ) ^ minExponent ≤ |x| ∧ |x| < (10 : ℚ) ^ maxExponent

theorem Normal.minExponent_le (h : Normal x) (hx : x ≠ 0) : minExponent ≤ Int.log 10 |x| := by
  rw [← Int.zpow_le_iff_le_log (by norm_num) (abs_pos.mpr hx)]
  exact_mod_cast (h.resolve_left hx).1

theorem Normal.log_lt (h : Normal x) (hx : x ≠ 0) : Int.log 10 |x| < maxExponent := by
  rw [← Int.lt_zpow_iff_log_lt (by norm_num) (abs_pos.mpr hx)]
  exact_mod_cast (h.resolve_left hx).2

/-- The quantum of a value that is not too small is the place of its last digit. -/
theorem quantum_eq_lastPlace (h : minExponent ≤ Int.log 10 |x|) :
    c.quantum (Int.log 10 |x|) = lastPlace c.precision x := by
  simp only [quantum, leastExponent, lastPlace]
  omega

/-- A value of normal size is rounded without an overflow. -/
theorem Normal.rounded_eq_ok (h : Normal x) : c.rounded x = .ok (c.nearest x) := by
  apply if_neg
  rw [not_lt]
  by_cases hz : c.nearest x = 0
  · simp [hz, maxExponent]
  · have hx : x ≠ 0 := by
      rintro rfl
      exact hz c.nearest_zero
    have hlow := h.minExponent_le hx
    have hhigh := h.log_lt hx
    have hle : |c.nearest x| ≤ (10 : ℚ) ^ (Int.log 10 |x| + 1) := by
      apply c.abs_nearest_le
      · have := c.precision_pos
        simp only [leastExponent]
        omega
      · exact_mod_cast (Int.lt_zpow_succ_log_self (by norm_num : 1 < 10) |x|).le
    have hlog : Int.log 10 |c.nearest x| ≤ Int.log 10 |x| + 1 := by
      rw [← Int.log_zpow (R := ℚ) (by norm_num : 1 < 10) (Int.log 10 |x| + 1)]
      exact Int.log_mono_right (abs_pos.mpr hz) (by exact_mod_cast hle)
    omega

/-! ## Rounding to a context -/

/-- Distances in units of a power of ten. -/
theorem abs_sub_mul_zpow (x : ℚ) (n : ℤ) (q : Int) :
    |x - n * (10 : ℚ) ^ q| = |x / (10 : ℚ) ^ q - n| * (10 : ℚ) ^ q := by
  have hpos : (0 : ℚ) < (10 : ℚ) ^ q := by positivity
  rw [← abs_of_pos hpos, ← abs_mul, abs_of_pos hpos, sub_mul, div_mul_cancel₀ _ hpos.ne']

/-- No multiple of the quantum is nearer. -/
theorem abs_sub_nearest_le {w : ℚ} (h : Multiple (c.quantum (Int.log 10 |x|)) w) :
    |x - c.nearest x| ≤ |x - w| := by
  obtain ⟨n, rfl⟩ := h
  rw [nearest, abs_sub_mul_zpow, abs_sub_mul_zpow]
  exact mul_le_mul_of_nonneg_right (abs_sub_halfEven_le _ n) (by positivity)

/-- If another multiple of the quantum is as near, the number of units is even. -/
theorem exists_even_nearest {w : ℚ} (h : Multiple (c.quantum (Int.log 10 |x|)) w)
    (hne : w ≠ c.nearest x) (htie : |x - w| = |x - c.nearest x|) :
    ∃ k : ℤ, k % 2 = 0 ∧ c.nearest x = k * (10 : ℚ) ^ c.quantum (Int.log 10 |x|) := by
  obtain ⟨n, rfl⟩ := h
  refine ⟨_, ?_, rfl⟩
  rw [nearest, abs_sub_mul_zpow, abs_sub_mul_zpow] at htie
  apply halfEven_even_of_tie (n := n)
  · rintro rfl
    exact hne rfl
  · exact mul_right_cancel₀ (by positivity) htie

/-- What is shorter than the highest digit is not as near. -/
theorem abs_sub_nearest_lt {w : ℚ} (hx : x ≠ 0) (hlog : minExponent ≤ Int.log 10 |x|)
    (hw : |w| < (10 : ℚ) ^ Int.log 10 |x|) : |x - c.nearest x| < |x - w| := by
  have hle : (10 : ℚ) ^ Int.log 10 |x| ≤ |x| := by
    exact_mod_cast Int.zpow_log_le_self (by norm_num : 1 < 10) (abs_pos.mpr hx)
  have hz : Multiple (c.quantum (Int.log 10 |x|)) ((10 : ℚ) ^ Int.log 10 |x|) := by
    apply Multiple.zpow
    apply c.quantum_le
    have := c.precision_pos
    simp only [leastExponent]
    omega
  -- The power of ten with the sign of the value lies between both, and is a multiple.
  calc |x - c.nearest x| ≤ |x| - (10 : ℚ) ^ Int.log 10 |x| := by
        rcases abs_cases x with ⟨habs, -⟩ | ⟨habs, -⟩
        · refine (c.abs_sub_nearest_le hz).trans_eq ?_
          rw [abs_of_nonneg (by linarith)]
          linarith
        · refine (c.abs_sub_nearest_le hz.neg).trans_eq ?_
          rw [abs_of_nonpos (by linarith)]
          linarith
    _ < |x| - |w| := by linarith
    _ ≤ |x - w| := abs_sub_abs_le_abs_sub x w

/-- Rounding leaves no more digits than the precision. -/
theorem significant_nearest (x : ℚ) : Significant c.precision (c.nearest x) := by
  set q := c.quantum (Int.log 10 |x|) with hq
  set k := halfEven (x / (10 : ℚ) ^ q) with hk
  have hle : |k| ≤ 10 ^ c.precision := by
    have hpos : (0 : ℚ) < (10 : ℚ) ^ q := by positivity
    have hlog : |x| < (10 : ℚ) ^ (Int.log 10 |x| + 1) := by
      exact_mod_cast Int.lt_zpow_succ_log_self (by norm_num : 1 < 10) |x|
    have hexp : Int.log 10 |x| + 1 ≤ c.precision + q := by
      rw [hq, quantum]
      omega
    rw [hk, abs_halfEven]
    apply halfEven_le
    rw [abs_div, abs_of_pos hpos, div_le_iff₀ hpos]
    calc |x| ≤ (10 : ℚ) ^ (Int.log 10 |x| + 1) := hlog.le
      _ ≤ (10 : ℚ) ^ (c.precision + q) := zpow_le_zpow_right₀ (by norm_num) hexp
      _ = ((10 ^ c.precision : ℤ) : ℚ) * (10 : ℚ) ^ q := by
        rw [zpow_add₀ (by norm_num), zpow_natCast]
        push_cast
        rfl
  rcases hle.lt_or_eq with hlt | heq
  · exact ⟨k, q, hlt, rfl⟩
  -- A carry into one digit more leaves a power of ten.
  · obtain ⟨p, hp⟩ : ∃ p, c.precision = p + 1 := Nat.exists_eq_add_one.mpr c.precision_pos
    have hlt : (10 : ℤ) ^ p < 10 ^ (p + 1) := pow_lt_pow_right₀ (by norm_num) p.lt_succ_self
    have hsucc : (10 : ℚ) ^ (p + 1) * (10 : ℚ) ^ q = (10 : ℚ) ^ p * (10 : ℚ) ^ (q + 1) := by
      rw [zpow_add₀ (by norm_num), zpow_one, pow_succ]
      ring
    rw [hp] at heq ⊢
    rcases eq_or_eq_neg_of_abs_eq heq with he | he
    · refine ⟨10 ^ p, q + 1, by rwa [abs_of_pos (by positivity)], ?_⟩
      rw [nearest, ← hq, ← hk, he]
      push_cast
      exact hsucc
    · refine ⟨-10 ^ p, q + 1, by rwa [abs_neg, abs_of_pos (by positivity)], ?_⟩
      rw [nearest, ← hq, ← hk, he]
      push_cast
      rw [neg_mul, neg_mul, hsucc]

/-- A context rounds values of normal size to as many digits as its precision. -/
theorem roundsTo_nearest (h : Normal x) : RoundsTo c.precision x (c.nearest x) := by
  by_cases hx : x = 0
  · subst hx
    rw [nearest_zero]
    refine ⟨⟨0, 0, by simp, by simp⟩, ?_, ?_⟩
    · intro w _
      simp
    · intro w _ _ _
      exact ⟨0, rfl, by simp⟩
  · have hlog := h.minExponent_le hx
    have hplace := c.quantum_eq_lastPlace hlog
    refine ⟨c.significant_nearest x, ?_, ?_⟩
    · intro w hw
      rcases hw.multiple_or_lt (Int.log 10 |x|) with hm | hlt
      · apply c.abs_sub_nearest_le
        rwa [hplace]
      · exact (c.abs_sub_nearest_lt hx hlog hlt).le
    · intro w hw hne htie
      rcases hw.multiple_or_lt (Int.log 10 |x|) with hm | hlt
      · rw [← hplace]
        apply c.exists_even_nearest _ hne htie
        rwa [hplace]
      · exact absurd htie (c.abs_sub_nearest_lt hx hlog hlt).ne'

end Context

end Reckon

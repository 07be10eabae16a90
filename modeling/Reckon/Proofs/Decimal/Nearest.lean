import Mathlib.Algebra.Order.Field.Power
import Mathlib.Data.Int.Log
import Mathlib.Data.Rat.Floor
import Mathlib.Tactic.Linarith
import Mathlib.Tactic.Positivity
import Mathlib.Tactic.Ring
import Reckon.Decimal.Rounding

/-!
# The nearest value

What a context makes of a fraction, without regard to how it is computed: the fraction is measured
in units of its quantum, and the number of units is rounded to the nearest integer, half to even.
The quantum is given by the highest digit, so the result depends on the fraction only, and not on
the numerator, the denominator and the power of ten that it is given by.

## Main definitions

* `halfEven`: the integer nearest to a fraction
* `Multiple e x`: the fraction `x` is a whole number of units of `10^e`
* `Context.nearest c x`: the fraction `x` rounded to a context
* `Context.rounded c x`: the same, with a signal if the result is too large

## Main results

* `halfEven_spec`, `halfEven_eq`: the nearest integer, and that there is only one
* `abs_sub_halfEven_le`, `halfEven_even_of_tie`: the same, compared with other integers
* `divideHalfEven_eq_halfEven`: the rounded quotient is the nearest integer to the fraction
* `nearest_of_multiple`, `Multiple.nearest`: rounding does not make a fraction finer
* `abs_nearest_le`, `zpow_log_le_abs_nearest`: rounding does not cross a power of ten
-/

namespace Reckon

/-! ## Half to even -/

/-- The integer nearest to a fraction; of two equally near ones the even one. -/
def halfEven (x : ℚ) : ℤ :=
  if Int.fract x < 1 / 2 then ⌊x⌋
  else if 1 / 2 < Int.fract x then ⌊x⌋ + 1
  else if ⌊x⌋ % 2 = 0 then ⌊x⌋ else ⌊x⌋ + 1

/-- What makes an integer the rounded value of a fraction. -/
theorem halfEven_spec (x : ℚ) :
    |x - halfEven x| ≤ 1 / 2 ∧ (|x - halfEven x| = 1 / 2 → halfEven x % 2 = 0) := by
  have hx : x = ⌊x⌋ + Int.fract x := (Int.floor_add_fract x).symm
  have h0 := Int.fract_nonneg x
  have h1 := Int.fract_lt_one x
  unfold halfEven
  split_ifs with hlt hgt heven
  · have hd : x - ⌊x⌋ = Int.fract x := rfl
    rw [hd, abs_of_nonneg h0]
    exact ⟨hlt.le, fun h => absurd h hlt.ne⟩
  · have hd : x - (⌊x⌋ + 1 : ℤ) = -(1 - Int.fract x) := by push_cast; linarith
    rw [hd, abs_neg, abs_of_nonneg (by linarith)]
    exact ⟨by linarith, fun h => by linarith⟩
  · have hd : x - ⌊x⌋ = Int.fract x := rfl
    rw [hd, abs_of_nonneg h0]
    exact ⟨not_lt.mp hgt, fun _ => heven⟩
  · have hd : x - (⌊x⌋ + 1 : ℤ) = -(1 - Int.fract x) := by push_cast; linarith
    rw [hd, abs_neg, abs_of_nonneg (by linarith)]
    exact ⟨by linarith, fun _ => by omega⟩

/-- There is only one such integer. -/
theorem halfEven_eq {x : ℚ} {n : ℤ} (h : |x - n| ≤ 1 / 2) (heven : |x - n| = 1 / 2 → n % 2 = 0) :
    halfEven x = n := by
  obtain ⟨h', heven'⟩ := halfEven_spec x
  set m := halfEven x
  rw [abs_le] at h h'
  have hle : (m : ℚ) ≤ n + 1 := by linarith
  have hge : (n : ℚ) ≤ m + 1 := by linarith
  have hle : m ≤ n + 1 := by exact_mod_cast hle
  have hge : n ≤ m + 1 := by exact_mod_cast hge
  by_contra hne
  -- Two neighbours are equally near, and one of them is odd.
  obtain hm | hm : m = n + 1 ∨ n = m + 1 := by omega
  · have hcast : (m : ℚ) = n + 1 := by exact_mod_cast hm
    have hn := heven (by rw [abs_eq (by norm_num)]; left; linarith)
    have hm' := heven' (by rw [abs_eq (by norm_num)]; right; linarith)
    omega
  · have hcast : (n : ℚ) = m + 1 := by exact_mod_cast hm
    have hn := heven (by rw [abs_eq (by norm_num)]; right; linarith)
    have hm' := heven' (by rw [abs_eq (by norm_num)]; left; linarith)
    omega

/-- No integer is nearer to a fraction than the one that it is rounded to. -/
theorem abs_sub_halfEven_le (x : ℚ) (n : ℤ) : |x - halfEven x| ≤ |x - n| := by
  obtain ⟨h, -⟩ := halfEven_spec x
  by_cases hn : n = halfEven x
  · rw [hn]
  · have hone : (1 : ℚ) ≤ |(n : ℚ) - halfEven x| := by
      exact_mod_cast Int.one_le_abs (sub_ne_zero.mpr hn)
    have htri := abs_sub_le (n : ℚ) x (halfEven x)
    rw [abs_sub_comm (n : ℚ) x] at htri
    linarith

/-- If another integer is as near, the one that a fraction is rounded to is even. -/
theorem halfEven_even_of_tie {x : ℚ} {n : ℤ} (hn : n ≠ halfEven x)
    (h : |x - n| = |x - halfEven x|) : halfEven x % 2 = 0 := by
  obtain ⟨hle, heven⟩ := halfEven_spec x
  have hone : (1 : ℚ) ≤ |(n : ℚ) - halfEven x| := by
    exact_mod_cast Int.one_le_abs (sub_ne_zero.mpr hn)
  have htri := abs_sub_le (n : ℚ) x (halfEven x)
  rw [abs_sub_comm (n : ℚ) x] at htri
  exact heven (by linarith)

@[simp] theorem halfEven_intCast (n : ℤ) : halfEven n = n :=
  halfEven_eq (by simp) (by simp)

theorem halfEven_neg (x : ℚ) : halfEven (-x) = -halfEven x := by
  obtain ⟨h, heven⟩ := halfEven_spec x
  have hd : |-x - (-halfEven x : ℤ)| = |x - halfEven x| := by
    rw [← abs_neg]
    congr 1
    push_cast
    ring
  exact halfEven_eq (hd ▸ h) fun he => by
    have := heven (hd ▸ he)
    omega

theorem halfEven_le {x : ℚ} {n : ℤ} (h : x ≤ n) : halfEven x ≤ n := by
  have hx := (abs_le.mp (halfEven_spec x).1).1
  have : (halfEven x : ℚ) < n + 1 := by linarith
  exact Int.lt_add_one_iff.mp (by exact_mod_cast this)

theorem le_halfEven {x : ℚ} {n : ℤ} (h : n ≤ x) : n ≤ halfEven x := by
  have hx := (abs_le.mp (halfEven_spec x).1).2
  have : (n : ℚ) < halfEven x + 1 := by linarith
  exact Int.lt_add_one_iff.mp (by exact_mod_cast this)

theorem abs_halfEven (x : ℚ) : |halfEven x| = halfEven |x| := by
  rcases le_total 0 x with hx | hx
  · rw [abs_of_nonneg hx, abs_of_nonneg (le_halfEven (by exact_mod_cast hx))]
  · rw [abs_of_nonpos hx, halfEven_neg, abs_of_nonpos (halfEven_le (by exact_mod_cast hx))]

/-- Rounding a quotient is rounding the fraction. -/
theorem divideHalfEven_eq_halfEven {den : Nat} (hd : 0 < den) (num : Nat) :
    (divideHalfEven num den : ℤ) = halfEven ((num : ℚ) / den) := by
  have hd' : (0 : ℚ) < den := by exact_mod_cast hd
  have hfloor : ⌊(num : ℚ) / den⌋ = ((num / den : Nat) : ℤ) := by
    rw [← Int.cast_natCast num, Rat.floor_intCast_div_natCast, Int.natCast_ediv]
  have hfract : Int.fract ((num : ℚ) / den) = ((num % den : Nat) : ℚ) / den :=
    Int.fract_div_natCast_eq_div_natCast_mod
  have hlt : ((num % den : Nat) : ℚ) / den < 1 / 2 ↔ 2 * (num % den) < den := by
    rw [div_lt_div_iff₀ hd' (by norm_num)]
    norm_cast
    omega
  have hgt : 1 / 2 < ((num % den : Nat) : ℚ) / den ↔ den < 2 * (num % den) := by
    rw [div_lt_div_iff₀ (by norm_num) hd']
    norm_cast
    omega
  simp only [halfEven, divideHalfEven, hfloor, hfract, hlt, hgt]
  split_ifs <;> omega

/-! ## Multiples of powers of ten -/

/-- The fraction is a whole number of units of `10^e`. -/
def Multiple (e : Int) (x : ℚ) : Prop := ∃ k : ℤ, x = k * (10 : ℚ) ^ e

namespace Multiple

variable {e e' : Int} {x y : ℚ}

theorem mono (h : Multiple e x) (he : e' ≤ e) : Multiple e' x := by
  obtain ⟨k, rfl⟩ := h
  obtain ⟨n, rfl⟩ := Int.le.dest he
  refine ⟨k * 10 ^ n, ?_⟩
  rw [zpow_add₀ (by norm_num), zpow_natCast]
  push_cast
  ring

/-- A power of ten is a multiple of a lower one. -/
theorem zpow {u : Int} (h : e ≤ u) : Multiple e ((10 : ℚ) ^ u) :=
  mono ⟨1, by simp⟩ h

theorem zero (e : Int) : Multiple e 0 := ⟨0, by simp⟩

theorem neg (h : Multiple e x) : Multiple e (-x) := by
  obtain ⟨k, rfl⟩ := h
  exact ⟨-k, by push_cast; ring⟩

theorem add (h : Multiple e x) (h' : Multiple e y) : Multiple e (x + y) := by
  obtain ⟨k, rfl⟩ := h
  obtain ⟨n, rfl⟩ := h'
  exact ⟨k + n, by push_cast; ring⟩

theorem mul (h : Multiple e x) (h' : Multiple e' y) : Multiple (e + e') (x * y) := by
  obtain ⟨k, rfl⟩ := h
  obtain ⟨n, rfl⟩ := h'
  refine ⟨k * n, ?_⟩
  rw [zpow_add₀ (by norm_num)]
  push_cast
  ring

/-- A multiple that is not zero is at least one unit. -/
theorem le_abs (h : Multiple e x) (hx : x ≠ 0) : (10 : ℚ) ^ e ≤ |x| := by
  obtain ⟨k, rfl⟩ := h
  have hk : k ≠ 0 := by
    rintro rfl
    exact hx (by simp)
  have hone : (1 : ℚ) ≤ |(k : ℚ)| := by exact_mod_cast Int.one_le_abs hk
  rw [abs_mul, abs_of_pos (by positivity : (0 : ℚ) < 10 ^ e)]
  exact le_mul_of_one_le_left (by positivity) hone

end Multiple

/-! ## Rounding to a context -/

namespace Context

variable (c : Context) {x : ℚ}

/-- The multiple of the quantum of a fraction that is nearest to it, half to even. -/
def nearest (x : ℚ) : ℚ :=
  halfEven (x / (10 : ℚ) ^ c.quantum (Int.log 10 |x|)) * (10 : ℚ) ^ c.quantum (Int.log 10 |x|)

@[simp] theorem nearest_zero : c.nearest 0 = 0 := by
  have h : halfEven 0 = 0 := by exact_mod_cast halfEven_intCast 0
  simp [nearest, h]

@[simp] theorem nearest_neg (x : ℚ) : c.nearest (-x) = -c.nearest x := by
  simp only [nearest, abs_neg, neg_div, halfEven_neg]
  push_cast
  ring

theorem multiple_nearest (x : ℚ) : Multiple (c.quantum (Int.log 10 |x|)) (c.nearest x) :=
  ⟨_, rfl⟩

/-- What is a multiple of its quantum is not changed. -/
theorem nearest_of_multiple {e : Int} (h : Multiple e x) (he : c.quantum (Int.log 10 |x|) ≤ e) :
    c.nearest x = x := by
  obtain ⟨k, hk⟩ := h.mono he
  rw [nearest]
  nth_rewrite 1 [hk]
  rw [mul_div_cancel_right₀ _ (by positivity), halfEven_intCast, ← hk]

/-- The quantum of a value is at most its highest digit, as long as that is not too small. -/
theorem quantum_le {lead : Int} (h : c.leastExponent ≤ lead) : c.quantum lead ≤ lead := by
  have := c.precision_pos
  exact max_le (by omega) h

theorem abs_nearest (x : ℚ) :
    |c.nearest x| = halfEven (|x| / (10 : ℚ) ^ c.quantum (Int.log 10 |x|)) *
      (10 : ℚ) ^ c.quantum (Int.log 10 |x|) := by
  have hpos : (0 : ℚ) < (10 : ℚ) ^ c.quantum (Int.log 10 |x|) := by positivity
  rw [nearest, abs_mul, ← Int.cast_abs, abs_halfEven, abs_div, abs_of_pos hpos]

/-- Rounding does not lead beyond a power of ten. -/
theorem abs_nearest_le {u : Int} (hu : c.leastExponent ≤ u) (h : |x| ≤ (10 : ℚ) ^ u) :
    |c.nearest x| ≤ (10 : ℚ) ^ u := by
  by_cases hx : x = 0
  · rw [hx, nearest_zero, abs_zero]
    positivity
  · have hlog : Int.log 10 |x| ≤ u := by
      rw [← Int.log_zpow (R := ℚ) (by norm_num : 1 < 10) u]
      exact Int.log_mono_right (abs_pos.mpr hx) (by exact_mod_cast h)
    have hq : c.quantum (Int.log 10 |x|) ≤ u := by
      have := c.precision_pos
      exact max_le (by omega) hu
    obtain ⟨k, hk⟩ := Multiple.zpow hq
    rw [abs_nearest, hk]
    refine mul_le_mul_of_nonneg_right ?_ (by positivity)
    exact_mod_cast halfEven_le ((div_le_iff₀ (by positivity)).mpr (hk ▸ h))

/-- The same for a power of ten that is at least one. -/
theorem abs_nearest_le_pow {u : Nat} (h : |x| ≤ (10 : ℚ) ^ u) : |c.nearest x| ≤ (10 : ℚ) ^ u := by
  have hu : c.leastExponent ≤ u := by
    have := c.precision_pos
    simp only [leastExponent, minExponent]
    omega
  rw [← zpow_natCast] at h ⊢
  exact c.abs_nearest_le hu h

/-- Rounding does not lead below the power of ten of the highest digit. -/
theorem zpow_log_le_abs_nearest (hx : x ≠ 0) (h : c.leastExponent ≤ Int.log 10 |x|) :
    (10 : ℚ) ^ Int.log 10 |x| ≤ |c.nearest x| := by
  have hlog : (10 : ℚ) ^ Int.log 10 |x| ≤ |x| := by
    exact_mod_cast Int.zpow_log_le_self (by norm_num : 1 < 10) (abs_pos.mpr hx)
  obtain ⟨k, hk⟩ := Multiple.zpow (c.quantum_le h)
  rw [abs_nearest, hk]
  refine mul_le_mul_of_nonneg_right ?_ (by positivity)
  exact_mod_cast le_halfEven ((le_div_iff₀ (by positivity)).mpr (hk ▸ hlog))

/-- The rounded value of a fraction, unless its highest digit is too high. -/
def rounded (x : ℚ) : Except Signal ℚ :=
  if maxExponent < Int.log 10 |c.nearest x| then .error .overflow else .ok (c.nearest x)

theorem rounded_eq_error_iff {s : Signal} :
    c.rounded x = .error s ↔ s = .overflow ∧ maxExponent < Int.log 10 |c.nearest x| := by
  unfold rounded
  split
  · rename_i h
    rw [Except.error.injEq, eq_comm, and_iff_left h]
  · rename_i h
    exact ⟨fun h' => (by cases h'), fun h' => absurd h'.2 h⟩

theorem eq_nearest_of_rounded {y : ℚ} (h : c.rounded x = .ok y) : y = c.nearest x := by
  unfold rounded at h
  split at h
  · cases h
  · exact (Except.ok.inj h).symm

end Context

/-- What is a multiple before rounding is one afterwards. -/
theorem Multiple.nearest {e : Int} {x : ℚ} (h : Multiple e x) (c : Context) :
    Multiple e (c.nearest x) := by
  by_cases he : c.quantum (Int.log 10 |x|) ≤ e
  · rwa [c.nearest_of_multiple h he]
  · exact (c.multiple_nearest x).mono (not_le.mp he).le

end Reckon

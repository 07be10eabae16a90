import Reckon.Proofs.Decimal.Value

/-!
# Equal numbers in plain notation

Numbers of the same value are written with the same sign and the same digits, but for zeros at the
end of the fraction. A number without a fraction may get one of zeros only.

## Main definitions

* `Padded s t`: the text `t` is `s` with zeros at the end of its fraction

## Main results

* `pointed_append_zeros`: as many more zeros as places after the point
* `padded_plain`: equal numbers are written alike, up to zeros at the end of the fraction
-/

namespace Reckon

open Numeral

/-- The second text is the first one with zeros at the end of its fraction. -/
inductive Padded : Text → Text → Prop where
  /-- nothing is added -/
  | refl (t : Text) : Padded t t
  /-- zeros are added to the fraction -/
  | fraction {t : Text} (point : '.' ∈ t) (k : Nat) : Padded t (t ++ List.replicate k '0')
  /-- a fraction of zeros is added -/
  | whole {t : Text} (point : '.' ∉ t) (k : Nat) : Padded t (t ++ '.' :: List.replicate k '0')

/-- A sign does not matter. -/
theorem Padded.minus {s t : Text} (h : Padded s t) : Padded ('-' :: s) ('-' :: t) := by
  cases h with
  | refl => exact .refl _
  | fraction point k => exact .fraction (List.mem_cons_of_mem _ point) k
  | whole point k => exact .whole (by simpa using point) k

namespace Decimal

/-! ## Numerals with a point -/

/-- As many more zeros as places after the point only go to the end of the fraction. -/
theorem pointed_append_zeros (ds : Text) (places k : Nat) :
    pointed (ds ++ List.replicate k '0') (places + k) =
      pointed ds places ++ List.replicate k '0' := by
  have hfront : places + k + 1 - (ds ++ List.replicate k '0').length = places + 1 - ds.length := by
    rw [List.length_append, List.length_replicate]
    omega
  simp only [pointed, hfront]
  set padded := List.replicate (places + 1 - ds.length) '0' ++ ds with hpadded
  have hlen : (List.replicate (places + 1 - ds.length) '0' ++
      (ds ++ List.replicate k '0')).length - (places + k) = padded.length - places := by
    rw [← List.append_assoc, ← hpadded, List.length_append, List.length_replicate]
    omega
  rw [hlen, ← List.append_assoc, ← hpadded, List.take_append_of_le_length (Nat.sub_le ..),
    List.drop_append_of_le_length (Nat.sub_le ..), List.append_assoc]
  rfl

theorem pointed_zero_places {ds : Text} (h : ds ≠ []) : pointed ds 0 = ds ++ ['.'] := by
  have hlen := List.length_pos_iff.mpr h
  have hfront : 0 + 1 - ds.length = 0 := by omega
  simp [pointed, hfront]

theorem pointed_zero (places : Nat) :
    pointed (toText 0) places = '0' :: '.' :: List.replicate places '0' := by
  have htext : toText 0 = ['0'] := rfl
  have hpadded : List.replicate (places + 1 - ['0'].length) '0' ++ ['0'] =
      '0' :: List.replicate places '0' := by
    rw [List.length_singleton, Nat.add_sub_cancel, ← List.replicate_succ', List.replicate_succ]
  have hlen : ('0' :: List.replicate places '0').length - places = 1 := by
    rw [List.length_cons, List.length_replicate]
    omega
  simp only [pointed, htext, hpadded, hlen]
  rfl

theorem pointed_toText_mul_pow (n places k : Nat) :
    pointed (toText (n * 10 ^ k)) (places + k) =
      pointed (toText n) places ++ List.replicate k '0' := by
  by_cases hn : n = 0
  · rw [hn, Nat.zero_mul, pointed_zero, pointed_zero, ← List.replicate_append_replicate]
    rfl
  · rw [toText_mul_pow hn, pointed_append_zeros]

theorem point_mem_pointed (ds : Text) (places : Nat) : '.' ∈ pointed ds places := by
  simp [pointed]

/-! ## Plain notation -/

variable {a b : Decimal}

theorem plainMagnitude_of_eq_zero (h : a.exponent = 0) :
    a.plainMagnitude = toText a.coefficient := by
  rw [plainMagnitude_of_nonneg h.ge, h]
  split
  · rename_i hc
    rw [hc]
    rfl
  · exact List.append_nil _

/-- A number at a lower exponent, with the zeros that this takes. -/
theorem padded_plainMagnitude {places k : Nat} (ha : a.exponent = -places)
    (hb : b.exponent = -(places + k : Nat)) (h : b.coefficient = a.coefficient * 10 ^ k) :
    Padded a.plainMagnitude b.plainMagnitude := by
  by_cases hk : k = 0
  · obtain rfl := hk
    have hsame : b.plainMagnitude = a.plainMagnitude := by
      rw [plainMagnitude, plainMagnitude, h, hb, ha]
      simp
    rw [hsame]
    exact .refl _
  · have hplaces : (-b.exponent).toNat = places + k := by omega
    rw [plainMagnitude_of_neg (a := b) (by omega), h, hplaces, pointed_toText_mul_pow]
    by_cases hp : places = 0
    · obtain rfl := hp
      have hpoint : '.' ∉ toText a.coefficient := fun hmem => by
        have := digits_toText _ _ hmem
        revert this
        decide
      rw [plainMagnitude_of_eq_zero (by simpa using ha),
        pointed_zero_places (toText_ne_nil a.coefficient), List.append_assoc]
      exact .whole hpoint k
    · have hplaces : (-a.exponent).toNat = places := by omega
      rw [plainMagnitude_of_neg (a := a) (by omega), hplaces]
      exact .fraction (point_mem_pointed _ _) k

theorem negative_eq_decide (a : Decimal) : (a.negative && !a.isZero) = decide (a.toRat < 0) := by
  rw [Bool.eq_iff_iff, decide_eq_true_eq, Bool.and_eq_true, Bool.not_eq_true', ← Bool.not_eq_true,
    isZero_iff]
  have hpow : (0 : ℚ) < (10 : ℚ) ^ a.exponent := by positivity
  cases hn : a.negative with
  | false =>
    have : (0 : ℚ) ≤ a.toRat := by
      rw [toRat, hn]
      exact mul_nonneg (Nat.cast_nonneg _) hpow.le
    simpa using this
  | true =>
    have : a.toRat = -(a.coefficient * (10 : ℚ) ^ a.exponent) := by rw [toRat, hn]; rfl
    rw [this, neg_lt_zero, mul_pos_iff_of_pos_right hpow, Nat.cast_pos, Nat.pos_iff_ne_zero]
    simp

/-- The coefficient of an equal number at a lower exponent. -/
theorem coefficient_of_toRat_eq (h : a.toRat = b.toRat) {k : Nat}
    (hk : a.exponent = b.exponent + k) : b.coefficient = a.coefficient * 10 ^ k := by
  have habs : (a.coefficient : ℚ) * (10 : ℚ) ^ a.exponent =
      b.coefficient * (10 : ℚ) ^ b.exponent := by rw [← abs_toRat, ← abs_toRat, h]
  have hpow : (10 : ℚ) ^ b.exponent ≠ 0 := by positivity
  rw [hk, add_comm, zpow_add₀ (by norm_num), zpow_natCast, ← mul_assoc] at habs
  exact_mod_cast (mul_right_cancel₀ hpow habs).symm

theorem padded_plain_of_exponent_le (h : a.toRat = b.toRat) (ha : a.exponent ≤ 0)
    (he : b.exponent ≤ a.exponent) : Padded a.plain b.plain := by
  obtain ⟨places, hplaces⟩ := Int.eq_ofNat_of_zero_le (by omega : 0 ≤ -a.exponent)
  obtain ⟨k, hk⟩ := Int.le.dest he
  have hpad : Padded a.plainMagnitude b.plainMagnitude :=
    padded_plainMagnitude (by omega : a.exponent = -places) (by omega)
      (coefficient_of_toRat_eq h hk.symm)
  rw [plain, plain, negative_eq_decide, negative_eq_decide, ← h]
  split
  · exact hpad.minus
  · exact hpad

/-- **Equal numbers are written alike**, up to zeros at the end of the fraction. -/
theorem padded_plain (h : a.toRat = b.toRat) :
    Padded a.plain b.plain ∨ Padded b.plain a.plain := by
  rw [← toRat_settled a, ← toRat_settled b] at h
  rw [← plain_settled a, ← plain_settled b]
  rcases le_total b.settled.exponent a.settled.exponent with he | he
  · exact .inl (padded_plain_of_exponent_le h (min_le_right _ _) he)
  · exact .inr (padded_plain_of_exponent_le h.symm (min_le_right _ _) he)

end Decimal

end Reckon

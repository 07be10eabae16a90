import Reckon.Decimal.Literal
import Reckon.Proofs.Decimal.Literal

/-!
# Plain notation is read back

A number written in plain notation is a literal again. Its value is kept; a positive exponent has
become zeros of the coefficient, and zero has lost its sign. What has been read back is written in
the same way again.

## Main definitions

* `Decimal.settled`: a number as it is read back from its plain notation

## Main results

* `ofLiteral?_plain`: plain notation is read as the settled number
* `plain_settled`: a settled number is written as before
-/

namespace Reckon

open DecimalDigit

namespace Numeral

/-! ## Numbers in digits -/

theorem value_digitChar {d : Nat} (h : d < 10) : DecimalDigit.value (digitChar d) = d := by
  rw [DecimalDigit.value, value?_digitChar h]
  rfl

theorem isDigit_digitChar {d : Nat} (h : d < 10) : isDigit (digitChar d) = true := by
  rw [isDigit, value?_digitChar h]
  rfl

theorem toText_of_ne_zero {n : Nat} (h : n ≠ 0) : toText n = (digits n).map digitChar :=
  if_neg h

theorem digits_toText (n : Nat) : Decimal.Digits (toText n) := by
  intro c hc
  by_cases h : n = 0
  · subst h
    rw [toText, if_pos rfl, List.mem_singleton] at hc
    exact hc ▸ (by decide)
  · rw [toText_of_ne_zero h] at hc
    obtain ⟨d, hd, rfl⟩ := List.mem_map.mp hc
    exact isDigit_digitChar (lt_ten_of_mem_digits hd)

theorem join_toText (n : Nat) : join ((toText n).map DecimalDigit.value) = n := by
  by_cases h : n = 0
  · subst h
    decide
  · have hmap : (digits n).map (DecimalDigit.value ∘ digitChar) = digits n :=
      (List.map_congr_left fun d hd => value_digitChar (lt_ten_of_mem_digits hd)).trans
        (List.map_id _)
    rw [toText_of_ne_zero h, List.map_map, hmap, join_digits]

theorem toText_ne_nil (n : Nat) : toText n ≠ [] := by
  intro h
  have := join_toText n
  rw [h] at this
  subst this
  exact absurd h (by decide)

/-- Zeros after a number multiply it by powers of ten. -/
theorem toText_mul_pow {n : Nat} (h : n ≠ 0) (k : Nat) :
    toText (n * 10 ^ k) = toText n ++ List.replicate k '0' := by
  have hd : digits (n * 10 ^ k) = digits n ++ List.replicate k 0 := by
    rw [digits_eq_digits, digits_eq_digits, Nat.mul_comm,
      Nat.digits_base_pow_mul (by omega) (Nat.pos_of_ne_zero h), List.reverse_append,
      List.reverse_replicate]
  have hne : n * 10 ^ k ≠ 0 := Nat.mul_ne_zero h (by positivity)
  rw [toText_of_ne_zero hne, toText_of_ne_zero h, hd, List.map_append, List.map_replicate]
  rfl

end Numeral

namespace Decimal

open Numeral

theorem digits_replicate_zero (k : Nat) : Digits (List.replicate k '0') := by
  intro c hc
  rw [List.eq_of_mem_replicate hc]
  decide

theorem join_map_replicate_zero (k : Nat) :
    join ((List.replicate k '0').map DecimalDigit.value) = 0 := by
  rw [List.map_replicate]
  exact join_replicate_zero k

/-- Digits with a point before the last of them, as a whole and a fraction. -/
theorem exists_pointed {ds : Text} (hd : Digits ds) (places : Nat) :
    ∃ whole fraction, pointed ds places = whole ++ '.' :: fraction ∧ Digits whole ∧
      Digits fraction ∧ whole ≠ [] ∧ fraction.length = places ∧
      join ((whole ++ fraction).map DecimalDigit.value) = join (ds.map DecimalDigit.value) := by
  -- Zeros in front leave a digit before the point and do not change the value.
  set padded := List.replicate (places + 1 - ds.length) '0' ++ ds with hpadded
  have hlen : places + 1 ≤ padded.length := by
    rw [hpadded, List.length_append, List.length_replicate]
    omega
  have hdigits : Digits padded := (digits_replicate_zero _).append hd
  refine ⟨padded.take (padded.length - places), padded.drop (padded.length - places), rfl,
    fun c hc => hdigits c (List.mem_of_mem_take hc),
    fun c hc => hdigits c (List.mem_of_mem_drop hc), ?_, ?_, ?_⟩
  · rw [← List.length_pos_iff, List.length_take]
    omega
  · rw [List.length_drop]
    omega
  · rw [List.take_append_drop, hpadded, List.map_append, join_append, join_map_replicate_zero]
    simp

/-! ## Reading back -/

/-- A number as it is read back from its plain notation: a positive exponent becomes zeros of the
coefficient, and zero has no sign. -/
def settled (a : Decimal) : Decimal where
  negative := a.negative && !a.isZero
  coefficient := a.coefficient * 10 ^ a.exponent.toNat
  exponent := min a.exponent 0

@[simp] theorem settled_coefficient (a : Decimal) :
    a.settled.coefficient = a.coefficient * 10 ^ a.exponent.toNat := rfl

@[simp] theorem settled_exponent (a : Decimal) : a.settled.exponent = min a.exponent 0 := rfl

theorem plainMagnitude_of_nonneg {a : Decimal} (h : 0 ≤ a.exponent) :
    a.plainMagnitude =
      if a.coefficient = 0 then ['0']
      else toText a.coefficient ++ List.replicate a.exponent.toNat '0' :=
  if_pos h

theorem plainMagnitude_of_neg {a : Decimal} (h : a.exponent < 0) :
    a.plainMagnitude = pointed (toText a.coefficient) (-a.exponent).toNat :=
  if_neg (by omega)

theorem isZero_iff {a : Decimal} : a.isZero = true ↔ a.coefficient = 0 := by
  rw [isZero, beq_iff_eq]

theorem ofUnsigned?_plainMagnitude (a : Decimal) (negative : Bool) :
    ofUnsigned? negative a.plainMagnitude =
      some ⟨negative, a.coefficient * 10 ^ a.exponent.toNat, min a.exponent 0⟩ := by
  by_cases he : 0 ≤ a.exponent
  · rw [plainMagnitude_of_nonneg he, min_eq_right he]
    split
    · rename_i hc
      rw [hc, Nat.zero_mul]
      cases negative <;> decide
    · have hd := (digits_toText a.coefficient).append (digits_replicate_zero a.exponent.toNat)
      rw [ofUnsigned?_whole hd (by simp [toText_ne_nil])]
      simp only [ofDigits, List.append_nil, List.map_append, join_append, join_toText,
        join_map_replicate_zero, List.length_map, List.length_replicate]
      simp
  · obtain ⟨whole, fraction, hp, hw, hf, hne, hlen, hjoin⟩ :=
      exists_pointed (digits_toText a.coefficient) (-a.exponent).toNat
    rw [plainMagnitude_of_neg (by omega), hp, ofUnsigned?_pointed hw hf (.inl hne), ofDigits, hjoin,
      join_toText, hlen, min_eq_left (by omega), Int.toNat_of_nonpos (by omega : a.exponent ≤ 0)]
    simp
    omega

theorem body_plainMagnitude (a : Decimal) : Body a.plainMagnitude :=
  body_of_ofUnsigned? (ofUnsigned?_plainMagnitude a false)

/-- The absolute value in plain notation is read as a number without a sign. -/
theorem ofLiteral?_plainMagnitude (a : Decimal) :
    ofLiteral? a.plainMagnitude =
      some ⟨false, a.coefficient * 10 ^ a.exponent.toNat, min a.exponent 0⟩ := by
  have hb := body_plainMagnitude a
  rw [ofLiteral?_of_body (hb.withoutLineFeed.symm ▸ hb), hb.withoutLineFeed,
    ofUnsigned?_plainMagnitude]

/-- Plain notation is read as the settled number. -/
theorem ofLiteral?_plain (a : Decimal) : ofLiteral? a.plain = some a.settled := by
  have hb := body_plainMagnitude a
  rw [plain, settled]
  cases hs : a.negative && !a.isZero with
  | true =>
    rw [if_pos rfl, ofLiteral?_of_sign.1, hb.withoutLineFeed, ofUnsigned?_plainMagnitude]
  | false => rw [if_neg (by simp), ofLiteral?_plainMagnitude]

theorem isLiteral_plain (a : Decimal) : isLiteral a.plain = true := by
  rw [isLiteral, ofLiteral?_plain]
  rfl

theorem isZero_settled (a : Decimal) : a.settled.isZero = a.isZero := by
  rw [Bool.eq_iff_iff, isZero_iff, isZero_iff, settled, Nat.mul_eq_zero]
  exact or_iff_left (by positivity)

theorem plainMagnitude_settled (a : Decimal) : a.settled.plainMagnitude = a.plainMagnitude := by
  by_cases he : 0 ≤ a.exponent
  · rw [plainMagnitude_of_nonneg he, plainMagnitude_of_nonneg (by simp [he]), settled_coefficient,
      settled_exponent, min_eq_right he]
    by_cases hc : a.coefficient = 0
    · rw [if_pos hc, if_pos (by rw [hc, Nat.zero_mul])]
    · rw [if_neg hc, if_neg (Nat.mul_ne_zero hc (by positivity)), toText_mul_pow hc]
      simp
  · have he' : a.exponent < 0 := by omega
    have hs : a.settled.exponent < 0 := by rw [settled_exponent]; omega
    rw [plainMagnitude_of_neg hs, plainMagnitude_of_neg he', settled_coefficient,
      settled_exponent, min_eq_left he'.le, Int.toNat_of_nonpos he'.le, pow_zero, Nat.mul_one]

/-- A settled number is written as before. -/
theorem plain_settled (a : Decimal) : a.settled.plain = a.plain := by
  have hsign : a.settled.negative = (a.negative && !a.isZero) := rfl
  rw [plain, plain, plainMagnitude_settled, isZero_settled, hsign]
  simp

/-- The number of a literal without a sign is settled, and not negative. -/
theorem Unsigned.settled {l : Text} (h : Unsigned l) {a : Decimal} (ha : ofLiteral? l = some a) :
    a.negative = false ∧ a.settled = a := by
  have hb := unsigned_iff.mp h
  rw [ofLiteral?_of_body hb] at ha
  obtain ⟨whole, fraction, rfl, -⟩ := exists_ofDigits_of_ofUnsigned? ha
  refine ⟨rfl, ?_⟩
  simp [Decimal.settled, ofDigits]

end Decimal

end Reckon

import Mathlib.Data.List.Basic
import Reckon.Proofs.Decimal.Canonical
import Reckon.Proofs.Decimal.Value

/-!
# Digits after the point

A text in positional notation writes a fraction with a number of digits after the point. Plain
notation writes the value of a decimal number with as many of them as its exponent tells, and a
literal is read as a number whose exponent tells how many it has.

## Main definitions

* `Decimal.numeral ds`: the number that the digits `ds` stand for
* `Decimal.Written places x t`: the text `t` writes `x` with so many digits after the point
* `Decimal.places l`: the number of digits after the point of a literal

## Main results

* `written_plain`: plain notation writes the value with the digits that the exponent tells
* `Written.unique`: a fraction has one text with so many digits after the point
* `Unsigned.exponent_eq`: the exponent of a literal
-/

namespace Reckon

namespace Decimal

open Numeral

/-- The number that digits stand for, the highest first. -/
def numeral (ds : Text) : Nat := join (ds.map DecimalDigit.value)

/-- The text writes the fraction with `places` digits after the point: a whole part without
superfluous zeros in front, a point only before digits, and a minus only before what is not zero. -/
inductive Written : (places : Nat) → ℚ → Text → Prop where
  | whole {t : Text} : Whole t → Written 0 (numeral t) t
  | pointed {t fraction : Text} : Whole t → (∀ c ∈ fraction, c.isDigit = true) → fraction ≠ [] →
      Written fraction.length (numeral t + numeral fraction / (10 : ℚ) ^ fraction.length)
        (t ++ '.' :: fraction)
  | negative {places : Nat} {x : ℚ} {t : Text} : 0 < x → Written places x t →
      Written places (-x) ('-' :: t)

/-! ## Plain notation -/

theorem Digits.point_notMem {t : Text} (h : Digits t) : '.' ∉ t := by
  intro hp
  exact absurd (h '.' hp) (by decide)

/-- A numeral with a point in it writes so many units of its last place. -/
theorem written_pointed (n : Nat) {places : Nat} (hp : 0 < places) :
    Written places (n / (10 : ℚ) ^ places) (pointed (toText n) places) := by
  obtain ⟨whole, fraction, he, hw, hf, -, rfl, hjoin⟩ := exists_pointed (digits_toText n) places
  have hm := magnitude_pointed n hp
  rw [he] at hm ⊢
  generalize ht : whole ++ '.' :: fraction = t at hm ⊢
  cases hm with
  | whole hwhole =>
    have hpoint := hwhole.isDigit_of_mem '.' (ht ▸ by simp)
    exact absurd hpoint (by decide)
  | pointed hwhole hfraction hne =>
    -- There is only one point, so the parts are the same.
    obtain ⟨rfl, -, rfl⟩ :=
      (List.append_cons_inj_of_notMem hw.point_notMem hf.point_notMem).mp ht
    have hn : n = numeral whole * 10 ^ fraction.length + numeral fraction := by
      have hlength : (fraction.map DecimalDigit.value).length = fraction.length :=
        List.length_map ..
      rw [numeral, numeral, ← hlength, ← join_append, ← List.map_append, hjoin, join_toText]
    have hvalue : (n : ℚ) / (10 : ℚ) ^ fraction.length =
        numeral whole + numeral fraction / (10 : ℚ) ^ fraction.length := by
      rw [hn]
      push_cast
      field_simp
    rw [hvalue]
    exact .pointed hwhole hfraction hne

theorem written_plainMagnitude (a : Decimal) :
    Written (-a.exponent).toNat (a.coefficient * (10 : ℚ) ^ a.exponent) a.plainMagnitude := by
  by_cases he : 0 ≤ a.exponent
  · obtain ⟨k, hk⟩ := Int.eq_ofNat_of_zero_le he
    have htext : a.plainMagnitude = toText (a.coefficient * 10 ^ k) := by
      rw [plainMagnitude_of_nonneg he, hk]
      split
      · rename_i hc
        rw [hc, Nat.zero_mul]
        rfl
      · rename_i hc
        exact (toText_mul_pow hc k).symm
    have hvalue : (a.coefficient : ℚ) * (10 : ℚ) ^ a.exponent =
        numeral (toText (a.coefficient * 10 ^ k)) := by
      rw [numeral, join_toText, hk, zpow_natCast]
      push_cast
      rfl
    have hplaces : (-a.exponent).toNat = 0 := by omega
    rw [htext, hvalue, hplaces]
    exact .whole (whole_toText _)
  · obtain ⟨k, hk⟩ := Int.eq_ofNat_of_zero_le (by omega : 0 ≤ -a.exponent)
    obtain he' : a.exponent = -(k : Int) := by omega
    have hplaces : (-a.exponent).toNat = k := by omega
    rw [plainMagnitude_of_neg (by omega), hplaces, he', zpow_neg, zpow_natCast, ← div_eq_mul_inv]
    exact written_pointed _ (by omega)

/-- Plain notation writes the value with the digits after the point that the exponent tells. -/
theorem written_plain (a : Decimal) : Written (-a.exponent).toNat a.toRat a.plain := by
  have hm := written_plainMagnitude a
  rw [plain]
  split
  · rename_i h
    obtain ⟨hn, hz⟩ : a.negative = true ∧ a.isZero = false := by simpa using h
    have hc : a.coefficient ≠ 0 := by simpa [isZero] using hz
    have hvalue : a.toRat = -(a.coefficient * (10 : ℚ) ^ a.exponent) := by
      rw [toRat, hn]
      rfl
    rw [hvalue]
    exact .negative (by positivity) hm
  · rename_i h
    have hvalue : a.toRat = a.coefficient * (10 : ℚ) ^ a.exponent := by
      by_cases hz : a.coefficient = 0
      · rw [toRat_eq_zero_iff.mpr hz, hz, Nat.cast_zero, zero_mul]
      · have hn : a.negative = false := by simpa [isZero, hz] using h
        rw [toRat, hn]
        rfl
    rwa [hvalue]

/-! ## Uniqueness -/

/-- ASCII digits are the digits of numbers below ten. -/
theorem exists_map_digitChar {t : Text} (h : ∀ c ∈ t, c.isDigit = true) :
    ∃ ds : List Nat, (∀ d ∈ ds, d < 10) ∧ t = ds.map digitChar ∧ numeral t = join ds := by
  have hchar : ∀ c ∈ t, c.toNat - 48 < 10 ∧ digitChar (c.toNat - 48) = c := by
    intro c hc
    have hdigit := h c hc
    simp only [Char.isDigit, Bool.and_eq_true, decide_eq_true_eq, UInt32.le_iff_toNat_le] at hdigit
    have hlow : 48 ≤ c.toNat := hdigit.1
    have hhigh : c.toNat ≤ 57 := hdigit.2
    refine ⟨by omega, ?_⟩
    rw [digitChar, Nat.add_sub_cancel' hlow, Char.ofNat_toNat]
  refine ⟨t.map fun c => c.toNat - 48, ?_, ?_, ?_⟩
  · intro d hd
    obtain ⟨c, hc, rfl⟩ := List.mem_map.mp hd
    exact (hchar c hc).1
  · rw [List.map_map]
    exact ((List.map_congr_left fun c hc => (hchar c hc).2).trans (List.map_id t)).symm
  · have hvalue : ∀ c ∈ t, DecimalDigit.value c = c.toNat - 48 := by
      intro c hc
      conv_lhs => rw [← (hchar c hc).2]
      exact value_digitChar (hchar c hc).1
    rw [numeral, List.map_congr_left hvalue]

theorem numeral_lt {t : Text} (h : ∀ c ∈ t, c.isDigit = true) : numeral t < 10 ^ t.length := by
  obtain ⟨ds, hds, rfl, hn⟩ := exists_map_digitChar h
  rw [hn, List.length_map]
  exact join_lt hds

/-- As many digits that stand for the same number are the same. -/
theorem eq_of_numeral_eq {s t : Text} (hs : ∀ c ∈ s, c.isDigit = true)
    (ht : ∀ c ∈ t, c.isDigit = true) (hl : s.length = t.length) (h : numeral s = numeral t) :
    s = t := by
  obtain ⟨ds, hds, rfl, hn⟩ := exists_map_digitChar hs
  obtain ⟨es, hes, rfl, hm⟩ := exists_map_digitChar ht
  rw [hn, hm, join_eq_ofDigits, join_eq_ofDigits] at h
  have hrev : ds.reverse = es.reverse := by
    apply Nat.ofDigits_inj_of_len_eq (b := 10) (by omega) (by simpa using hl) _ _ h
    · intro d hd
      exact hds d (List.mem_reverse.mp hd)
    · intro d hd
      exact hes d (List.mem_reverse.mp hd)
  rw [List.reverse_injective hrev]

/-- Without superfluous zeros, the digits are those of the number. -/
theorem Whole.toText_numeral {t : Text} (h : Whole t) : toText (numeral t) = t := by
  obtain ⟨ds, hds, rfl, hn⟩ := exists_map_digitChar h.isDigit_of_mem
  have hne : ds ≠ [] := by
    rintro rfl
    exact h.ne_nil rfl
  by_cases hhead : ds.head hne = 0
  · have hzero : ds.map digitChar = ['0'] := by
      apply h.eq_of_head?
      rw [List.head?_map, List.head?_eq_some_head hne, hhead]
      rfl
    rw [hzero]
    decide
  · have hdigits : digits (join ds) = ds := by
      rw [digits_eq_digits, join_eq_ofDigits, Nat.digits_ofDigits 10 (by omega),
        List.reverse_reverse]
      · intro d hd
        exact hds d (List.mem_reverse.mp hd)
      · intro hne'
        rwa [List.getLast_reverse]
    have hjoin : join ds ≠ 0 := by
      intro h0
      rw [h0] at hdigits
      exact hne (hdigits.symm.trans (by decide))
    rw [hn, toText_of_ne_zero hjoin, hdigits]

/-- The whole part and the digits of a fraction are told by the value. -/
theorem numeral_eq_of_add_div_eq {m n : Nat} {s t : Text} (hs : ∀ c ∈ s, c.isDigit = true)
    (ht : ∀ c ∈ t, c.isDigit = true) (hl : s.length = t.length)
    (h : (m : ℚ) + numeral s / (10 : ℚ) ^ s.length = n + numeral t / (10 : ℚ) ^ t.length) :
    m = n ∧ numeral s = numeral t := by
  have hpos : 0 < 10 ^ t.length := by positivity
  have hslt : numeral s < 10 ^ t.length := hl ▸ numeral_lt hs
  have htlt : numeral t < 10 ^ t.length := numeral_lt ht
  have hunits : numeral s + 10 ^ t.length * m = numeral t + 10 ^ t.length * n := by
    rw [hl] at h
    field_simp at h
    have h' : m * 10 ^ t.length + numeral s = 10 ^ t.length * n + numeral t := by exact_mod_cast h
    linarith
  have hwhole := congrArg (· / 10 ^ t.length) hunits
  simp only [Nat.add_mul_div_left _ _ hpos, Nat.div_eq_of_lt hslt, Nat.div_eq_of_lt htlt,
    Nat.zero_add] at hwhole
  refine ⟨hwhole, ?_⟩
  rw [hwhole] at hunits
  exact Nat.add_right_cancel hunits

theorem Whole.unique {s t : Text} (hs : Whole s) (ht : Whole t) (h : numeral s = numeral t) :
    s = t := by
  rw [← hs.toText_numeral, h, ht.toText_numeral]

/-- A fraction has one text with so many digits after the point. -/
theorem Written.unique {m n : Nat} {x y : ℚ} {s t : Text} (hs : Written m x s) (ht : Written n y t)
    (hmn : m = n) (hxy : x = y) : s = t := by
  induction hs generalizing n y t with
  | @whole w hw =>
    have hnonneg : (0 : ℚ) ≤ numeral w := by positivity
    cases ht with
    | whole hw' => exact hw.unique hw' (by exact_mod_cast hxy)
    | pointed _ _ hne => exact absurd (List.eq_nil_of_length_eq_zero hmn.symm) hne
    | negative hpos _ => linarith
  | @pointed w f hw hf hne =>
    have hnonneg : (0 : ℚ) ≤ numeral w + numeral f / (10 : ℚ) ^ f.length := by positivity
    cases ht with
    | whole _ => exact absurd (List.eq_nil_of_length_eq_zero hmn) hne
    | pointed hw' hf' _ =>
      obtain ⟨hwhole, hfraction⟩ := numeral_eq_of_add_div_eq hf hf' hmn hxy
      rw [hw.unique hw' hwhole, eq_of_numeral_eq hf hf' hmn hfraction]
    | negative hpos _ => linarith
  | negative hpos h ih =>
    cases ht with
    | whole _ =>
      have hnonneg : (0 : ℚ) ≤ numeral t := by positivity
      linarith
    | @pointed w f _ _ _ =>
      have hnonneg : (0 : ℚ) ≤ numeral w + numeral f / (10 : ℚ) ^ f.length := by positivity
      linarith
    | negative _ h' => rw [ih h' hmn (neg_injective hxy)]

theorem Written.iff_eq {places : Nat} {x : ℚ} {s t : Text} (hs : Written places x s) :
    Written places x t ↔ t = s := by
  constructor
  · intro ht
    exact ht.unique hs rfl rfl
  · rintro rfl
    exact hs

/-! ## Literals -/

/-- The number of digits after the point of a literal. -/
def places (l : Text) : Nat := (l.dropWhile (· != '.')).countP DecimalDigit.isDigit

/-- A line feed at the end is no digit. -/
theorem places_withoutLineFeed (l : Text) : places (withoutLineFeed l) = places l := by
  rcases withoutLineFeed_or l with he | he
  · rw [he]
  · have hdigit : DecimalDigit.isDigit '\n' = false := by decide
    conv_rhs => rw [he]
    rw [places, places, List.dropWhile_append]
    split
    · rename_i hempty
      rw [List.isEmpty_iff.mp hempty]
      rfl
    · simp [List.countP_append, hdigit]

theorem ne_point_of_digits {t : Text} (h : Digits t) : ∀ c ∈ t, (c != '.') = true := by
  intro c hc
  rw [bne_iff_ne]
  rintro rfl
  exact h.point_notMem hc

/-- The exponent of a literal tells how many digits it has after the point. -/
theorem Unsigned.exponent_eq {l : Text} (h : Unsigned l) {a : Decimal} (ha : ofLiteral? l = some a) :
    a.exponent = -(places l : Int) := by
  have hb := unsigned_iff.mp h
  rw [ofLiteral?_of_body hb] at ha
  rw [← places_withoutLineFeed]
  generalize withoutLineFeed l = t at ha hb
  cases hb with
  | whole hd hne =>
    have hdrop : t.dropWhile (· != '.') = [] :=
      List.dropWhile_eq_nil_iff.mpr (ne_point_of_digits hd)
    rw [ofUnsigned?_whole hd hne] at ha
    cases ha
    rw [places, hdrop]
    rfl
  | @pointed whole fraction hw hf hne =>
    have hdrop : (whole ++ '.' :: fraction).dropWhile (· != '.') = '.' :: fraction := by
      rw [List.dropWhile_append_of_pos (ne_point_of_digits hw)]
      rfl
    rw [ofUnsigned?_pointed hw hf hne] at ha
    cases ha
    rw [places, hdrop, List.countP_cons_of_neg (by decide), List.countP_eq_length.mpr hf]
    rfl

end Decimal

end Reckon

import Reckon.Proofs.Decimal.Plain

/-!
# The canonical form of results

Numbers are written in one form: ASCII digits without superfluous zeros in front, perhaps a
fraction, and a minus only before what is not zero. Whatever digits a literal is written in, its
plain notation has this form, and it is its own canonical text.

## Main definitions

* `Decimal.Whole`, `Decimal.Magnitude`: a number without a sign, and without a fraction
* `Decimal.Canonical`: the canonical form

## Main results

* `whole_toText`: a numeral has no superfluous zeros in front
* `canonical_plain`: plain notation is canonical
* `canonical?_plain`: plain notation is its own canonical text
-/

namespace Reckon

open Numeral

namespace Decimal

/-! ## The form -/

/-- ASCII digits, of which the first is zero only if it is the only one. -/
structure Whole (t : Text) : Prop where
  isDigit_of_mem : ∀ c ∈ t, c.isDigit = true
  ne_nil : t ≠ []
  eq_of_head? : t.head? = some '0' → t = ['0']

/-- A whole part, perhaps with a point and a fraction of ASCII digits after it. -/
inductive Magnitude : Text → Prop where
  | whole {t : Text} : Whole t → Magnitude t
  | pointed {t fraction : Text} : Whole t → (∀ c ∈ fraction, c.isDigit = true) → fraction ≠ [] →
      Magnitude (t ++ '.' :: fraction)

/-- A number without a sign, or with a minus if one of its digits is not zero. -/
inductive Canonical : Text → Prop where
  | unsigned {t : Text} : Magnitude t → Canonical t
  | negative {t : Text} : Magnitude t → (∃ c ∈ t, c.isDigit = true ∧ c ≠ '0') → Canonical ('-' :: t)

/-! ## Numerals -/

theorem isDigit_of_mem_toText {n : Nat} {c : Char} (h : c ∈ toText n) : c.isDigit = true := by
  have hchar : ∀ d < 10, (digitChar d).isDigit = true := by decide
  by_cases hn : n = 0
  · subst hn
    obtain rfl : c = '0' := List.mem_singleton.mp h
    decide
  · rw [toText_of_ne_zero hn] at h
    obtain ⟨d, hd, rfl⟩ := List.mem_map.mp h
    exact hchar d (lt_ten_of_mem_digits hd)

/-- The first digit of a number that is not zero. -/
theorem head?_toText {n : Nat} (h : n ≠ 0) : ∃ c, (toText n).head? = some c ∧ c ≠ '0' := by
  have hchar : ∀ d < 10, d ≠ 0 → digitChar d ≠ '0' := by decide
  have hne : digits n ≠ [] := fun he => toText_ne_nil n (by rw [toText_of_ne_zero h, he]; rfl)
  refine ⟨digitChar ((digits n).head hne), ?_, ?_⟩
  · rw [toText_of_ne_zero h, List.head?_map, List.head?_eq_some_head hne]
    rfl
  · refine hchar _ (lt_ten_of_mem_digits (List.head_mem hne)) ?_
    simp only [digits_eq_digits, List.head_reverse]
    exact Nat.getLast_digit_ne_zero 10 h

/-- A numeral has no superfluous zeros in front. -/
theorem whole_toText (n : Nat) : Whole (toText n) where
  isDigit_of_mem _ := isDigit_of_mem_toText
  ne_nil := toText_ne_nil n
  eq_of_head? h := by
    by_cases hn : n = 0
    · rw [hn]
      rfl
    · obtain ⟨c, hc, hne⟩ := head?_toText hn
      exact absurd (Option.some.inj (hc.symm.trans h)) hne

/-! ## Plain notation -/

/-- A numeral with a point in it is led by at most one zero. -/
theorem magnitude_pointed (n : Nat) {places : Nat} (hp : 0 < places) :
    Magnitude (pointed (toText n) places) := by
  rw [pointed]
  set padded := List.replicate (places + 1 - (toText n).length) '0' ++ toText n with hpadded
  have hlen : places + 1 ≤ padded.length := by
    rw [hpadded, List.length_append, List.length_replicate]
    omega
  have hdigits : ∀ c ∈ padded, c.isDigit = true := by
    intro c hc
    rcases List.mem_append.mp hc with hc | hc
    · rw [List.eq_of_mem_replicate hc]
      decide
    · exact isDigit_of_mem_toText hc
  refine .pointed ⟨fun c hc => hdigits c (List.mem_of_mem_take hc), ?_, fun hhead => ?_⟩
    (fun c hc => hdigits c (List.mem_of_mem_drop hc)) ?_
  · rw [← List.length_pos_iff, List.length_take]
    omega
  · by_cases hlong : places < (toText n).length
    -- Nothing is put in front, so the first digit is that of a number of several digits.
    · have hsame : padded = toText n := by
        rw [hpadded, Nat.sub_eq_zero_of_le hlong, List.replicate_zero, List.nil_append]
      rw [hsame, List.head?_take, if_neg (by omega)] at hhead
      rw [(whole_toText n).eq_of_head? hhead, List.length_singleton] at hlong
      omega
    · obtain ⟨k, hk⟩ : ∃ k, places + 1 - (toText n).length = k + 1 :=
        ⟨places - (toText n).length, by omega⟩
      have hone : padded.length - places = 1 := by
        rw [hpadded, List.length_append, List.length_replicate]
        omega
      rw [hone, hpadded, hk]
      rfl
  · rw [← List.length_pos_iff, List.length_drop]
    omega

theorem magnitude_plainMagnitude (a : Decimal) : Magnitude a.plainMagnitude := by
  by_cases he : 0 ≤ a.exponent
  · rw [plainMagnitude_of_nonneg he]
    split
    · exact .whole (whole_toText 0)
    · rename_i hc
      rw [← toText_mul_pow hc]
      exact .whole (whole_toText _)
  · rw [plainMagnitude_of_neg (by omega)]
    exact magnitude_pointed _ (by omega)

/-- The digits of the coefficient are written. -/
theorem mem_plainMagnitude {a : Decimal} (h : a.coefficient ≠ 0) {c : Char}
    (hc : c ∈ toText a.coefficient) : c ∈ a.plainMagnitude := by
  by_cases he : 0 ≤ a.exponent
  · rw [plainMagnitude_of_nonneg he, if_neg h]
    exact List.mem_append_left _ hc
  · rw [plainMagnitude_of_neg (by omega), pointed]
    set padded :=
      List.replicate ((-a.exponent).toNat + 1 - (toText a.coefficient).length) '0' ++
        toText a.coefficient with hpadded
    have hmem : c ∈ padded := List.mem_append_right _ hc
    rw [← List.take_append_drop (padded.length - (-a.exponent).toNat) padded] at hmem
    rcases List.mem_append.mp hmem with hmem | hmem
    · exact List.mem_append_left _ hmem
    · exact List.mem_append_right _ (List.mem_cons_of_mem _ hmem)

/-- Plain notation is canonical. -/
theorem canonical_plain (a : Decimal) : Canonical a.plain := by
  rw [plain]
  split
  · rename_i h
    have hz : a.coefficient ≠ 0 := by
      rw [Bool.and_eq_true, Bool.not_eq_true', ← Bool.not_eq_true, isZero_iff] at h
      exact h.2
    obtain ⟨c, hc, hne⟩ := head?_toText hz
    have hmem := List.mem_of_mem_head? hc
    exact .negative (magnitude_plainMagnitude a)
      ⟨c, mem_plainMagnitude hz hmem, isDigit_of_mem_toText hmem, hne⟩
  · exact .unsigned (magnitude_plainMagnitude a)

/-- Plain notation is its own canonical text. -/
theorem canonical?_plain (a : Decimal) : canonical? a.plain = some a.plain := by
  rw [canonical?, ofLiteral?_plain, Option.map_some, plain_settled]

end Decimal

end Reckon

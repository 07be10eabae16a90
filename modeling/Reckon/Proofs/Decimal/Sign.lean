import Reckon.Decimal.Arithmetic
import Reckon.Proofs.Decimal.Rounding

/-!
# The sign of a number

A sign in front of a literal is read as the sign of the number, and the negation of a number that
fits into the context is written like the number with the other sign. So a negation rounds nothing
that fits, and a number that does not fit cannot be the result of one.

## Main results

* `ofLiteral?_minus`, `ofLiteral?_plus`: what a literal with a sign is read as
* `negate_settled`: the negation of a number that fits
* `exists_negate_iff`: a negation is written like the number with the other sign exactly if that is
  the notation of a number that fits
-/

namespace Reckon

theorem Context.Fits.opposite {c : Context} {a : Decimal} (h : c.Fits a) : c.Fits a.opposite :=
  ⟨h.coefficient_lt, h.leastExponent_le, h.le_maxExponent⟩

namespace Decimal

variable {c : Context} {a b : Decimal}

@[simp] theorem opposite_opposite (a : Decimal) : a.opposite.opposite = a := by
  simp [opposite]

@[simp] theorem isZero_opposite (a : Decimal) : a.opposite.isZero = a.isZero := rfl

/-! ## Literals with a sign -/

theorem ofUnsigned?_true (t : Text) : ofUnsigned? true t = (ofUnsigned? false t).map opposite := by
  unfold ofUnsigned?
  simp only
  split
  · split <;> rfl
  · split <;> rfl
  · rfl

variable {u : Text}

theorem ofLiteral?_minus (h : Unsigned u) :
    ofLiteral? ('-' :: u) = (ofLiteral? u).map opposite := by
  rw [ofLiteral?_of_sign.1, ofUnsigned?_true, ofLiteral?_of_body (unsigned_iff.mp h)]

theorem ofLiteral?_plus (h : Unsigned u) : ofLiteral? ('+' :: u) = ofLiteral? u := by
  rw [ofLiteral?_of_sign.2, ofLiteral?_of_body (unsigned_iff.mp h)]

/-! ## Plain notation -/

/-- Numbers that are written alike are read back alike. -/
theorem settled_eq_of_plain_eq (h : a.plain = b.plain) : a.settled = b.settled := by
  rw [← Option.some_inj, ← ofLiteral?_plain, h, ofLiteral?_plain]

theorem settled_opposite (h : a.settled = b.settled) : a.opposite.settled = b.opposite.settled := by
  have hz : a.isZero = b.isZero := by rw [← isZero_settled, h, isZero_settled]
  have hsign : (a.negative && !a.isZero) = (b.negative && !b.isZero) := congrArg negative h
  have hcoefficient : a.settled.coefficient = b.settled.coefficient := by rw [h]
  have hexponent : a.settled.exponent = b.settled.exponent := by rw [h]
  rw [settled, settled, Decimal.mk.injEq]
  refine ⟨?_, hcoefficient, hexponent⟩
  rw [isZero_opposite, isZero_opposite, hz]
  cases hb : b.isZero with
  | true => simp
  | false =>
    rw [hz, hb] at hsign
    simpa [opposite] using hsign

/-! ## Negations -/

/-- The negation of a number that fits is written like the number with the other sign. -/
theorem negate_settled (h : c.Fits a) :
    ∃ r, a.settled.negate c = .ok r ∧ r.plain = a.opposite.plain := by
  by_cases hz : a.coefficient = 0
  · have hzero : a.settled.coefficient = 0 := by rw [settled_coefficient, hz, Nat.zero_mul]
    refine ⟨_, if_pos hzero, ?_⟩
    rw [← plain_settled, ← plain_settled a.opposite]
    congr 1
    have hleast := h.leastExponent_le
    have hprecision := c.precision_pos
    simp only [settled, isZero, opposite, hz, Decimal.mk.injEq]
    simp only [Context.leastExponent, Context.minExponent, Context.maxExponent] at hleast ⊢
    refine ⟨by simp, by simp, by omega⟩
  · obtain ⟨r, hr, hs⟩ := round_settled (a := a.opposite) h.opposite hz
    refine ⟨r, ?_, by rw [← plain_settled, hs, plain_settled]⟩
    have hzero : a.isZero = false := by simpa [isZero] using hz
    have hsign : (!a.settled.isZero && !a.settled.negative) = a.opposite.negative := by
      rw [isZero_settled, hzero]
      simp [settled, opposite, hzero]
    rw [negate, hsign]
    exact hr

/-- The negation of a number that has been read is written like the number with the other sign
exactly if that is the notation of a number that fits. -/
theorem exists_negate_iff (ha : a.settled = a) :
    (∃ r, a.negate c = .ok r ∧ r.plain = a.opposite.plain) ↔
      ∃ r, c.Fits r ∧ r.plain = a.opposite.plain := by
  constructor
  · rintro ⟨r, hr, hplain⟩
    exact ⟨r, fits_negate hr, hplain⟩
  · rintro ⟨r, hf, hplain⟩
    -- the number that fits is the negation of its own opposite, which is read like `a`
    obtain ⟨r', hr', hplain'⟩ := negate_settled hf.opposite
    rw [settled_opposite (settled_eq_of_plain_eq hplain), opposite_opposite, ha] at hr'
    exact ⟨r', hr', by rw [hplain', opposite_opposite, hplain]⟩

end Decimal

end Reckon

import Reckon.Proofs.Decimal.Magnitude

/-!
# Comparisons

A comparison holds in some of the three orders that two numbers can have. It is exact: whatever the
precision is, it only depends on which order the numbers have. A difference is rounded, but rounding
does not turn its sign around. So unless something is rounded to zero, the rounded difference stands
to zero in the same order as the two numbers.

## Main definitions

* `BinaryOp.comparisons`: the operators that compare two numbers
* `BinaryOp.accepts op o`: whether the comparison holds between numbers in the order `o`

## Main results

* `apply_of_mem_comparisons`: a comparison depends on the order of the operands
* `compare_nearest_sub`: the order of a rounded difference and zero
-/

namespace Reckon

open Decimal

/-! ## The order of the operands -/

namespace BinaryOp

/-- The operators that compare two numbers. -/
def comparisons : List BinaryOp := [atLeast, atMost, less, greater, equal, differ]

/-- Whether a comparison holds between numbers in this order. No other operator compares. -/
def accepts (op : BinaryOp) (o : Ordering) : Bool :=
  match op with
  | atLeast => o != .lt
  | atMost => o != .gt
  | less => o == .lt
  | greater => o == .gt
  | equal => o == .eq
  | differ => o != .eq
  | _ => false

/-- A comparison depends on the order of the operands, and cannot fail. -/
theorem apply_of_mem_comparisons (c : Context) {op : BinaryOp} (h : op ∈ comparisons)
    (a b : Decimal) : op.apply c a b = .ok (truth (op.accepts (a.compare b))) := by
  simp only [comparisons, List.mem_cons, List.not_mem_nil, or_false] at h
  rcases h with rfl | rfl | rfl | rfl | rfl | rfl <;> rfl

/-- Of less, equal and greater, one accepts an order, and the other two do not. -/
theorem existsUnique_accepts (o : Ordering) :
    ∃! op, op ∈ [less, equal, greater] ∧ op.accepts o = true := by
  have hexists : ∃ op ∈ [less, equal, greater], op.accepts o = true := by
    cases o <;> decide
  have hunique : ∀ op ∈ [less, equal, greater], ∀ op' ∈ [less, equal, greater],
      op.accepts o = true → op'.accepts o = true → op = op' := by
    cases o <;> decide
  obtain ⟨op, hop, haccepts⟩ := hexists
  refine ⟨op, ⟨hop, haccepts⟩, ?_⟩
  rintro op' ⟨hop', haccepts'⟩
  exact hunique op' hop' op hop haccepts' haccepts

/-- A comparison binds less than a difference. -/
theorem priority_le_of_mem_comparisons {op : BinaryOp} (h : op ∈ comparisons) :
    op.priority ≤ subtract.priority := by
  have hall : ∀ op ∈ comparisons, op.priority ≤ subtract.priority := by decide
  exact hall op h

end BinaryOp

/-! ## The sign of a rounded value -/

namespace Context

variable (c : Context) {x : ℚ}

theorem nearest_nonneg (h : 0 ≤ x) : 0 ≤ c.nearest x := by
  refine mul_nonneg ?_ (by positivity)
  have hdiv : ((0 : ℤ) : ℚ) ≤ x / (10 : ℚ) ^ c.quantum (Int.log 10 |x|) := by positivity
  exact_mod_cast le_halfEven hdiv

/-- What is not rounded to zero keeps its sign. -/
theorem compare_nearest_zero (hx : x ≠ 0 → c.nearest x ≠ 0) :
    compare (c.nearest x) 0 = compare x 0 := by
  rcases lt_trichotomy x 0 with hlt | rfl | hgt
  · have hneg : 0 ≤ c.nearest (-x) := c.nearest_nonneg (neg_nonneg.mpr hlt.le)
    rw [nearest_neg] at hneg
    have hlt' : c.nearest x < 0 := lt_of_le_of_ne (neg_nonneg.mp hneg) (hx hlt.ne)
    rw [compare_lt_iff_lt.mpr hlt, compare_lt_iff_lt.mpr hlt']
  · rw [nearest_zero]
  · have hgt' : 0 < c.nearest x := lt_of_le_of_ne (c.nearest_nonneg hgt.le) (hx hgt.ne').symm
    rw [compare_gt_iff_gt.mpr hgt, compare_gt_iff_gt.mpr hgt']

/-- A rounded difference that is zero for equal numbers only stands to zero as its operands to each
other. -/
theorem compare_nearest_sub {x y : ℚ} (h : x - y ≠ 0 → c.nearest (x - y) ≠ 0) :
    compare (c.nearest (x - y)) 0 = compare x y := by
  rw [c.compare_nearest_zero h, ← cmp_eq_compare, ← cmp_eq_compare, cmp_sub_zero]

end Context

end Reckon

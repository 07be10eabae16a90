import Reckon.Proofs.Machine.Operation

/-!
# Runs that end in a fault

At a precision in range, the only fault is the overflow of a negation. Operators on numbers that are
read raise no other signal: zero divisors are answered before anything is divided, and a binary
operator's overflow is a failure that names the operator.

## Main definitions

* `Machine.Overflows c tokens`: a run comes to a negation whose operand is too large

## Main results

* `run_eq_fault_iff`: the runs that end in a fault
* `run_of_binary_overflow`: a binary operator's overflow
* `overflow_of_performs`: no operation raises another signal
-/

namespace Reckon

open Decimal

namespace Machine

/-- A run comes to read a negation, and the highest digit of the rounded operand is too high. -/
def Overflows (c : Context) (tokens : List Text) : Prop :=
  ∃ operand stack a, Reaches c tokens (operand :: stack) Tree.negationLabel ∧
    ofLiteral? operand = some a ∧ Context.maxExponent < Int.log 10 |c.nearest a.toRat|

variable {c : Context} {tokens : List Text}

theorem run_of_reaches (hc : c.precision ≤ Context.maxPrecision) {stack : List Text} {token : Text}
    (hr : Reaches c tokens stack token) {s : Stop} (hs : step c stack token = .error s) :
    run c.precision tokens = .error s := by
  rw [run_eq_reduce c hc, bind_eq_error]
  exact .inl (foldlM_eq_error_iff.mpr ⟨stack, token, hr, hs⟩)

/-- A run ends in a fault exactly if it comes to a negation that overflows. -/
theorem run_eq_fault_iff (hc : c.precision ≤ Context.maxPrecision) {x : Fault} :
    run c.precision tokens = .error (.fault x) ↔ x = .signal .overflow ∧ Overflows c tokens := by
  constructor
  · intro h
    rcases stops_of_run hc h with ⟨stack, token, hr, hs⟩ | ⟨cause, hf, -⟩
    · cases hs with
      | negation read overflows =>
        exact ⟨rfl, _, _, _, hr, read, (negate_eq_error_iff.mp overflows).2⟩
    · cases hf
  · rintro ⟨rfl, operand, stack, a, hr, read, hmax⟩
    have hn : a.negate c = .error .overflow := negate_eq_error_iff.mpr ⟨rfl, hmax⟩
    refine run_of_reaches hc hr ?_
    rw [step_negation, negated_eq_map_opposite read, opposite, hn]
    rfl

/-- A binary operator's overflow is a failure that names the operator. -/
theorem run_of_binary_overflow (hc : c.precision ≤ Context.maxPrecision) {op : BinaryOp}
    {left right : Text} {stack : List Text} {a b : Decimal}
    (hr : Reaches c tokens (right :: left :: stack) [op.symbol]) (hleft : ofLiteral? left = some a)
    (hright : ofLiteral? right = some b) (ho : op.apply c a b = .error .overflow) :
    run c.precision tokens = .error (.failure ⟨.arithmetic .overflow, [], some [op.symbol]⟩) := by
  refine run_of_reaches hc hr ?_
  have hz : ¬ (op = .divide ∧ b.isZero = true) := by
    rintro ⟨rfl, hb⟩
    rw [BinaryOp.apply, Decimal.divide, if_pos hb] at ho
    split at ho <;> cases ho
  rw [step_binary, combine_eq_map_operate hleft hright, operate, if_neg hz, ho]
  rfl

/-- No operation of a run raises another signal than the overflow. -/
theorem overflow_of_performs {x : ℚ} {s : Signal} (h : Performs c tokens x (.error s)) :
    s = .overflow := by
  generalize ho : (Except.error s : Except Signal Decimal) = o at h
  cases h with
  | negation => exact (negate_eq_error_iff.mp ho.symm).1
  | binary _ _ _ defined => exact BinaryOp.apply_eq_error ho.symm defined

/-- A literal alone is only pushed. -/
theorem reaches_singleton {l token : Text} {stack : List Text} (h : Reaches c [l] stack token) :
    stack = [] := by
  obtain ⟨before, after, hsplit, hs⟩ := h
  obtain rfl : before = [] := by
    cases before with
    | nil => rfl
    | cons _ _ => simp at hsplit
  cases hs
  rfl

end Machine

end Reckon

import Mathlib
import Reckon.Calculator
import Reckon.Proofs.Machine.Fault

/-!
# Calculations without a report

Almost every calculation ends with a report, of a value or of a failure. There is none only where
the machine gets to work and ends in a fault. It gets to work on a balanced formula that grows into
a tree, unless the tree is a single literal, which is its own value whatever the precision.

## Main definitions

* `Calculator.Machined f t`: the machine is set to work on the tree `t` of the formula `f`

## Main results

* `detailed_eq_fault_iff`: the calculations that end in a fault
* `report_eq_error_iff`: the same in terms of the precision, with what holds of every report
-/

namespace Reckon

open Decimal Machine Nesting

namespace Calculator

/-- The machine is set to work on the tree of a formula: the formula is balanced and grows into the
tree, which is not a single literal. -/
structure Machined (f : Text) (t : Tree) : Prop where
  balanced : balanced f = true
  grown : Tree.ofFormula f = .ok t
  not_literal : ∀ l, t = .leaf l → isLiteral l = false

variable {precision : Int} {f : Text} {t : Tree}

theorem ofTree_of_not_literal (h : ∀ l, t = .leaf l → isLiteral l = false) :
    ofTree precision t = (Machine.run precision t.postOrder).map plain := by
  cases t with
  | leaf l =>
    have hl := h l rfl
    rw [isLiteral, Option.isSome_eq_false_iff, Option.isNone_iff_eq_none] at hl
    simp [ofTree, canonical?, hl]
  | unary => rfl
  | leftOnly => rfl
  | binary => rfl

/-- A formula on which the machine is set to work. -/
theorem Machined.detailed_eq (h : Machined f t) :
    detailed precision f =
      ((Machine.run precision t.postOrder).map plain).mapError (placed f) := by
  rw [detailed, if_pos h.balanced, h.grown, ← ofTree_of_not_literal h.not_literal]

/-- A calculation ends in a fault exactly if the machine does. -/
theorem detailed_eq_fault_iff {x : Fault} :
    detailed precision f = .error (.fault x) ↔
      ∃ t, Machined f t ∧ Machine.run precision t.postOrder = .error (.fault x) := by
  constructor
  · intro h
    by_cases hb : balanced f = true
    · rw [detailed, if_pos hb] at h
      cases ht : Tree.ofFormula f with
      | ok t =>
        rw [ht] at h
        obtain ⟨s, hs, hx⟩ := mapError_eq_error.mp h
        obtain rfl : s = .fault x := by cases s <;> cases hx; rfl
        have hlit : ∀ l, t = .leaf l → isLiteral l = false := by
          rintro l rfl
          rw [Bool.eq_false_iff]
          intro hl
          obtain ⟨a, ha⟩ := Option.isSome_iff_exists.mp hl
          simp [ofTree, canonical?, ha] at hs
        rw [ofTree_of_not_literal hlit] at hs
        exact ⟨t, ⟨hb, ht, hlit⟩, map_eq_error.mp hs⟩
      | error failure =>
        rw [ht] at h
        cases hv : canonical? (Brackets.normalize f) <;> rw [hv] at h <;> cases h
    · rw [detailed, if_neg hb] at h
      cases h
  · rintro ⟨t, hm, hx⟩
    rw [hm.detailed_eq, hx]
    rfl

theorem report_eq_error_iff_fault {x : Fault} :
    report precision f = .error x ↔ detailed precision f = .error (.fault x) := by
  rw [report]
  match detailed precision f with
  | .ok v => simp [toReport]
  | .error (.failure failure) => simp [toReport]
  | .error (.fault y) => simp [toReport]

/-- What holds of every report. -/
theorem report_consistent {r : Report} (h : report precision f = .ok r) :
    (r.success = true ↔ r.value.isSome = true) ∧ (r.success = true ↔ r.failure = none) ∧
      r.formula = f := by
  rw [report] at h
  match hd : detailed precision f with
  | .ok v =>
    rw [hd] at h
    cases h
    simp
  | .error (.failure failure) =>
    rw [hd] at h
    cases h
    simp
  | .error (.fault y) =>
    rw [hd] at h
    cases h

/-! ## Precisions out of range -/

/-- At a precision below one there is no report if the machine is set to work. The fault tells a
precision that is no machine word from one that is. -/
theorem report_eq_error_iff_of_lt_one (h : precision < 1) {x : Fault} :
    report precision f = .error x ↔
      x = (if -2 ^ 63 ≤ precision then .precision else .word) ∧ ∃ t, Machined f t := by
  have hnone : Context.ofPrecision? precision = none := by
    rw [Context.ofPrecision?, dif_neg (by omega)]
  have hfault : Fault.ofPrecision precision =
      if -2 ^ 63 ≤ precision then .precision else .word := by
    simp only [Fault.ofPrecision, (by omega : precision < 2 ^ 63), and_true]
  have hrun (tokens) : Machine.run precision tokens =
      .error (.fault (Fault.ofPrecision precision)) := by
    rw [Machine.run, hnone]
  rw [report_eq_error_iff_fault, detailed_eq_fault_iff, ← hfault]
  constructor
  · rintro ⟨t, hm, hx⟩
    rw [hrun] at hx
    cases hx
    exact ⟨rfl, t, hm⟩
  · rintro ⟨rfl, t, hm⟩
    exact ⟨t, hm, hrun _⟩

/-! ## Precisions in range -/

variable {c : Context}

/-- The machine has been set to work on a tree whose run comes to read something on a stack. -/
theorem machined_of_reaches {stack : List Text} {top token : Text} (hb : balanced f = true)
    (ht : Tree.ofFormula f = .ok t) (hr : Reaches c t.postOrder (top :: stack) token) :
    Machined f t := by
  refine ⟨hb, ht, ?_⟩
  rintro l rfl
  rw [Tree.postOrder_eq] at hr
  cases reaches_singleton hr

/-- At a precision in range there is no report if a negation overflows. -/
theorem report_eq_error_iff_overflows (hc : c.precision ≤ Context.maxPrecision) {x : Fault} :
    report c.precision f = .error x ↔ x = .signal .overflow ∧ balanced f = true ∧
      ∃ t, Tree.ofFormula f = .ok t ∧ Overflows c t.postOrder := by
  rw [report_eq_error_iff_fault, detailed_eq_fault_iff]
  constructor
  · rintro ⟨t, hm, hx⟩
    obtain ⟨rfl, ho⟩ := (run_eq_fault_iff hc).mp hx
    exact ⟨rfl, hm.balanced, t, hm.grown, ho⟩
  · rintro ⟨rfl, hb, t, ht, ho⟩
    have hm : Machined f t := by
      obtain ⟨operand, stack, a, hr, -⟩ := ho
      exact machined_of_reaches hb ht hr
    exact ⟨t, hm, (run_eq_fault_iff hc).mpr ⟨rfl, ho⟩⟩

/-- A binary operator's overflow is reported as a failure. -/
theorem report_of_binary_overflow (hc : c.precision ≤ Context.maxPrecision)
    (hb : balanced f = true) (ht : Tree.ofFormula f = .ok t) {op : BinaryOp} {left right : Text}
    {stack : List Text} {a b : Decimal}
    (hr : Reaches c t.postOrder (right :: left :: stack) [op.symbol])
    (hleft : ofLiteral? left = some a) (hright : ofLiteral? right = some b)
    (ho : op.apply c a b = .error .overflow) :
    report c.precision f =
      .ok ⟨false, none, some ⟨.arithmetic .overflow, f, some [op.symbol]⟩, f⟩ := by
  rw [report, (machined_of_reaches hb ht hr).detailed_eq,
    run_of_binary_overflow hc hr hleft hright ho]
  rfl

/-- **The calculations that raise.** At a precision below one there is no report exactly if the
machine is set to work; the fault is that of a precision out of range, and below the machine words
that of an integer that is too large for one. At the other precisions there is no report exactly if
the formula is balanced and grows, and the run over its tree comes to a negation whose rounded
operand is too large; the fault is an overflow. Every report tells either of a value or of a
failure. The overflow of a binary operator is a failure, and there are no other signals. -/
theorem report_eq_error_iff (precision : Int) (hp : precision ≤ 999) (f : Text) :
    (precision < 1 → ∀ x, report precision f = .error x ↔
      x = (if -2 ^ 63 ≤ precision then .precision else .word) ∧ ∃ t, Machined f t) ∧
    (∀ c : Context, precision = c.precision →
      (∀ x, report precision f = .error x ↔ x = .signal .overflow ∧ balanced f = true ∧
        ∃ t, Tree.ofFormula f = .ok t ∧ Overflows c t.postOrder) ∧
      ∀ t, balanced f = true → Tree.ofFormula f = .ok t →
        (∀ (op : BinaryOp) left right stack a b,
          Reaches c t.postOrder (right :: left :: stack) [op.symbol] →
          ofLiteral? left = some a → ofLiteral? right = some b →
          op.apply c a b = .error .overflow →
          report precision f =
            .ok ⟨false, none, some ⟨.arithmetic .overflow, f, some [op.symbol]⟩, f⟩) ∧
        ∀ x s, Performs c t.postOrder x (.error s) → s = .overflow) ∧
    ∀ r, report precision f = .ok r →
      (r.success = true ↔ r.value.isSome = true) ∧ (r.success = true ↔ r.failure = none) ∧
        r.formula = f := by
  refine ⟨fun hlt x => report_eq_error_iff_of_lt_one hlt, ?_, fun r => report_consistent⟩
  rintro c rfl
  have hc : c.precision ≤ Context.maxPrecision := (by omega : c.precision ≤ 999).trans (by decide)
  refine ⟨fun x => report_eq_error_iff_overflows hc, fun t hb ht => ⟨?_, fun x s => ?_⟩⟩
  · intro op left right stack a b
    exact report_of_binary_overflow hc hb ht
  · exact overflow_of_performs

/-- A formula that is only calculated by the machine, at precision zero, and a literal. -/
theorem report_eq_error_iff_zero :
    (0 : Int) ≤ 999 ∧ report 0 ['1', '+', '1'] = .error .precision ∧
      ∀ x, report 0 ['(', '7', ')'] ≠ .error x := by
  have hp : (0 : Int) ≤ 999 := by decide
  refine ⟨hp, ?_, fun x hx => ?_⟩
  · refine ((report_eq_error_iff 0 hp ['1', '+', '1']).1 (by decide) _).mpr ⟨rfl, ?_⟩
    have ht : Tree.ofFormula ['1', '+', '1'] = .ok (.binary ['+'] (.leaf ['1']) (.leaf ['1'])) := by
      cbv
    exact ⟨_, by decide, ht, by simp⟩
  · obtain ⟨-, t, hm⟩ := ((report_eq_error_iff 0 hp ['(', '7', ')']).1 (by decide) x).mp hx
    have ht : Tree.ofFormula ['(', '7', ')'] = .ok (.leaf ['7']) := by cbv
    have hleaf : t = .leaf ['7'] := Except.ok.inj (hm.grown.symm.trans ht)
    cases hm.not_literal _ hleaf

/-- Below the machine words, the fault of a formula that is calculated by the machine is not that of
a precision out of range. -/
theorem report_below_words :
    let precision : Int := -9223372036854775809
    let f := ['1', '+', '1']
    precision ≤ 999 ∧ precision < 1 ∧ (∃ t, Machined f t) ∧
      ¬ report precision f = .error .precision ∧ report precision f = .error .word := by
  intro precision f
  have hm : ∃ t, Machined f t := by
    have ht : Tree.ofFormula f = .ok (.binary ['+'] (.leaf ['1']) (.leaf ['1'])) := by cbv
    exact ⟨_, by decide, ht, by simp⟩
  have hword : report precision f = .error .word := by cbv
  exact ⟨by decide, by decide, hm, by rw [hword]; decide, hword⟩

end Calculator

end Reckon

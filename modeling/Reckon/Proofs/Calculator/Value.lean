import Reckon.Calculator
import Reckon.Proofs.Decimal.Rounding
import Reckon.Proofs.Machine.Success

/-!
# The value of a tree

A tree has a value only if it is an expression of literals. The value is what the recursive
evaluation yields, except that a single literal is written in plain notation.

## Main results

* `exists_expression_of_ofTree`: a tree with a value is an expression of literals
* `run_of_ofTree_eq_error`: what keeps a tree from having a value
* `exists_ofTree_leaf`, `ofTree_toTree`: the value of an expression
-/

namespace Reckon

open Decimal

namespace Calculator

/-- A grown tree with a value is an expression whose leaves are literals without a sign. -/
theorem exists_expression_of_ofTree {t : Tree} (ht : t.Grown) {precision : Int} {v : Text}
    (h : ofTree precision t = .ok v) :
    ∃ e : Expression, t = e.toTree ∧ ∀ l ∈ e.leaves, Unsigned l := by
  have hmachine : ∀ {v}, (Machine.run precision t.postOrder).map plain = .ok v →
      ∃ e : Expression, t = e.toTree ∧ ∀ l ∈ e.leaves, Unsigned l := by
    intro v h
    obtain ⟨a, ha, -⟩ := map_eq_ok.mp h
    exact Machine.exists_expression_of_run ht ha
  cases ht with
  | @leaf l hne hw =>
    by_cases hl : isLiteral l = true
    · refine ⟨.leaf l, rfl, ?_⟩
      simpa [Expression.leaves] using Tree.unsigned_of_whole hl hw
    · have hnone : canonical? l = none := by
        rw [canonical?, Option.map_eq_none_iff]
        simpa [isLiteral] using hl
      simp only [ofTree, hnone, Option.elim] at h
      exact hmachine h
  | negation _ => exact hmachine h
  | binary _ _ _ => exact hmachine h

/-- A literal has its own value, whatever the precision. -/
theorem exists_ofTree_leaf (precision : Int) {l : Text} (h : isLiteral l = true) :
    ∃ a, ofLiteral? l = some a ∧ ofTree precision (.leaf l) = .ok a.plain := by
  obtain ⟨a, ha⟩ := Option.isSome_iff_exists.mp h
  exact ⟨a, ha, by simp [ofTree, canonical?, ha]⟩

/-- What keeps a tree from having a value is what stops the machine. -/
theorem run_of_ofTree_eq_error {precision : Int} {t : Tree} {s : Stop}
    (h : ofTree precision t = .error s) : Machine.run precision t.postOrder = .error s := by
  unfold ofTree at h
  split at h
  · rename_i label
    cases hl : canonical? label with
    | none => exact map_eq_error.mp (by rwa [hl] at h)
    | some v =>
      rw [hl] at h
      cases h
  · exact map_eq_error.mp h

/-- What operators yield is the plain notation of a number that fits. -/
theorem exists_fits_of_evaluate {c : Context} {e : Expression} (hleaf : ∀ l, e ≠ .leaf l) {t : Text}
    (h : e.evaluate c = .ok t) : ∃ r, c.Fits r ∧ t = r.plain := by
  cases e with
  | leaf l => exact absurd rfl (hleaf l)
  | negation x =>
    obtain ⟨u, -, h⟩ := bind_eq_ok.mp h
    obtain ⟨a, r, hr, rfl⟩ := Machine.exists_of_negated c h
    exact ⟨r, fits_negate hr, rfl⟩
  | binary op x y =>
    obtain ⟨l, -, h⟩ := bind_eq_ok.mp h
    obtain ⟨r, -, h⟩ := bind_eq_ok.mp h
    obtain ⟨a, b, r, hr, rfl⟩ := Machine.exists_of_combine c h
    exact ⟨r, BinaryOp.fits_apply hr, rfl⟩

theorem ofTree_eq_map_run (precision : Int) {e : Expression} (hleaf : ∀ l, e ≠ .leaf l) :
    ofTree precision e.toTree = (Machine.run precision e.toTree.postOrder).map plain := by
  cases e with
  | leaf l => exact absurd rfl (hleaf l)
  | negation x => rfl
  | binary op x y => rfl

/-- The value of an expression that is no leaf is what its evaluation yields. -/
theorem ofTree_toTree {c : Context} {e : Expression} (hc : c.precision ≤ Context.maxPrecision)
    (hleaf : ∀ l, e ≠ .leaf l) (he : ∀ l ∈ e.leaves, Operator.ofText? l = none) :
    ofTree c.precision e.toTree = e.evaluate c := by
  rw [ofTree_eq_map_run _ hleaf, Machine.run_eq_evaluate c hc e he]
  cases hv : e.evaluate c with
  | error s => rfl
  | ok t =>
    obtain ⟨r, -, rfl⟩ := exists_fits_of_evaluate hleaf hv
    show (Machine.result [r.plain]).map plain = _
    rw [Machine.result_singleton (ofLiteral?_plain r)]
    exact congrArg _ (plain_settled r)

end Calculator

end Reckon

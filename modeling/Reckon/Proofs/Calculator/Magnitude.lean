import Reckon.Proofs.Calculator.Value
import Reckon.Proofs.Machine.Magnitude
import Reckon.Proofs.Tree.Piece

/-!
# Formulas of moderate size

The tokens of a formula are cut out of its folded text, so they have no more characters than it. If
these characters times the precision are in the range of the exponents, no operation of the
calculation overflows or underflows.

## Main results

* `extent_labels_le`: the tokens of a tree are no longer than the text that it is grown from
* `report_moderate`: moderate input is calculated without faults and arithmetic failures
-/

namespace Reckon

open Brackets Decimal Machine Nesting

/-- The labels of a tree have no more characters than the text that it is grown from. -/
theorem Tree.extent_labels_le {t enclosing : Text} {tree : Tree}
    (h : ofPiece t enclosing = .ok tree) : extent tree.labels ≤ t.length := by
  induction t using piece_induction generalizing enclosing tree with
  | stripped t ih =>
    rw [← ofPiece_congr (strip_strip t)] at h
    exact (ih h).trans (length_strip_le t)
  | empty =>
    rw [ofPiece_empty enclosing strip_nil] at h
    cases h
  | whole t hne hs ho =>
    rw [ofPiece_whole enclosing (hs.symm ▸ hne) (hs.symm ▸ ho), hs] at h
    cases h
    exact le_rfl
  | negation p q rank hw _ hp ih =>
    rw [ofPiece_negation enclosing hw hp] at h
    obtain ⟨x, hx, rfl⟩ := map_eq_ok.mp h
    have hlabel : extent [negationLabel] = 1 := rfl
    have hle := ih hx
    rw [labels, extent_append, hlabel, List.length_append, List.length_cons]
    omega
  | binary p c q rank hw _ _ hneg ihp ihq =>
    rw [ofPiece_binary enclosing hw hneg] at h
    obtain ⟨l, hl, h⟩ := bind_eq_ok.mp h
    obtain ⟨r, hr, rfl⟩ := map_eq_ok.mp h
    have hlabel : extent [[c]] = 1 := rfl
    have hle := ihp hl
    have hle' := ihq hr
    rw [labels, extent_append, extent_append, hlabel, List.length_append, List.length_cons]
    omega

namespace Calculator

variable {c : Context}

/-- A tree of moderate size is only stopped by the formula. -/
theorem failure_of_ofTree (hc : c.precision ≤ Context.maxPrecision) {t : Tree}
    (hn : extent t.labels * c.precision ≤ 999999) {s : Stop} (h : ofTree c.precision t = .error s) :
    ∃ f, s = .failure f ∧ ∀ signal, f.cause ≠ .arithmetic signal :=
  failure_of_run hc (by rwa [Tree.postOrder_eq]) (run_of_ofTree_eq_error h)

/-- A formula of moderate size is only stopped by what is wrong with it. -/
theorem failure_of_detailed (hc : c.precision ≤ Context.maxPrecision) {f : Text}
    (hn : (Surface.fold f).length * c.precision ≤ 999999) {s : Stop}
    (h : detailed c.precision f = .error s) :
    ∃ failure, s = .failure failure ∧ ∀ signal, failure.cause ≠ .arithmetic signal := by
  unfold detailed at h
  split at h
  · split at h
    · rename_i t ht
      rw [Tree.ofFormula_eq_ofPiece] at ht
      obtain ⟨s', hs, rfl⟩ := mapError_eq_error.mp h
      have hle := Nat.mul_le_mul_right c.precision (Tree.extent_labels_le ht)
      obtain ⟨failure, rfl, hcause⟩ := failure_of_ofTree hc (hle.trans hn) hs
      exact ⟨_, rfl, hcause⟩
    · rename_i failure hf
      rw [Tree.ofFormula_eq_ofPiece] at hf
      cases hv : canonical? (normalize f) with
      | none =>
        rw [hv] at h
        cases h
        exact ⟨failure, rfl, by simp [Tree.cause_of_ofPiece _ hf]⟩
      | some v =>
        rw [hv] at h
        cases h
  · cases h
    exact ⟨_, rfl, by simp⟩

/-- **Moderate input cannot overflow or underflow.** If the characters of a sequence of tokens times
the precision are in the range of the exponents, the machine only stops at what is wrong with the
sequence, and no operator gives a subnormal value or rounds to zero what is not zero. So the
calculation of a formula of moderate size always ends with a report, which never tells of an
arithmetic failure. -/
theorem report_moderate (c : Context) (hc : c.precision ≤ 999) :
    (∀ tokens, extent tokens * c.precision ≤ 999999 →
      (∀ s, run c.precision tokens = .error s →
        ∃ f, s = .failure f ∧ ∀ signal, f.cause ≠ .arithmetic signal) ∧
      ∀ x o, Performs c tokens x o → ¬ Context.Subnormal x ∧
        ∃ r, o = .ok r ∧ ¬ Context.Subnormal r.toRat ∧ (x ≠ 0 → r.toRat ≠ 0)) ∧
    ∀ f, (Surface.fold f).length * c.precision ≤ 999999 →
      ∃ r, report c.precision f = .ok r ∧
        ∀ failure, r.failure = some failure → ∀ signal, failure.cause ≠ .arithmetic signal := by
  have hmax : c.precision ≤ Context.maxPrecision := hc.trans (by decide)
  refine ⟨fun tokens hn => ⟨fun s => failure_of_run hmax hn, fun x o => exists_ok_of_performs hn⟩,
    fun f hn => ?_⟩
  unfold report
  cases hd : detailed c.precision f with
  | ok v => exact ⟨_, rfl, by simp⟩
  | error s =>
    obtain ⟨failure, rfl, hcause⟩ := failure_of_detailed hmax hn hd
    refine ⟨_, rfl, fun failure' h => ?_⟩
    cases h
    exact hcause

/-- A quotient that is rounded to five digits, and a difference from which nothing is left. -/
theorem report_moderate_quotient :
    let c : Context := ⟨5, by decide⟩
    let tokens := [['1'], ['3'], ['/']]
    let f := ['1', '/', '3', '-', '.', '3', '3', '3', '3', '3']
    (c.precision ≤ 999 ∧ extent tokens * c.precision ≤ 999999 ∧
      (Surface.fold f).length * c.precision ≤ 999999) ∧
      (∃ r, BinaryOp.divide.apply c ⟨false, 1, 0⟩ ⟨false, 3, 0⟩ = .ok r ∧ r.toRat ≠ 0) ∧
      ∃ r, report 5 f = .ok r ∧
        ∀ failure, r.failure = some failure → ∀ signal, failure.cause ≠ .arithmetic signal := by
  intro c tokens f
  have hbounds : c.precision ≤ 999 ∧ extent tokens * c.precision ≤ 999999 ∧
      (Surface.fold f).length * c.precision ≤ 999999 := by decide
  have h := report_moderate c hbounds.1
  have hreaches : Reaches c tokens [['3'], ['1']] [BinaryOp.divide.symbol] :=
    ⟨[['1'], ['3']], [], rfl, by decide⟩
  have hperforms : Performs c tokens
      (BinaryOp.divide.exact (toRat ⟨false, 1, 0⟩) (toRat ⟨false, 3, 0⟩))
      (BinaryOp.divide.apply c ⟨false, 1, 0⟩ ⟨false, 3, 0⟩) :=
    .binary hreaches (by decide) (by decide) (by decide)
  obtain ⟨-, r, hr, -, hne⟩ := (h.1 tokens hbounds.2.1).2 _ _ hperforms
  exact ⟨hbounds, ⟨r, hr, hne (by norm_num [BinaryOp.exact, toRat, signed])⟩, h.2 f hbounds.2.2⟩

end Calculator

end Reckon

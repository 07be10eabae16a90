import Reckon.Proofs.Decimal.Significant
import Reckon.Proofs.Machine.Operation

/-!
# One operation of the machine

On the literals of its operands and itself, the machine carries out one operation: the operands are
exact, however many digits they have, and the result is the exact one, rounded once to as many
significant digits as the precision. It is written in plain notation and read back, which does not
change the value any more.

## Main results

* `run_of_evaluate`: a result is read back from its plain notation
* `run_binary`, `run_negation`: the machine on one operation
* `run_roundsTo`: the result of one operation is correctly rounded
-/

namespace Reckon

open Context Decimal

namespace Machine

variable {c : Context} {s t : Text} {a b : Decimal}

/-- A result is read back from its plain notation. -/
theorem run_of_evaluate (hc : c.precision ≤ maxPrecision) {e : Expression}
    (he : ∀ l ∈ e.leaves, isLiteral l = true) {o : Except Stop Decimal}
    (ho : e.evaluate c = o.map plain) : run c.precision e.postOrder = o.map settled := by
  rw [← Expression.postOrder_toTree, run_of_literals hc he, ho]
  cases o with
  | ok r => exact result_singleton (ofLiteral?_plain r)
  | error stop => rfl

theorem run_binary (hc : c.precision ≤ maxPrecision) (op : BinaryOp) (ha : ofLiteral? s = some a)
    (hb : ofLiteral? t = some b) :
    run c.precision [s, t, [op.symbol]] = (operate c op a b).map settled := by
  have hs : isLiteral s = true := by simp [isLiteral, ha]
  have ht : isLiteral t = true := by simp [isLiteral, hb]
  apply run_of_evaluate hc (e := .binary op (.leaf s) (.leaf t))
  · simp [Expression.leaves, hs, ht]
  · exact evaluate_binary (if_pos hs) (if_pos ht) ha hb

theorem run_negation (hc : c.precision ≤ maxPrecision) (ha : ofLiteral? s = some a) :
    run c.precision [s, Tree.negationLabel] = (opposite c a).map settled := by
  have hs : isLiteral s = true := by simp [isLiteral, ha]
  apply run_of_evaluate hc (e := .negation (.leaf s))
  · simp [Expression.leaves, hs]
  · rw [← negated_eq_map_opposite ha, Expression.evaluate, Expression.evaluate, if_pos hs]
    rfl

/-- An operation whose exact value is of normal size has a result, and it is correctly rounded. -/
theorem exists_roundsTo {x : ℚ} (hx : Normal x) {o : Except Signal Decimal}
    (ho : o.map toRat = c.rounded x) :
    ∃ r, o = .ok r ∧ RoundsTo c.precision x r.settled.toRat := by
  obtain ⟨r, rfl, hr⟩ := map_eq_ok.mp (ho.trans (hx.rounded_eq_ok c))
  refine ⟨r, rfl, ?_⟩
  rw [toRat_settled, hr]
  exact c.roundsTo_nearest hx

/-- **Each operation is correctly rounded.** On any two literals, at any precision that settings may
ask for, if the exact value of a binary operator is of normal size, the machine yields the one
number that is the exact value rounded to so many significant digits, and the exact value itself if
it has no more digits. So does the negation of a literal of normal size. -/
theorem run_roundsTo (hc : c.precision ≤ 999) (ha : ofLiteral? s = some a)
    (hb : ofLiteral? t = some b) :
    (∀ op : BinaryOp, (op = .divide → b.toRat ≠ 0) → Normal (op.exact a.toRat b.toRat) →
      ∃ v, run c.precision [s, t, [op.symbol]] = .ok v ∧
        (∀ y, RoundsTo c.precision (op.exact a.toRat b.toRat) y ↔ y = v.toRat) ∧
        (Significant c.precision (op.exact a.toRat b.toRat) →
          v.toRat = op.exact a.toRat b.toRat)) ∧
      (Normal (-a.toRat) →
        ∃ v, run c.precision [s, Tree.negationLabel] = .ok v ∧
          (∀ y, RoundsTo c.precision (-a.toRat) y ↔ y = v.toRat) ∧
          (Significant c.precision (-a.toRat) → v.toRat = -a.toRat)) := by
  have hmax : c.precision ≤ maxPrecision := hc.trans (by decide)
  constructor
  · intro op hb0 hx
    have hz : ¬ (op = .divide ∧ b.isZero = true) := by
      rintro ⟨hop, hzero⟩
      rw [isZero_eq_decide, decide_eq_true_eq] at hzero
      exact hb0 hop hzero
    obtain ⟨r, hr, hrounds⟩ := exists_roundsTo hx (BinaryOp.map_toRat_apply c op a b hz)
    refine ⟨r.settled, ?_, fun y => hrounds.iff_eq, hrounds.eq_of_significant⟩
    rw [run_binary hmax op ha hb, operate_eq_ok.mpr ⟨hz, hr⟩]
    rfl
  · intro hx
    obtain ⟨r, hr, hrounds⟩ := exists_roundsTo hx (map_toRat_negate c a)
    refine ⟨r.settled, ?_, fun y => hrounds.iff_eq, hrounds.eq_of_significant⟩
    rw [run_negation hmax ha, opposite_eq_ok.mpr hr]
    rfl

/-- A tie that is rounded up, with a carry into one digit more: nine and a half at one digit. -/
theorem run_roundsTo_tie :
    let c : Context := ⟨1, Nat.one_pos⟩
    let a : Decimal := ⟨false, 9, 0⟩
    let b : Decimal := ⟨false, 5, -1⟩
    (c.precision ≤ 999 ∧ ofLiteral? ['9'] = some a ∧ ofLiteral? ['.', '5'] = some b ∧
      Normal (BinaryOp.add.exact a.toRat b.toRat)) ∧
      (run 1 [['9'], ['.', '5'], ['+']]).map plain = .ok ['1', '0'] ∧
      ∃ v, run 1 [['9'], ['.', '5'], ['+']] = .ok v ∧
        (∀ y, RoundsTo 1 (BinaryOp.add.exact a.toRat b.toRat) y ↔ y = v.toRat) ∧
        (Significant 1 (BinaryOp.add.exact a.toRat b.toRat) →
          v.toRat = BinaryOp.add.exact a.toRat b.toRat) := by
  intro c a b
  have hc : c.precision ≤ 999 := by decide
  have ha : ofLiteral? ['9'] = some a := by decide
  have hb : ofLiteral? ['.', '5'] = some b := by decide
  have hx : Normal (BinaryOp.add.exact a.toRat b.toRat) := by
    have hsum : BinaryOp.add.exact a.toRat b.toRat = 19 / 2 := by
      norm_num [BinaryOp.exact, toRat, signed, a, b]
    rw [hsum]
    refine .inr ⟨?_, ?_⟩
    · have : (10 : ℚ) ^ minExponent ≤ 1 := zpow_le_one_of_nonpos₀ (by norm_num) (by decide)
      norm_num
      linarith
    · have : (10 : ℚ) ^ (1 : Int) ≤ 10 ^ maxExponent := zpow_le_zpow_right₀ (by norm_num) (by decide)
      norm_num at this ⊢
      linarith
  exact ⟨⟨hc, ha, hb, hx⟩, by decide, (run_roundsTo hc ha hb).1 .add (by simp) hx⟩

end Machine

end Reckon

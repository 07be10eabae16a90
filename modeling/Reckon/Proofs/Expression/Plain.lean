import Reckon.Proofs.Calculator.Value
import Reckon.Proofs.Decimal.Sign
import Reckon.Proofs.Expression.Rendering

/-!
# Plain notation as a formula

A number in plain notation is a formula again: a literal, or the negation of one. It is folded into
itself, and its value is its own text, provided that a negative number fits into the context.

## Main definitions

* `Expression.ofPlain a`: the expression that the plain notation of `a` is

## Main results

* `parsed_ofPlain`: the plain notation grows into that expression
* `fold_plain`: folding does not change plain notation
* `detailed_of_parsed`: a formula is calculated like the expression that it is folded into
* `ofTree_ofPlain`: the value of plain notation is the plain notation
-/

namespace Reckon

open Decimal

/-- The negation of a text that is read like a number that fits is written like the number with the
other sign. -/
theorem Machine.negated_of_fits {c : Context} {a : Decimal} {t : Text}
    (ht : ofLiteral? t = some a.settled) (hf : c.Fits a) :
    Machine.negated c t = .ok a.opposite.plain := by
  obtain ⟨r, hr, hplain⟩ := negate_settled hf
  simp only [Machine.negated, ht, hr, hplain]

namespace Expression

variable {a : Decimal}

/-- The expression that the plain notation of a number is. -/
def ofPlain (a : Decimal) : Expression :=
  if a.negative && !a.isZero then negation (leaf a.plainMagnitude) else leaf a.plainMagnitude

theorem unsigned_plainMagnitude (a : Decimal) : Unsigned a.plainMagnitude :=
  (body_plainMagnitude a).unsigned

theorem ofPlain_of_negative (h : (a.negative && !a.isZero) = true) :
    ofPlain a = negation (leaf a.plainMagnitude) ∧ a.plain = '-' :: a.plainMagnitude :=
  ⟨if_pos h, if_pos h⟩

theorem ofPlain_of_not_negative (h : ¬ (a.negative && !a.isZero) = true) :
    ofPlain a = leaf a.plain ∧ a.plain = a.plainMagnitude := by
  have hp : a.plain = a.plainMagnitude := if_neg h
  exact ⟨by rw [hp]; exact if_neg h, hp⟩

theorem unsigned_of_mem_leaves_ofPlain {l : Text} (h : l ∈ (ofPlain a).leaves) : Unsigned l := by
  have hl : l = a.plainMagnitude := by
    unfold ofPlain at h
    split at h <;> simpa [leaves] using h
  exact hl ▸ unsigned_plainMagnitude a

/-- The plain notation of a number grows into its expression. -/
theorem parsed_ofPlain (a : Decimal) : Parsed 0 (ofPlain a) a.plain := by
  by_cases h : (a.negative && !a.isZero) = true
  · rw [(ofPlain_of_negative h).1, (ofPlain_of_negative h).2]
    exact (Parsed.leaf (unsigned_plainMagnitude a)).negation (Nat.zero_le _)
  · rw [(ofPlain_of_not_negative h).1, (ofPlain_of_not_negative h).2]
    exact .leaf (unsigned_plainMagnitude a)

/-- Folding does not change plain notation. -/
theorem fold_plain (a : Decimal) : Surface.fold a.plain = a.plain := by
  have hu := unsigned_plainMagnitude a
  by_cases h : (a.negative && !a.isZero) = true
  · rw [(ofPlain_of_negative h).2]
    exact Surface.fold_minus_literal hu
  · rw [(ofPlain_of_not_negative h).2]
    exact (Surface.Folds.literal hu).fold_eq

/-- A negative number that fits is what its plain notation is evaluated to. -/
theorem evaluate_ofPlain {c : Context} (hf : (a.negative && !a.isZero) = true → c.Fits a) :
    (ofPlain a).evaluate c = .ok a.plain := by
  by_cases h : (a.negative && !a.isZero) = true
  · obtain ⟨hn, hz⟩ : a.negative = true ∧ a.isZero = false := by simpa using h
    have hread : ofLiteral? a.plainMagnitude = some a.opposite.settled := by
      rw [ofLiteral?_plainMagnitude, settled]
      simp [opposite, hn]
    have hnegated := Machine.negated_of_fits hread (hf h).opposite
    rw [opposite_opposite] at hnegated
    rw [(ofPlain_of_negative h).1, evaluate, evaluate, if_pos (unsigned_plainMagnitude a).1]
    exact hnegated
  · rw [(ofPlain_of_not_negative h).1, evaluate, if_pos (isLiteral_plain a)]

end Expression

namespace Calculator

open Expression

/-- A formula that is folded into a sentence of an expression is calculated like the expression. -/
theorem detailed_of_parsed {precision : Int} {f w : Text} {n : Nat} {e : Expression}
    (hf : Surface.fold f = w) (hp : Parsed n e w) :
    detailed precision f = (ofTree precision e.toTree).mapError (placed f) := by
  have hb : Nesting.balanced f = true := by
    rw [← Surface.balanced_fold, hf]
    exact hp.sentence.balanced
  rw [detailed, if_pos hb, Tree.ofFormula_eq_ofPiece, hf, hp.tree]

/-- The value of plain notation is the plain notation. -/
theorem ofTree_ofPlain {precision : Int} {a : Decimal}
    (hf : (a.negative && !a.isZero) = true →
      ∃ c, Context.ofPrecision? precision = some c ∧ c.Fits a) :
    ofTree precision (ofPlain a).toTree = .ok a.plain := by
  by_cases h : (a.negative && !a.isZero) = true
  · obtain ⟨c, hc, hfits⟩ := hf h
    obtain ⟨rfl, hle⟩ := Context.eq_precision_of_ofPrecision? hc
    rw [ofTree_toTree hle (fun l hl => ?_) fun l hl =>
      (unsigned_of_mem_leaves_ofPlain hl).ofText?_eq_none, evaluate_ofPlain fun _ => hfits]
    rw [(ofPlain_of_negative h).1] at hl
    cases hl
  · obtain ⟨b, hb, hv⟩ := exists_ofTree_leaf precision (isLiteral_plain a)
    rw [ofLiteral?_plain] at hb
    cases hb
    rw [(ofPlain_of_not_negative h).1, toTree, hv, plain_settled]

end Calculator

end Reckon

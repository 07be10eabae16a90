import Reckon.Proofs.Decimal.Places
import Reckon.Proofs.Machine.Rounding

/-!
# Sums and products that fit

An expression of sums, differences, products and negations has an exact value, and a scale: as many
digits after the point as the rules of written arithmetic give. As long as the exact value of every
operator has no more digits at its scale than the precision, nothing is rounded, and neither a digit
nor a zero at the end is lost on the way through the texts.

## Main definitions

* `BinaryOp.scale`, `Expression.scale`: the digits after the point of an exact result
* `Expression.exact`: the exact value of an expression
* `Expression.inner`: the subexpressions that are no leaves
* `Expression.operators`: the binary operators of an expression

## Main results

* `round_of_lt`: a whole number of units with few enough digits is not rounded
* `exists_apply_of_fits`, `exists_negate_of_fits`: one operation, exact in value and scale
* `Expression.run_exact`: the result is the exact value, written with as many digits as the scale
-/

namespace Reckon

open Context Decimal

/-! ## Values and scales -/

namespace BinaryOp

/-- The sum, the difference and the product, which keep decimal fractions decimal. -/
def ring : List BinaryOp := [add, subtract, multiply]

/-- The digits after the point that the result has, if the operands have `m` and `n`. -/
def scale (op : BinaryOp) (m n : Nat) : Nat :=
  match op with
  | multiply => m + n
  | _ => max m n

end BinaryOp

namespace Expression

/-- The digits after the point that the exact value is written with. -/
def scale : Expression → Nat
  | leaf l => places l
  | negation x => x.scale
  | binary op x y => op.scale x.scale y.scale

/-- The exact value, and zero for a leaf that is no literal. -/
def exact : Expression → ℚ
  | leaf l => (ofLiteral? l).elim 0 toRat
  | negation x => -x.exact
  | binary op x y => op.exact x.exact y.exact

/-- The binary operators from left to right. -/
def operators : Expression → List BinaryOp
  | leaf _ => []
  | negation x => x.operators
  | binary op x y => x.operators ++ op :: y.operators

/-- The subexpressions that are no leaves. -/
def inner : Expression → List Expression
  | leaf _ => []
  | negation x => negation x :: x.inner
  | binary op x y => binary op x y :: (x.inner ++ y.inner)

end Expression

/-! ## One operation -/

namespace Context

variable {c : Context}

/-- A whole number of units that has few enough digits is not rounded. -/
theorem round_of_lt (hc : c.precision ≤ 999) {num : Nat} (hn : num < 10 ^ c.precision) {s : Nat}
    (hs : s ≤ 999999) (negative : Bool) :
    c.round negative num 1 (-s) = .ok ⟨negative, num, -s⟩ := by
  by_cases hz : num = 0
  · subst hz
    simp only [round, if_true, leastExponent, minExponent, maxExponent]
    have := c.precision_pos
    congr 2
    omega
  · have hlog := Nat.log_lt_of_lt_pow hz hn
    rw [c.round_of_quantum_le hz, bounded_eq_ok]
    · refine ⟨rfl, ?_⟩
      intro _
      simp only [maxExponent]
      omega
    · simp only [quantum, leastExponent, minExponent]
      omega

end Context

variable {c : Context} {a b : Decimal} {s m n : Nat} {x : ℚ}

/-- A value of few enough digits at its scale is neither rounded nor given another scale. -/
theorem exists_of_round (hc : c.precision ≤ 999) {negative : Bool} {num : Nat}
    (hx : signed negative (num * (10 : ℚ) ^ (-s : Int)) = x)
    (hlt : |x| * (10 : ℚ) ^ s < (10 : ℚ) ^ c.precision) (hs : s ≤ 999999) :
    ∃ r, c.round negative num 1 (-s) = .ok r ∧ r.toRat = x ∧ r.exponent = -s := by
  have hnum : num < 10 ^ c.precision := by
    rw [← hx, abs_signed, abs_of_nonneg (by positivity), zpow_neg, zpow_natCast, mul_assoc,
      inv_mul_cancel₀ (by positivity), mul_one] at hlt
    exact_mod_cast hlt
  exact ⟨_, round_of_lt hc hnum hs negative, hx, rfl⟩

/-- A sum, a difference or a product rounds a whole number of units at the scale. -/
theorem exists_round_of_mem_ring {op : BinaryOp} (hop : op ∈ BinaryOp.ring)
    (ha : a.exponent = -m) (hb : b.exponent = -n) :
    ∃ negative num, op.apply c a b = c.round negative num 1 (-(op.scale m n : Nat)) ∧
      signed negative (num * (10 : ℚ) ^ (-(op.scale m n : Nat) : Int)) =
        op.exact a.toRat b.toRat := by
  have hmin : min a.exponent b.exponent = -(max m n : Nat) := by omega
  obtain rfl | rfl | rfl : op = .add ∨ op = .subtract ∨ op = .multiply := by
    simpa [BinaryOp.ring] using hop
  · have h := exists_round_add c a b
    rwa [hmin] at h
  · have h := exists_round_add c a b.opposite
    rw [toRat_opposite, ← sub_eq_add_neg] at h
    exact hmin ▸ h
  · have hsum : a.exponent + b.exponent = -(m + n : Nat) := by omega
    have h := signed_multiply a b
    rw [hsum] at h
    refine ⟨_, _, ?_, h⟩
    show a.multiply c b = _
    rw [multiply, hsum]
    rfl

/-- A sum, a difference or a product whose exact value fits is exact, at the scale of the rules. -/
theorem exists_apply_of_fits (hc : c.precision ≤ 999) {op : BinaryOp} (hop : op ∈ BinaryOp.ring)
    (ha : a.exponent = -m) (hb : b.exponent = -n)
    (hlt : |op.exact a.toRat b.toRat| * (10 : ℚ) ^ op.scale m n < (10 : ℚ) ^ c.precision)
    (hs : op.scale m n ≤ 999999) :
    ∃ r, op.apply c a b = .ok r ∧ r.toRat = op.exact a.toRat b.toRat ∧
      r.exponent = -(op.scale m n : Nat) := by
  obtain ⟨negative, num, hr, hx⟩ := exists_round_of_mem_ring (c := c) hop ha hb
  rw [hr]
  exact exists_of_round hc hx hlt hs

/-- The negation of a value that fits is exact, at the scale of the value. -/
theorem exists_negate_of_fits (hc : c.precision ≤ 999) (ha : a.exponent = -s)
    (hlt : |-a.toRat| * (10 : ℚ) ^ s < (10 : ℚ) ^ c.precision) (hs : s ≤ 999999) :
    ∃ r, a.negate c = .ok r ∧ r.toRat = -a.toRat ∧ r.exponent = -s := by
  have hx := signed_negate a
  rw [ha] at hx
  rw [negate, ha]
  exact exists_of_round hc hx hlt hs

/-! ## Expressions -/

/-- The text is read as the value, and with so many digits after the point. -/
def Holds (t : Text) (x : ℚ) (s : Nat) : Prop :=
  ∃ a, ofLiteral? t = some a ∧ a.toRat = x ∧ a.exponent = -s

/-- A result at a scale is read back at that scale. -/
theorem holds_plain {r : Decimal} (hx : r.toRat = x) (hs : r.exponent = -s) : Holds r.plain x s := by
  refine ⟨r.settled, ofLiteral?_plain r, ?_, ?_⟩
  · rw [toRat_settled, hx]
  · rw [settled_exponent, hs]
    omega

namespace Expression

/-- Along the evaluation, every text is read as the exact value at the scale. -/
theorem exists_holds (hc : c.precision ≤ 999) {e : Expression} (hl : ∀ l ∈ e.leaves, Unsigned l)
    (ho : ∀ op ∈ e.operators, op ∈ BinaryOp.ring)
    (hf : ∀ x ∈ e.inner, |x.exact| * (10 : ℚ) ^ x.scale < (10 : ℚ) ^ c.precision ∧
      x.scale ≤ 999999) :
    ∃ t, e.evaluate c = .ok t ∧ Holds t e.exact e.scale := by
  induction e with
  | leaf l =>
    have hu := hl l (List.mem_singleton_self l)
    obtain ⟨a, ha⟩ := Option.isSome_iff_exists.mp hu.1
    refine ⟨l, if_pos hu.1, a, ha, ?_, hu.exponent_eq ha⟩
    rw [exact, ha]
    rfl
  | negation x ih =>
    obtain ⟨hlt, hs⟩ := hf _ (List.mem_cons_self ..)
    obtain ⟨t, ht, a, ha, hx, he⟩ := ih hl ho fun y hy => hf y (List.mem_cons_of_mem _ hy)
    rw [exact, ← hx] at hlt
    obtain ⟨r, hr, hv, hexp⟩ := exists_negate_of_fits hc he hlt hs
    refine ⟨r.plain, ?_, holds_plain ?_ hexp⟩
    · rw [evaluate, ht]
      show Machine.negated c t = _
      rw [Machine.negated_eq_map_opposite ha, Machine.opposite_eq_ok.mpr hr]
      rfl
    · rw [hv, exact, hx]
  | binary op x y ihx ihy =>
    obtain ⟨hlt, hs⟩ := hf _ (List.mem_cons_self ..)
    have hop : op ∈ BinaryOp.ring := ho op (by simp [operators])
    obtain ⟨left, hleft, a, ha, hax, hae⟩ := ihx
      (fun l h => hl l (List.mem_append_left _ h))
      (fun o h => ho o (List.mem_append_left _ h))
      fun z h => hf z (List.mem_cons_of_mem _ (List.mem_append_left _ h))
    obtain ⟨right, hright, b, hb, hby, hbe⟩ := ihy
      (fun l h => hl l (List.mem_append_right _ h))
      (fun o h => ho o (List.mem_append_right _ (List.mem_cons_of_mem _ h)))
      fun z h => hf z (List.mem_cons_of_mem _ (List.mem_append_right _ h))
    rw [exact, ← hax, ← hby] at hlt
    obtain ⟨r, hr, hv, hexp⟩ := exists_apply_of_fits hc hop hae hbe hlt hs
    refine ⟨r.plain, ?_, holds_plain ?_ hexp⟩
    · have hdiv : ¬ (op = .divide ∧ b.isZero = true) := by
        rintro ⟨rfl, -⟩
        exact absurd hop (by decide)
      rw [Machine.evaluate_binary hleft hright ha hb, Machine.operate_eq_ok.mpr ⟨hdiv, hr⟩]
      rfl
    · rw [hv, exact, hax, hby]

/-- **Sums and products that fit are exact in value and scale.** At any precision that settings may
ask for, if the leaves of an expression are literals without a sign, its operators are sums,
differences, products and negations, and the exact value of none of them has more digits at its
scale than the precision, the machine yields on the post-order of the tree the one text that writes
the exact value with as many digits after the point as the scale, and zero without a sign. -/
theorem run_exact (hc : c.precision ≤ 999) {e : Expression} (hl : ∀ l ∈ e.leaves, Unsigned l)
    (ho : ∀ op ∈ e.operators, op ∈ BinaryOp.ring)
    (hf : ∀ x ∈ e.inner, |x.exact| * (10 : ℚ) ^ x.scale < (10 : ℚ) ^ c.precision ∧
      x.scale ≤ 999999) :
    ∃ a, Machine.run c.precision e.toTree.postOrder = .ok a ∧
      ∀ t, Written e.scale e.exact t ↔ t = a.plain := by
  obtain ⟨t, ht, a, ha, hx, he⟩ := exists_holds hc hl ho hf
  refine ⟨a, ?_, fun s => ?_⟩
  · rw [Machine.run_of_literals (hc.trans (by decide)) fun l h => (hl l h).1, ht]
    exact Machine.result_singleton ha
  · have hwritten := written_plain a
    rw [hx, he, neg_neg, Int.toNat_natCast] at hwritten
    exact hwritten.iff_eq

/-- A difference that cancels, under a minus: zero keeps the three places of the product. -/
theorem run_exact_cancelled :
    let e : Expression := .negation (.binary .subtract
      (.binary .multiply (.leaf ['1', '2', '.', '5', '0']) (.leaf ['.', '4'])) (.leaf ['5']))
    ((∀ l ∈ e.leaves, Unsigned l) ∧ (∀ op ∈ e.operators, op ∈ BinaryOp.ring) ∧
      ∀ x ∈ e.inner, |x.exact| * (10 : ℚ) ^ x.scale < (10 : ℚ) ^ 4 ∧ x.scale ≤ 999999) ∧
      (Machine.run 4 e.toTree.postOrder).map plain = .ok ['0', '.', '0', '0', '0'] ∧
      ∃ a, Machine.run 4 e.toTree.postOrder = .ok a ∧
        ∀ t, Written e.scale e.exact t ↔ t = a.plain := by
  intro e
  have hl : ∀ l ∈ e.leaves, Unsigned l := by decide
  have ho : ∀ op ∈ e.operators, op ∈ BinaryOp.ring := by decide
  have hscale : ∀ x ∈ e.inner, x.scale = 3 := by decide
  have hfirst : ofLiteral? ['1', '2', '.', '5', '0'] = some ⟨false, 1250, -2⟩ := by decide
  have hsecond : ofLiteral? ['.', '4'] = some ⟨false, 4, -1⟩ := by decide
  have hthird : ofLiteral? ['5'] = some ⟨false, 5, 0⟩ := by decide
  have hf : ∀ x ∈ e.inner, |x.exact| * (10 : ℚ) ^ x.scale < (10 : ℚ) ^ 4 ∧ x.scale ≤ 999999 := by
    intro x hx
    rw [hscale x hx]
    refine ⟨?_, by decide⟩
    simp only [e, inner, List.append_nil, List.mem_cons, List.not_mem_nil, or_false] at hx
    rcases hx with rfl | rfl | rfl <;>
      norm_num [exact, BinaryOp.exact, hfirst, hsecond, hthird, toRat, signed]
  have htokens : e.toTree.postOrder = [['1', '2', '.', '5', '0'], ['.', '4'], ['*'], ['5'], ['-'],
    Tree.negationLabel] := e.postOrder_toTree
  have htext : (Machine.run 4 e.toTree.postOrder).map plain = .ok ['0', '.', '0', '0', '0'] := by
    rw [htokens]
    decide
  exact ⟨⟨hl, ho, hf⟩, htext, run_exact (c := ⟨4, by decide⟩) (by decide) hl ho hf⟩

end Expression

end Reckon

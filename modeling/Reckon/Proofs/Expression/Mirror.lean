import Mathlib.Data.List.Perm.Basic
import Reckon.Proofs.Decimal.Literal
import Reckon.Proofs.Machine.Operation

/-!
# Mirrored expressions

A sum, a product, a connective and a test for equality have the same result if their operands are
exchanged, and so has a comparison of order if it is turned around. This holds for the result as a
number with its sign and exponent, so it does not matter whether operands are exchanged below other
operators. What stops an evaluation may be another failure then, as the operands are evaluated in
another order.

## Main definitions

* `BinaryOp.mirror?`: the operator for exchanged operands, if there is one
* `Expression.Mirrors`: the operands of some operators are exchanged

## Main results

* `BinaryOp.apply_of_mirror?`: an operator and its mirror image on exchanged operands
* `Expression.evaluate_of_mirrors`: a mirrored expression yields the same text
* `Expression.run_of_mirrors`: the machine yields the same number on a mirrored expression
-/

namespace Reckon

open Decimal

/-! ## Operators -/

namespace Decimal

variable (c : Context) (a b : Decimal)

protected theorem add_comm : a.add c b = b.add c a := by
  simp only [add, min_comm a.exponent, Int.add_comm (a.units _), Bool.and_comm a.negative]

protected theorem multiply_comm : a.multiply c b = b.multiply c a := by
  have hsign : (a.negative != b.negative) = (b.negative != a.negative) := bne_comm
  rw [multiply, multiply, hsign, Nat.mul_comm, Int.add_comm]

protected theorem compare_swap : (a.compare b).swap = b.compare a := by
  rw [compare_eq, compare_eq, ← cmp_eq_compare, ← cmp_eq_compare, cmp_swap]

end Decimal

namespace BinaryOp

variable {op op' : BinaryOp}

/-- The operator that has the same result on exchanged operands. A quotient and a difference have
none. -/
def mirror? : BinaryOp → Option BinaryOp
  | multiply => some multiply
  | add => some add
  | atLeast => some atMost
  | atMost => some atLeast
  | less => some greater
  | greater => some less
  | both => some both
  | either => some either
  | equal => some equal
  | differ => some differ
  | divide => none
  | subtract => none

theorem mirror?_symm (h : op.mirror? = some op') : op'.mirror? = some op := by
  cases op <;> cases h <;> rfl

/-- An operator has the same result as its mirror image on exchanged operands. -/
theorem apply_of_mirror? (h : op.mirror? = some op') (c : Context) (a b : Decimal) :
    op'.apply c b a = op.apply c a b := by
  have hswap := Decimal.compare_swap a b
  cases op with
  | multiply =>
    cases h
    exact Decimal.multiply_comm c b a
  | add =>
    cases h
    exact Decimal.add_comm c b a
  | both =>
    cases h
    exact congrArg (fun t => Except.ok (truth t)) (Bool.and_comm ..)
  | either =>
    cases h
    exact congrArg (fun t => Except.ok (truth t)) (Bool.or_comm ..)
  | divide => cases h
  | subtract => cases h
  | _ =>
    cases h
    simp only [apply, ← hswap]
    cases a.compare b <;> rfl

end BinaryOp

namespace Machine

variable {c : Context} {op op' : BinaryOp}

/-- The operands of an operator that yields a text are numbers. -/
theorem exists_operands_of_combine {left right t : Text} (h : combine c op left right = .ok t) :
    ∃ a b, ofLiteral? left = some a ∧ ofLiteral? right = some b := by
  unfold combine at h
  split at h
  · rename_i a b ha hb
    exact ⟨a, b, ha, hb⟩
  · cases h

/-- What an operator yields, its mirror image yields on exchanged operands. -/
theorem combine_of_mirror? (h : op.mirror? = some op') {left right t : Text}
    (ht : combine c op left right = .ok t) : combine c op' right left = .ok t := by
  obtain ⟨a, b, ha, hb⟩ := exists_operands_of_combine ht
  have hdiv : op' ≠ .divide := by
    rintro rfl
    cases BinaryOp.mirror?_symm h
  rw [combine_eq_map_operate ha hb] at ht
  obtain ⟨r, hr, rfl⟩ := map_eq_ok.mp ht
  obtain ⟨-, hr⟩ := operate_eq_ok.mp hr
  rw [← BinaryOp.apply_of_mirror? h] at hr
  rw [combine_eq_map_operate hb ha, operate_eq_ok.mpr ⟨fun hz => hdiv hz.1, hr⟩]
  rfl

end Machine

/-! ## Expressions -/

namespace Expression

/-- The second expression is the first one with the operands exchanged at some of its operators,
and these operators turned around. -/
inductive Mirrors : Expression → Expression → Prop where
  | leaf (l : Text) : Mirrors (leaf l) (leaf l)
  | negation {x x' : Expression} : Mirrors x x' → Mirrors (negation x) (negation x')
  | kept (op : BinaryOp) {x x' y y' : Expression} :
      Mirrors x x' → Mirrors y y' → Mirrors (binary op x y) (binary op x' y')
  | exchanged {op op' : BinaryOp} {x x' y y' : Expression} (mirror : op.mirror? = some op') :
      Mirrors x x' → Mirrors y y' → Mirrors (binary op x y) (binary op' y' x')

namespace Mirrors

variable {e e' : Expression}

theorem symm (h : Mirrors e e') : Mirrors e' e := by
  induction h with
  | leaf l => exact .leaf l
  | negation _ ih => exact ih.negation
  | kept op _ _ ihx ihy => exact ihx.kept op ihy
  | exchanged hop _ _ ihx ihy => exact ihy.exchanged (BinaryOp.mirror?_symm hop) ihx

/-- The leaves are the same, in another order. -/
theorem leaves_perm (h : Mirrors e e') : e.leaves.Perm e'.leaves := by
  induction h with
  | leaf l => exact .refl _
  | negation _ ih => exact ih
  | kept op _ _ ihx ihy => exact ihx.append ihy
  | exchanged _ _ _ ihx ihy => exact (ihx.append ihy).trans List.perm_append_comm

end Mirrors

variable {c : Context} {e e' : Expression}

/-- What an expression yields, a mirrored one yields as well. -/
theorem evaluate_of_mirrors (h : Mirrors e e') {t : Text} (ht : e.evaluate c = .ok t) :
    e'.evaluate c = .ok t := by
  induction h generalizing t with
  | leaf l => exact ht
  | negation _ ih =>
    obtain ⟨u, hu, ht⟩ := bind_eq_ok.mp ht
    rw [evaluate, ih hu]
    exact ht
  | kept op _ _ ihx ihy =>
    obtain ⟨left, hleft, ht⟩ := bind_eq_ok.mp ht
    obtain ⟨right, hright, ht⟩ := bind_eq_ok.mp ht
    rw [evaluate, ihx hleft, ihy hright]
    exact ht
  | exchanged hop _ _ ihx ihy =>
    obtain ⟨left, hleft, ht⟩ := bind_eq_ok.mp ht
    obtain ⟨right, hright, ht⟩ := bind_eq_ok.mp ht
    rw [evaluate, ihy hright, ihx hleft]
    exact Machine.combine_of_mirror? hop ht

/-- **The order of the operands of symmetric operators does not matter.** At any precision that
settings may ask for, the operands may be exchanged at any of the operators of an expression of
literals that are sums, products, connectives, comparisons or tests for equality, where the
comparisons of order are turned around: on the post-order of the tree, the machine yields a number
exactly if it does on that of the first tree, and it is the same number. -/
theorem run_of_mirrors (hc : c.precision ≤ 999) (h : Mirrors e e')
    (hl : ∀ l ∈ e.leaves, isLiteral l = true) (a : Decimal) :
    Machine.run c.precision e.toTree.postOrder = .ok a ↔
      Machine.run c.precision e'.toTree.postOrder = .ok a := by
  have hmax : c.precision ≤ Context.maxPrecision := hc.trans (by decide)
  have hl' : ∀ l ∈ e'.leaves, isLiteral l = true := by
    intro l hmem
    exact hl l (h.leaves_perm.mem_iff.mpr hmem)
  rw [Machine.run_of_literals hmax hl, Machine.run_of_literals hmax hl', bind_eq_ok, bind_eq_ok]
  constructor
  · rintro ⟨t, ht, ha⟩
    exact ⟨t, evaluate_of_mirrors h ht, ha⟩
  · rintro ⟨t, ht, ha⟩
    exact ⟨t, evaluate_of_mirrors h.symm ht, ha⟩

/-- A comparison that is turned around under a negation, and a product below a quotient that is
kept. -/
theorem run_of_mirrors_nested :
    let e : Expression := .binary .add
      (.negation (.binary .atMost (.leaf ['.', '5']) (.leaf ['2'])))
      (.binary .divide (.leaf ['1']) (.binary .multiply (.leaf ['3']) (.leaf ['-', '4'])))
    let e' : Expression := .binary .add
      (.binary .divide (.leaf ['1']) (.binary .multiply (.leaf ['-', '4']) (.leaf ['3'])))
      (.negation (.binary .atLeast (.leaf ['2']) (.leaf ['.', '5'])))
    let a : Decimal := ⟨true, 11, -1⟩
    (Mirrors e e' ∧ (∀ l ∈ e.leaves, isLiteral l = true) ∧
      Machine.run 2 e.toTree.postOrder = .ok a) ∧
      (Machine.run 2 e.toTree.postOrder = .ok a ↔ Machine.run 2 e'.toTree.postOrder = .ok a) := by
  intro e e' a
  have hcompared : Mirrors (.binary .atMost (.leaf ['.', '5']) (.leaf ['2']))
      (.binary .atLeast (.leaf ['2']) (.leaf ['.', '5'])) := .exchanged rfl (.leaf _) (.leaf _)
  have hproduct : Mirrors (.binary .multiply (.leaf ['3']) (.leaf ['-', '4']))
      (.binary .multiply (.leaf ['-', '4']) (.leaf ['3'])) := .exchanged rfl (.leaf _) (.leaf _)
  have h : Mirrors e e' := .exchanged rfl hcompared.negation (.kept _ (.leaf _) hproduct)
  have hl : ∀ l ∈ e.leaves, isLiteral l = true := by decide
  have htokens : e.toTree.postOrder = [['.', '5'], ['2'], ['\\'], Tree.negationLabel, ['1'], ['3'],
    ['-', '4'], ['*'], ['/'], ['+']] := e.postOrder_toTree
  have hrun : Machine.run 2 e.toTree.postOrder = .ok a := by
    rw [htokens]
    decide
  exact ⟨⟨h, hl, hrun⟩, run_of_mirrors (c := ⟨2, by decide⟩) (by decide) h hl a⟩

end Expression

end Reckon

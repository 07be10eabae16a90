import Reckon.Proofs.Decimal.Magnitude
import Reckon.Proofs.Machine.Operation

/-!
# Runs on moderate input

Every text on the stack is made of a part of the tokens that have been read. The bounds of its
number add up to at most the precision for every character of that part: a literal brings a digit
for every character, and an operator adds its operands' bounds and at most one precision. So a
result can only leave the range of the exponents if the characters times the precision do.

## Main definitions

* `Machine.extent`: the number of characters of a sequence of tokens
* `Machine.Bounded`: the texts on a stack are bounded by the characters they are made of

## Main results

* `bounded_step`, `bounded_foldlM`: the bounds are kept by a token, and by a run
* `moderate_of_performs`: the exact value of an operation is moderate
* `exists_ok_of_evaluate`: the operator at the root of an expression of moderate size has a result
-/

namespace Reckon

open Decimal

namespace Machine

/-- The number of characters of a sequence of tokens. -/
def extent (tokens : List Text) : Nat := (tokens.map List.length).sum

theorem extent_append (tokens tokens' : List Text) :
    extent (tokens ++ tokens') = extent tokens + extent tokens' := by
  simp [extent]

theorem extent_cons (token : Text) (tokens : List Text) :
    extent (token :: tokens) = token.length + extent tokens := by
  simp [extent]

/-- The texts on a stack are made of `n` characters, and the bounds of the number of each add up to
at most `p` for every character that it is made of. -/
inductive Bounded (p : Nat) : Nat → List Text → Prop where
  | nil : Bounded p 0 []
  | cons {m n u g : Nat} {t : Text} {a : Decimal} {stack : List Text} (read : ofLiteral? t = some a)
      (within : Within u g a.toRat) (le : u + g ≤ p * m) (rest : Bounded p n stack) :
      Bounded p (m + n) (t :: stack)

variable {c : Context} {n : Nat} {stack : List Text}

theorem Bounded.cons_plain {p m u g : Nat} {r : Decimal} (h : Within u g r.toRat)
    (hle : u + g ≤ p * m) (hs : Bounded p n stack) : Bounded p (m + n) (r.plain :: stack) :=
  .cons (ofLiteral?_plain r) (by rwa [toRat_settled]) hle hs

theorem Bounded.literal {token : Text} (hl : isLiteral token = true)
    (h : Bounded c.precision n stack) :
    Bounded c.precision (token.length + n) (token :: stack) := by
  obtain ⟨a, ha⟩ := Option.isSome_iff_exists.mp hl
  obtain ⟨u, g, hle, hw⟩ := exists_within_of_ofLiteral? ha
  exact .cons ha hw (hle.trans (Nat.le_mul_of_pos_left _ c.precision_pos)) h

/-- The bounds of the operand on top of the stack. -/
theorem Bounded.exists_within {p : Nat} {operand : Text} {a : Decimal}
    (h : Bounded p n (operand :: stack)) (ha : ofLiteral? operand = some a) :
    ∃ m k u g, n = m + k ∧ u + g ≤ p * m ∧ Within u g a.toRat ∧ Bounded p k stack := by
  cases h with
  | @cons m k u g _ b _ read within le rest =>
    obtain rfl : a = b := Option.some.inj (ha.symm.trans read)
    exact ⟨m, k, u, g, rfl, le, within, rest⟩

/-- The bounds of what a binary operator on top of the stack makes of its operands. -/
theorem Bounded.exists_exact {op : BinaryOp} {left right : Text} {a b : Decimal}
    (h : Bounded c.precision n (right :: left :: stack)) (hl : ofLiteral? left = some a)
    (hr : ofLiteral? right = some b) (hz : ¬ (op = .divide ∧ b.isZero = true)) :
    ∃ m k v l, n + 1 = m + k ∧ v + l ≤ c.precision * m ∧ Moderate v l (op.exact a.toRat b.toRat) ∧
      Within v l (c.nearest (op.exact a.toRat b.toRat)) ∧ Bounded c.precision k stack := by
  obtain ⟨mr, k, ur, gr, rfl, hler, hwr, h⟩ := h.exists_within hr
  obtain ⟨ml, k, ul, gl, rfl, hlel, hwl, h⟩ := h.exists_within hl
  have hne : op = .divide → b.toRat ≠ 0 := fun hop hb =>
    hz ⟨hop, by rw [isZero_eq_decide, hb, decide_eq_true rfl]⟩
  obtain ⟨v, l, hle, hm, hw⟩ := exists_within_exact c op hwl hwr hne
  refine ⟨ml + mr + 1, k, v, l, by omega, ?_, hm, hw, h⟩
  rw [Nat.mul_add, Nat.mul_add, Nat.mul_one]
  omega

/-- A token keeps the bounds. -/
theorem bounded_step {token : Text} {stack' : List Text} (h : Bounded c.precision n stack)
    (hs : step c stack token = .ok stack') :
    Bounded c.precision (n + token.length) stack' := by
  have hrule := rule_step (c := c) stack token
  generalize step c stack token = outcome at hs hrule
  cases hrule with
  | push operator literal =>
    cases hs
    rw [Nat.add_comm]
    exact h.literal literal
  | unrecognized | missing | unreadable => cases hs
  | negation read =>
    obtain ⟨r, hr, rfl⟩ := map_eq_ok.mp hs
    obtain ⟨m, k, u, g, rfl, hle, hw, h⟩ := h.exists_within read
    have hr := (hw.neg).nearest c
    rw [← toRat_of_negate (opposite_eq_ok.mp ‹_›)] at hr
    rw [Nat.add_right_comm]
    exact .cons_plain hr (hle.trans (Nat.mul_le_mul_left _ (Nat.le_add_right _ _))) h
  | binary readLeft readRight =>
    obtain ⟨r, hr, rfl⟩ := map_eq_ok.mp hs
    obtain ⟨hz, hr⟩ := operate_eq_ok.mp hr
    obtain ⟨m, k, v, l, hn, hle, -, hw, h⟩ := h.exists_exact readLeft readRight hz
    rw [← BinaryOp.toRat_of_apply hz hr] at hw
    rw [List.length_singleton, hn]
    exact .cons_plain hw hle h

/-- A run keeps the bounds. -/
theorem bounded_foldlM {tokens : List Text} (h : tokens.foldlM (step c) [] = .ok stack) :
    Bounded c.precision (extent tokens) stack := by
  refine holds_foldlM (P := fun tokens stack => Bounded c.precision (extent tokens) stack) .nil ?_ h
  intro before stack token stack' hb hs
  rw [extent_append]
  exact bounded_step hb hs

theorem Reaches.bounded {tokens : List Text} {token : Text} (h : Reaches c tokens stack token) :
    ∃ n, Bounded c.precision n stack ∧ n + token.length ≤ extent tokens := by
  obtain ⟨before, after, rfl, hs⟩ := h
  refine ⟨extent before, bounded_foldlM hs, ?_⟩
  rw [extent_append, extent_cons]
  omega

/-- The exact value of an operation is bounded by the characters of the run. -/
theorem moderate_of_performs {tokens : List Text} {x : ℚ} {o : Except Signal Decimal}
    (h : Performs c tokens x o) :
    ∃ v l, v + l ≤ c.precision * extent tokens ∧ Moderate v l x := by
  have hmono {m k n : Nat} (h : m + k ≤ n) : c.precision * m ≤ c.precision * n :=
    Nat.mul_le_mul_left _ (by omega)
  cases h with
  | negation reaches read =>
    obtain ⟨n, hb, hn⟩ := reaches.bounded
    obtain ⟨m, k, u, g, rfl, hle, hw, -⟩ := hb.exists_within read
    exact ⟨u, g, hle.trans (hmono (k := k) (by omega)), hw.neg.moderate⟩
  | binary reaches readLeft readRight defined =>
    obtain ⟨n, hb, hn⟩ := reaches.bounded
    obtain ⟨m, k, v, l, hk, hle, hm, -⟩ := hb.exists_exact readLeft readRight defined
    rw [List.length_singleton, hk] at hn
    exact ⟨v, l, hle.trans (hmono hn), hm⟩

/-- Where the characters times the precision are in the range of the exponents, every operation has
a result, which is neither subnormal nor zero by rounding. -/
theorem exists_ok_of_performs {tokens : List Text} (hn : extent tokens * c.precision ≤ 999999)
    {x : ℚ} {o : Except Signal Decimal} (h : Performs c tokens x o) :
    ¬ Context.Subnormal x ∧
      ∃ r, o = .ok r ∧ ¬ Context.Subnormal r.toRat ∧ (x ≠ 0 → r.toRat ≠ 0) := by
  obtain ⟨v, l, hle, hm⟩ := moderate_of_performs h
  rw [Nat.mul_comm] at hle
  have hl : l ≤ 999999 := by omega
  obtain ⟨r, rfl, hv⟩ := map_eq_ok.mp (h.map_toRat.trans (hm.rounded_eq_ok c (by omega)))
  exact ⟨hm.not_subnormal hl, r, rfl, hv ▸ (hm.nearest c hl).not_subnormal hl,
    hv ▸ hm.nearest_ne_zero c hl⟩

/-- In an expression whose characters times the precision are in that range, the operator at the
root has a result, and does not round to zero what is not zero. -/
theorem exists_ok_of_evaluate {op : BinaryOp} {x y : Expression} {left right : Text} {a b : Decimal}
    (hop : ∀ l ∈ (Expression.binary op x y).leaves, Operator.ofText? l = none)
    (hx : x.evaluate c = .ok left) (hy : y.evaluate c = .ok right)
    (hl : ofLiteral? left = some a) (hr : ofLiteral? right = some b)
    (hz : ¬ (op = .divide ∧ b.isZero = true))
    (hn : extent (Expression.binary op x y).postOrder * c.precision ≤ 999999) :
    ∃ r : Decimal, (Expression.binary op x y).evaluate c = .ok r.plain ∧
      r.toRat = c.nearest (op.exact a.toRat b.toRat) ∧
      (op.exact a.toRat b.toRat ≠ 0 → r.toRat ≠ 0) := by
  have hreaches : Reaches c (Expression.binary op x y).postOrder [right, left] [op.symbol] := by
    refine ⟨x.postOrder ++ y.postOrder, [], ?_, ?_⟩
    · rw [Expression.postOrder, List.append_assoc]
    · rw [List.foldlM_append, foldlM_postOrder c x fun l h => hop l (List.mem_append_left _ h), hx]
      show y.postOrder.foldlM (step c) [left] = _
      rw [foldlM_postOrder c y fun l h => hop l (List.mem_append_right _ h), hy]
      rfl
  obtain ⟨-, r, happly, -, hne⟩ := exists_ok_of_performs hn (.binary hreaches hl hr hz)
  refine ⟨r, ?_, BinaryOp.toRat_of_apply hz happly, hne⟩
  rw [evaluate_binary hx hy hl hr, operate_eq_ok.mpr ⟨hz, happly⟩]
  rfl

/-- A run on moderate input is only stopped by the formula. -/
theorem failure_of_run (hc : c.precision ≤ Context.maxPrecision) {tokens : List Text}
    (hn : extent tokens * c.precision ≤ 999999) {s : Stop}
    (h : run c.precision tokens = .error s) :
    ∃ f, s = .failure f ∧ ∀ signal, f.cause ≠ .arithmetic signal := by
  rcases stops_of_run hc h with ⟨stack, token, hr, hs⟩ | ⟨cause, rfl, hcause⟩
  · cases hs with
    | formula not_arithmetic => exact ⟨_, rfl, not_arithmetic⟩
    | negation read overflows =>
      obtain ⟨-, r, hr, -⟩ := exists_ok_of_performs hn (.negation hr read)
      cases overflows.symm.trans hr
    | binary readLeft readRight defined overflows =>
      obtain ⟨-, r, hr, -⟩ := exists_ok_of_performs hn (.binary hr readLeft readRight defined)
      cases overflows.symm.trans hr
  · exact ⟨_, rfl, hcause⟩

end Machine

end Reckon

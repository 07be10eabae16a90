import Reckon.Proofs.Expression.Growth
import Reckon.Proofs.Machine.Refinement

/-!
# What a run that succeeds says of its tree

The tokens of a grown tree leave one more text on the stack than there was, and another one for
every character of the negation that stands between two operands. So a run can only end with a
single text if the tree is an expression, and it only gets there if all leaves are literals.

## Main definitions

* `Tree.excess`: the number of negations with two operands

## Main results

* `length_of_foldlM`: the height of the stack after a run
* `foldlM_of_run_eq_ok`: a run that succeeds leaves one text
* `exists_expression_of_run`: a grown tree on which the machine succeeds is an expression whose
  leaves are literals without a sign
-/

namespace Reckon

open Decimal Split

namespace Tree

/-- The number of nodes that are labelled as negations and have two operands. -/
def excess : Tree → Nat
  | leaf _ => 0
  | unary _ r => r.excess
  | leftOnly _ l => l.excess
  | binary s l r => l.excess + r.excess + if s = negationLabel then 1 else 0

/-- A label that offers nothing is no operator. -/
theorem ofText?_of_whole {l : Text} (h : ∀ i rank, ¬ Offers l i rank) :
    Operator.ofText? l = none := by
  match l with
  | [] => rfl
  | _ :: _ :: _ => rfl
  | [c] =>
    rw [Operator.ofText?, Option.eq_none_iff_forall_ne_some]
    intro o ho
    obtain ⟨n, hn⟩ := Option.isSome_iff_exists.mp ((isSome_rank? none c).trans (by rw [ho]; rfl))
    refine h 0 n ⟨[], c, [], rfl, rfl, ?_, hn⟩
    rw [Nesting.depthAfter_cons, Nesting.deepen_of_not_isBracket (isBracket_of_rank? hn)]
    rfl

/-- A literal that offers nothing has no sign. -/
theorem unsigned_of_whole {l : Text} (hl : isLiteral l = true) (h : ∀ i rank, ¬ Offers l i rank) :
    Unsigned l := by
  rcases unsigned_or_signed hl with hu | ⟨u, hu, hs⟩
  · exact hu
  -- a sign in front would be offered
  · have hd : Nesting.depthAfter 0 u = 0 := Sentence.literal hu |>.balanced |>
      Nesting.depthAfter_of_balanced
    have hoffer (c : Char) (n : Nat) (hn : rank? none c = some n) : Offers (c :: u) 0 n := by
      refine ⟨[], c, u, rfl, rfl, ?_, hn⟩
      rw [Nesting.depthAfter_cons, Nesting.deepen_of_not_isBracket (isBracket_of_rank? hn), hd]
      rfl
    rcases hs with rfl | rfl
    · exact absurd (hoffer '+' _ rfl) (h _ _)
    · exact absurd (hoffer '-' _ rfl) (h _ _)

/-- A binary operator is not labelled as a negation. -/
theorem label_ne_negationLabel (op : BinaryOp) : [op.symbol] ≠ negationLabel := fun h =>
  op.negationSymbol_ne_symbol (List.singleton_inj.mp h).symm

/-- The trees of expressions have no negations of two operands. -/
theorem excess_toTree (e : Expression) : e.toTree.excess = 0 := by
  induction e with
  | leaf l => rfl
  | negation x ih => exact ih
  | binary op x y ihx ihy =>
    rw [Expression.toTree, excess, ihx, ihy, if_neg (label_ne_negationLabel op)]

/-- No leaf of a grown tree is an operator. -/
theorem Grown.ofText?_of_mem_leaves {t : Tree} (h : Grown t) {l : Text} (hl : l ∈ t.leaves) :
    Operator.ofText? l = none := by
  induction h with
  | leaf _ whole =>
    obtain rfl := List.mem_singleton.mp hl
    exact ofText?_of_whole whole
  | negation _ ih => exact ih hl
  | binary _ _ _ ihl ihr => exact (List.mem_append.mp hl).elim ihl ihr

/-- A grown tree without negations of two operands is an expression. -/
theorem Grown.exists_expression {t : Tree} (h : Grown t) (he : t.excess = 0) :
    ∃ e : Expression, t = e.toTree := by
  induction h with
  | @leaf l _ _ => exact ⟨.leaf l, rfl⟩
  | negation _ ih =>
    obtain ⟨e, rfl⟩ := ih he
    exact ⟨.negation e, rfl⟩
  | binary o _ _ ihl ihr =>
    rw [excess] at he
    obtain ⟨x, rfl⟩ := ihl (by omega)
    obtain ⟨y, rfl⟩ := ihr (by omega)
    cases o with
    | binary op => exact ⟨.binary op x y, rfl⟩
    | negation => simp [Operator.symbol, negationLabel] at he

end Tree

namespace Machine

variable {c : Context}

theorem length_of_step_negation {stack stack' : List Text}
    (h : step c stack Tree.negationLabel = .ok stack') : stack'.length = stack.length := by
  cases stack with
  | nil => cases h
  | cons t stack =>
    obtain ⟨u, -, rfl⟩ := map_eq_ok.mp h
    rfl

theorem length_of_step_binary {op : BinaryOp} {stack stack' : List Text}
    (h : step c stack [op.symbol] = .ok stack') : stack'.length + 1 = stack.length := by
  match stack with
  | [] => simp [step, ofText?_symbol, fail] at h
  | [t] => simp [step, ofText?_symbol, fail] at h
  | right :: left :: stack =>
    rw [step_binary] at h
    obtain ⟨u, -, rfl⟩ := map_eq_ok.mp h
    rfl

/-- The tokens of a grown tree leave one more text on the stack, and another one for every negation
of two operands; if they do, all leaves are literals without a sign. -/
theorem length_of_foldlM {t : Tree} (ht : t.Grown) {stack stack' : List Text}
    (h : t.labels.foldlM (step c) stack = .ok stack') :
    stack'.length = stack.length + 1 + t.excess ∧ ∀ l ∈ t.leaves, Unsigned l := by
  induction ht generalizing stack stack' with
  | @leaf l hne hw =>
    rw [Tree.labels, List.foldlM_cons, step_leaf c (Tree.ofText?_of_whole hw)] at h
    split at h
    · rename_i hl
      cases h
      exact ⟨rfl, by simpa [Tree.leaves] using Tree.unsigned_of_whole hl hw⟩
    · cases h
  | @negation t _ ih =>
    rw [Tree.labels, List.foldlM_append] at h
    obtain ⟨s, hs, h⟩ := bind_eq_ok.mp h
    rw [foldlM_singleton] at h
    obtain ⟨hlen, hleaves⟩ := ih hs
    exact ⟨by rw [length_of_step_negation h, hlen, Tree.excess], hleaves⟩
  | @binary o l r _ _ ihl ihr =>
    rw [Tree.labels, List.foldlM_append] at h
    obtain ⟨s, hs, h⟩ := bind_eq_ok.mp h
    rw [List.foldlM_append] at h
    obtain ⟨s', hs', h⟩ := bind_eq_ok.mp h
    rw [foldlM_singleton] at h
    -- Each operand adds a text; a binary operator takes one away, the negation none.
    obtain ⟨hlen, hleaves⟩ := ihl hs
    obtain ⟨hlen', hleaves'⟩ := ihr hs'
    constructor
    · cases o with
      | binary op =>
        have hop : [(Operator.binary op).symbol] ≠ Tree.negationLabel :=
          Tree.label_ne_negationLabel op
        have := length_of_step_binary h
        rw [Tree.excess, if_neg hop]
        omega
      | negation =>
        have hop : [Operator.negation.symbol] = Tree.negationLabel := rfl
        have := length_of_step_negation h
        rw [Tree.excess, if_pos hop]
        omega
    · intro l hl
      rcases List.mem_append.mp hl with hl | hl
      · exact hleaves l hl
      · exact hleaves' l hl

/-- A run with a result leaves one text. -/
theorem foldlM_of_run_eq_ok {tokens : List Text} {precision : Int} {a : Decimal}
    (h : run precision tokens = .ok a) :
    ∃ c text, tokens.foldlM (step c) [] = .ok [text] := by
  unfold run at h
  split at h
  · rename_i c _
    obtain ⟨stack, hs, hr⟩ := bind_eq_ok.mp h
    unfold result at hr
    split at hr
    · exact ⟨c, _, hs⟩
    · cases hr
  · cases h

/-- A grown tree on which the machine succeeds is an expression whose leaves are literals without a
sign. -/
theorem exists_expression_of_run {t : Tree} (ht : t.Grown) {precision : Int} {a : Decimal}
    (h : run precision t.postOrder = .ok a) :
    ∃ e : Expression, t = e.toTree ∧ ∀ l ∈ e.leaves, Unsigned l := by
  obtain ⟨c, text, hs⟩ := foldlM_of_run_eq_ok h
  rw [Tree.postOrder_eq] at hs
  obtain ⟨hlen, hleaves⟩ := length_of_foldlM ht hs
  rw [List.length_singleton, List.length_nil] at hlen
  -- one text is left, so no negation has two operands
  obtain ⟨e, rfl⟩ := ht.exists_expression (by omega)
  exact ⟨e, rfl, fun l hl => hleaves l (by rwa [Expression.leaves_toTree])⟩

end Machine

end Reckon

import Mathlib
import Reckon.Proofs.Calculator.Value
import Reckon.Proofs.Folding
import Reckon.Proofs.Machine.Operation

/-!
# The formulas that have a value

The calculator has no grammar, and yet the formulas that it calculates are those that are folded
into a sentence; beyond them only a literal with a plus has a value. The calculation of a sentence
can only be stopped by its numbers: by a division by zero or by an overflow.

## Main definitions

* `Calculator.Numeric f s`: `s` is a stop that is due to the numbers in the formula `f`

## Main results

* `numeric_of_sentence`: what may stop a sentence
* `language`: the formulas that grow into trees of literals, and those that have a value
-/

namespace Reckon

open Decimal Nesting

namespace Calculator

/-- The stops that are due to the numbers in a formula: a division by zero, a result that cannot be
represented, or a negation that cannot. -/
inductive Numeric (formula : Text) : Stop → Prop where
  | division : Numeric formula
      (.failure ⟨.divisionByZero, formula, some [BinaryOp.divide.symbol]⟩)
  | overflow (op : BinaryOp) : Numeric formula
      (.failure ⟨.arithmetic .overflow, formula, some [op.symbol]⟩)
  | fault : Numeric formula (.fault (.signal .overflow))

theorem Numeric.placed {s : Stop} (h : Numeric [] s) (formula : Text) :
    Numeric formula (placed formula s) := by
  cases h with
  | division => exact .division
  | overflow op => exact .overflow op
  | fault => exact .fault

/-! ## Evaluating an expression of literals -/

variable {c : Context}

theorem numeric_negated {operand : Text} (h : isLiteral operand = true) {s : Stop}
    (hs : Machine.negated c operand = .error s) : Numeric [] s := by
  obtain ⟨a, ha⟩ := Option.isSome_iff_exists.mp h
  rw [Machine.negated_eq_map_opposite ha] at hs
  obtain ⟨-, rfl⟩ := Machine.opposite_eq_error (map_eq_error.mp hs)
  exact .fault

theorem numeric_combine {op : BinaryOp} {left right : Text} (hl : isLiteral left = true)
    (hr : isLiteral right = true) {s : Stop} (hs : Machine.combine c op left right = .error s) :
    Numeric [] s := by
  obtain ⟨a, ha⟩ := Option.isSome_iff_exists.mp hl
  obtain ⟨b, hb⟩ := Option.isSome_iff_exists.mp hr
  rw [Machine.combine_eq_map_operate ha hb] at hs
  rcases Machine.operate_eq_error (map_eq_error.mp hs) with ⟨rfl, rfl⟩ | ⟨-, -, rfl⟩
  · exact .division
  · exact .overflow op

/-- An expression of literals is only stopped by its numbers. -/
theorem numeric_evaluate {e : Expression} (he : ∀ l ∈ e.leaves, isLiteral l = true) {s : Stop}
    (hs : e.evaluate c = .error s) : Numeric [] s := by
  induction e generalizing s with
  | leaf l =>
    rw [Expression.evaluate, if_pos (he l (List.mem_singleton_self l))] at hs
    cases hs
  | negation x ih =>
    rcases bind_eq_error.mp hs with hx | ⟨t, ht, hs⟩
    · exact ih he hx
    · exact numeric_negated (Machine.isLiteral_evaluate c ht) hs
  | binary op x y ihx ihy =>
    rcases bind_eq_error.mp hs with hx | ⟨l, hl, hs⟩
    · exact ihx (fun l hl => he l (List.mem_append_left _ hl)) hx
    · rcases bind_eq_error.mp hs with hy | ⟨r, hr, hs⟩
      · exact ihy (fun l hl => he l (List.mem_append_right _ hl)) hy
      · exact numeric_combine (Machine.isLiteral_evaluate c hl) (Machine.isLiteral_evaluate c hr) hs

/-- The calculation of an expression of literals is only stopped by its numbers. -/
theorem numeric_ofTree {e : Expression} (he : ∀ l ∈ e.leaves, Unsigned l)
    (hc : c.precision ≤ Context.maxPrecision) {s : Stop}
    (h : ofTree c.precision e.toTree = .error s) : Numeric [] s := by
  by_cases hleaf : ∃ l, e = .leaf l
  · obtain ⟨l, rfl⟩ := hleaf
    obtain ⟨a, -, hv⟩ := exists_ofTree_leaf c.precision (he l (List.mem_singleton_self l)).1
    rw [Expression.toTree, hv] at h
    cases h
  · rw [ofTree_toTree hc (fun l hl => hleaf ⟨l, hl⟩)
      fun l hl => (he l hl).ofText?_eq_none] at h
    exact numeric_evaluate (fun l hl => (he l hl).1) h

/-! ## The language -/

/-- A formula with a value is folded into a sentence, or is a literal with a plus. -/
theorem sentence_of_detailed {precision : Int} {f v : Text} (h : detailed precision f = .ok v) :
    Sentence (Surface.fold f) ∨ ∃ u, Brackets.normalize f = '+' :: u ∧ Unsigned u := by
  unfold detailed at h
  split at h
  · rename_i hb
    rw [← Surface.balanced_fold] at hb
    split at h
    · rename_i t ht
      rw [Tree.ofFormula_eq_ofPiece] at ht
      obtain ⟨e, rfl, he⟩ := exists_expression_of_ofTree (Tree.grown_of_ofPiece _ ht)
        (mapError_eq_ok.mp h)
      exact .inl (Tree.sentence_of_ofPiece hb ht he)
    · have hl : isLiteral (Brackets.normalize f) = true := by
        rw [isLiteral]
        rw [canonical?] at h
        cases hn : ofLiteral? (Brackets.normalize f) with
        | none => simp [hn] at h
        | some a => rfl
      -- Nothing grows, so the value is that of a literal, which may have a sign.
      rcases unsigned_or_signed hl with hu | ⟨u, hu, hs | hs⟩
      · exact .inl (Sentence.of_strip (.literal hu))
      · exact .inr ⟨u, hs, hu⟩
      · refine .inl (Sentence.of_strip ?_)
        show Sentence (Brackets.normalize f)
        rw [hs]
        exact (Sentence.literal hu).negation
  · cases h

/-- The calculation of a sentence is only stopped by its numbers. -/
theorem numeric_of_sentence {f : Text} (hf : Sentence (Surface.fold f))
    (hc : c.precision ≤ Context.maxPrecision) {s : Stop}
    (h : detailed c.precision f = .error s) : Numeric f s := by
  obtain ⟨e, he, ht⟩ := hf.exists_ofPiece
  have hb := hf.balanced
  rw [Surface.balanced_fold] at hb
  rw [detailed, if_pos hb, Tree.ofFormula_eq_ofPiece, ht] at h
  obtain ⟨s', hs', rfl⟩ := mapError_eq_error.mp h
  exact (numeric_ofTree he hc hs').placed f

/-- **The language of the calculator.** The formulas that are balanced and grow into a tree whose
leaves are literals without a sign, and in which the character of the negation does not occur, are
those that are folded into a sentence. At the precisions that settings may ask for, only they and
the literals with a plus have a value, and they are only stopped by their numbers. -/
theorem language (f : Text) :
    ((balanced f = true ∧
        (∃ t, Tree.ofFormula f = .ok t ∧ ∀ l ∈ t.leaves, Unsigned l) ∧
          Operator.negationSymbol ∉ Surface.fold f) ↔ Sentence (Surface.fold f)) ∧
      ∀ precision : Int, 1 ≤ precision → precision ≤ 999 →
        (∀ v, detailed precision f = .ok v →
          Sentence (Surface.fold f) ∨ ∃ u, Brackets.normalize f = '+' :: u ∧ Unsigned u) ∧
        (Sentence (Surface.fold f) → ∀ s, detailed precision f = .error s → Numeric f s) := by
  refine ⟨⟨?_, fun hf => ?_⟩, fun precision h1 h999 => ⟨fun v => sentence_of_detailed, ?_⟩⟩
  · rintro ⟨hb, ⟨t, ht, hl⟩, hn⟩
    rw [Tree.ofFormula_eq_ofPiece] at ht
    obtain ⟨e, rfl⟩ := Tree.exists_expression ht hn
    rw [Expression.leaves_toTree] at hl
    exact Tree.sentence_of_ofPiece (by rwa [Surface.balanced_fold]) ht hl
  · obtain ⟨e, he, ht⟩ := hf.exists_ofPiece
    refine ⟨by rw [← Surface.balanced_fold, hf.balanced], ⟨e.toTree, ?_, ?_⟩,
      hf.negationSymbol_notMem⟩
    · rw [Tree.ofFormula_eq_ofPiece, ht]
    · rwa [Expression.leaves_toTree]
  · intro hf s hs
    obtain ⟨p, rfl⟩ := Int.eq_ofNat_of_zero_le (by omega : 0 ≤ precision)
    exact numeric_of_sentence (c := ⟨p, by omega⟩) hf
      (Nat.le_trans (by omega : p ≤ 999) (by decide)) hs

/-- A product of two digits and a literal with a plus have values; a quotient by zero is a sentence
that is stopped. -/
theorem language_three :
    let product := ['2', '*', '3']
    let signed := ['+', '5']
    let quotient := ['1', '/', '(', '2', '-', '2', ')']
    (Sentence (Surface.fold product) ∨
        ∃ u, Brackets.normalize product = '+' :: u ∧ Unsigned u) ∧
      (Sentence (Surface.fold signed) ∨ ∃ u, Brackets.normalize signed = '+' :: u ∧ Unsigned u) ∧
      Sentence (Surface.fold quotient) ∧
      Numeric quotient (.failure ⟨.divisionByZero, quotient, some ['/']⟩) := by
  intro product signed quotient
  have hvalue {f : Text} := fun v => ((language f).2 3 (by decide) (by decide)).1 v
  have hquotient : Sentence (Surface.fold quotient) := by
    let t : Tree := .binary ['/'] (.leaf ['1']) (.binary ['-'] (.leaf ['2']) (.leaf ['2']))
    have ht : Tree.ofFormula quotient = .ok t := by cbv
    exact (language quotient).1.mp ⟨by decide, ⟨t, ht, by decide⟩, by decide⟩
  refine ⟨hvalue ['6'] (by cbv), hvalue ['5'] (by cbv), hquotient, ?_⟩
  exact ((language quotient).2 3 (by decide) (by decide)).2 hquotient _ (by cbv)

end Calculator

end Reckon

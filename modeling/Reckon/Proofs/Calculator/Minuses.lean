import Mathlib.Algebra.Group.Even
import Mathlib.Logic.Function.Iterate
import Reckon.Proofs.Calculator.Literal

/-!
# Runs of minus signs

With blanks between them, the minus signs before a literal are negations of one another, and a
literal that fits is negated as often as there are signs. Adjacent minus signs are folded before
anything is cut: two are a plus, and a plus before a minus is taken away. That keeps the sign of up
to three of them. From four signs on more than one sign is left, nothing grows, and the formula is
not well formed.

## Main definitions

* `Surface.minuses gap k t`: a run of `k` minus signs before a text, each followed by `gap`

## Main results

* `answer_spaced_minuses`: a run with blanks counts every sign
* `answer_adjacent_minuses`: a run without blanks is not well formed from four signs on
* `answer_minuses`: both runs before a literal that fits
-/

namespace Reckon

open Brackets Decimal Nesting

namespace Surface

/-- A run of minus signs before a text, each of them followed by a gap. -/
def minuses (gap : Text) : Nat → Text → Text
  | 0, t => t
  | k + 1, t => '-' :: (gap ++ minuses gap k t)

/-- Without a gap, the signs are adjacent. -/
theorem minuses_nil (k : Nat) (t : Text) : minuses [] k t = List.replicate k '-' ++ t := by
  induction k with
  | zero => rfl
  | succ k ih => rw [minuses, List.nil_append, ih, List.replicate_succ, List.cons_append]

end Surface

open Surface

/-! ## Chains of negations -/

namespace Decimal

theorem involutive_opposite : Function.Involutive opposite := opposite_opposite

/-- An even number of negations keeps the sign, an odd one does not. -/
theorem iterate_opposite (a : Decimal) (k : Nat) :
    opposite^[k] a = if k % 2 = 0 then a else a.opposite := by
  split
  · rename_i h
    rw [involutive_opposite.iterate_even (Nat.even_iff.mpr h), id]
  · rename_i h
    rw [involutive_opposite.iterate_odd (Nat.odd_iff.mpr (by omega))]

theorem fits_iterate_opposite {c : Context} {a : Decimal} (h : c.Fits a) (k : Nat) :
    c.Fits (opposite^[k] a) := by
  rw [iterate_opposite]
  split
  · exact h
  · exact h.opposite

end Decimal

namespace Expression

variable {x : Text} {a : Decimal}

theorem leaves_negations (x : Text) (k : Nat) : (negation^[k] (leaf x)).leaves = [x] := by
  induction k with
  | zero => rfl
  | succ k ih => rw [Function.iterate_succ_apply', leaves, ih]

/-- A run with blanks writes a chain of negations. -/
theorem renders_minuses {b : Text} (hb : Blanks b) (hx : Unsigned x) (k : Nat) :
    Renders Operator.negationPriority (negation^[k] (leaf x)) (minuses b k x) := by
  induction k with
  | zero => exact .leaf hx
  | succ k ih =>
    rw [Function.iterate_succ_apply']
    exact .negation (Nat.le_refl _) hb ih

/-- A chain of negations of a literal that fits yields the literal with the sign of all of them. -/
theorem evaluate_negations {c : Context} (hx : Unsigned x) (ha : ofLiteral? x = some a)
    (hf : c.Fits a) (k : Nat) :
    (negation^[k + 1] (leaf x)).evaluate c = .ok (opposite^[k + 1] a).plain := by
  induction k with
  | zero =>
    have hread : ofLiteral? x = some a.settled := by rw [ha, (hx.settled ha).2]
    show ((leaf x).evaluate c).bind (Machine.negated c) = _
    rw [evaluate, if_pos hx.1]
    exact Machine.negated_of_fits hread hf
  | succ k ih =>
    rw [Function.iterate_succ_apply', evaluate, ih, Function.iterate_succ_apply' opposite (k + 1)]
    exact Machine.negated_of_fits (ofLiteral?_plain _) (fits_iterate_opposite hf (k + 1))

end Expression

namespace Calculator

variable {settings : Settings} {c : Context} {x : Text} {a : Decimal}

/-- The canonical text of a literal with the sign of a run. -/
theorem canonical?_signed (hx : Unsigned x) (ha : ofLiteral? x = some a) (k : Nat) :
    canonical? (if k % 2 = 0 then x else '-' :: x) = some (opposite^[k] a).plain := by
  rw [iterate_opposite]
  split
  · rw [canonical?, ha]
    rfl
  · rw [canonical?, ofLiteral?_minus hx, ha]
    rfl

/-- The value of a chain of negations. -/
theorem ofTree_negations (hmax : c.precision ≤ Context.maxPrecision) (hx : Unsigned x)
    (ha : ofLiteral? x = some a) (hf : c.Fits a) (k : Nat) :
    ofTree c.precision (Expression.negation^[k + 1] (.leaf x)).toTree =
      .ok (opposite^[k + 1] a).plain := by
  have hleaf : ∀ l ∈ (Expression.negation^[k + 1] (.leaf x)).leaves, Operator.ofText? l = none := by
    rw [Expression.leaves_negations]
    exact List.forall_mem_singleton.mpr hx.ofText?_eq_none
  have hnode : ∀ l, Expression.negation^[k + 1] (.leaf x) ≠ .leaf l := by
    intro l hl
    rw [Function.iterate_succ_apply'] at hl
    cases hl
  rw [ofTree_toTree hmax hnode hleaf, Expression.evaluate_negations hx ha hf]

/-- A run with blanks counts every sign. -/
theorem answer_spaced_minuses (hc : settings.precision = c.precision)
    (hmax : c.precision ≤ Context.maxPrecision) (hx : Unsigned x) (ha : ofLiteral? x = some a)
    (hf : c.Fits a) {b : Text} (hb : Blanks b) {k : Nat} (hk : 1 ≤ k) :
    answer settings (minuses b k x) = .ok (opposite^[k] a).plain := by
  obtain ⟨k, rfl⟩ := Nat.exists_eq_add_of_le' hk
  obtain ⟨w, hfold, hparsed⟩ := (Expression.renders_minuses hb hx (k + 1)).exists_parsed
  refine answer_of_detailed ?_
  rw [hc, detailed_of_parsed hfold.fold_eq hparsed, ofTree_negations hmax hx ha hf]
  rfl

/-! ## Adjacent signs -/

/-- Nothing grows from a formula that is folded into a text with two signs in front, and it is no
literal. -/
theorem answer_of_two_signs {f w : Text} {s : Char} (hb : balanced f = true) (hs : isSign s = true)
    (hf : fold f = '+' :: s :: w) : answer settings f = .ok settings.messages.malformedFormat := by
  have hnone : canonical? (Brackets.normalize f) = none := by
    rw [normalize_of_plus hf, canonical?, Option.map_eq_none_iff, ← Option.not_isSome_iff_eq_none]
    intro hl
    rcases unsigned_or_signed hl with hu | ⟨u, hu, h | h⟩
    · exact hu.2.1 rfl
    · obtain rfl := (List.cons.inj h).2
      obtain rfl | rfl : s = '+' ∨ s = '-' := by simpa [isSign] using hs
      · exact hu.2.1 rfl
      · exact hu.2.2 rfl
    · exact absurd (List.cons.inj h).1 (by decide)
  have hbalanced : balanced ('+' :: s :: w) = true := by rwa [← hf, balanced_fold]
  obtain ⟨failure, hfailure⟩ :=
    Tree.exists_error_of_leading (o := .binary .add) (by decide) hbalanced []
  have htree : Tree.ofFormula f = .error failure := by
    rw [Tree.ofFormula_eq_ofPiece, hf]
    exact hfailure
  rw [answer, detailed, if_pos hb, htree, hnone]
  show Except.ok (settings.messages.forKind failure.cause.kind) = _
  rw [Tree.cause_of_ofPiece _ hfailure]
  rfl

/-- A run without blanks counts its signs as long as they are folded into one, and is not well
formed from four signs on. -/
theorem answer_adjacent_minuses (hc : settings.precision = c.precision)
    (hmax : c.precision ≤ Context.maxPrecision) (hx : Unsigned x) (ha : ofLiteral? x = some a)
    (hf : c.Fits a) {k : Nat} (hk : 1 ≤ k) :
    answer settings (minuses [] k x) =
      .ok (if k ≤ 3 then (opposite^[k] a).plain else settings.messages.malformedFormat) := by
  have hfold := fold_minuses k hx
  rw [← minuses_nil] at hfold
  have hminus (hfold : fold (minuses [] k x) = '-' :: x) :
      answer settings (minuses [] k x) = .ok a.opposite.plain := by
    refine answer_of_detailed ?_
    rw [hc, detailed_of_parsed hfold ((Expression.Parsed.leaf hx).negation (Nat.zero_le _))]
    exact mapError_eq_ok.mpr (ofTree_negations hmax hx ha hf 0)
  split
  · rw [iterate_opposite]
    obtain rfl | rfl | rfl : k = 1 ∨ k = 2 ∨ k = 3 := by omega
    · exact hminus hfold
    · exact answer_of_detailed (detailed_plus_literal _ hx ha hfold)
    · exact hminus hfold
  · have hb : balanced (minuses [] k x) = true := by
      rw [minuses_nil]
      refine balanced_of_not_isBracket fun d hd => ?_
      rcases List.mem_append.mp hd with hd | hd
      · rw [List.eq_of_mem_replicate hd]
        rfl
      · exact hx.not_isBracket hd
    -- A plus is in front, and after it another one, or the minus if there are five signs.
    obtain ⟨j, hj⟩ : ∃ j, k / 2 - k % 2 = j + 1 := ⟨k / 2 - k % 2 - 1, by omega⟩
    rw [hj] at hfold
    cases j with
    | zero =>
      have hodd : k % 2 = 1 := by omega
      rw [hodd] at hfold
      exact answer_of_two_signs hb (s := '-') rfl hfold
    | succ j => exact answer_of_two_signs hb (s := '+') rfl hfold

/-- **Runs of minus signs.** Under valid settings, a run of minus signs with a blank after each,
before a literal without a sign that has no more digits than the precision, is answered by the
canonical text of the literal, with a minus if the number of signs is odd. A run without blanks is
answered alike up to three signs; from four signs on the answer is that to a formula that is not
well formed. -/
theorem answer_minuses (settings : Settings) (hs : settings.Valid) {k : Nat} (hk : 1 ≤ k) {x : Text}
    (hx : Unsigned x) (hdigits : (x.countP DecimalDigit.isDigit : Int) ≤ settings.precision) :
    ∃ v, canonical? (if k % 2 = 0 then x else '-' :: x) = some v ∧
      answer settings (minuses [' '] k x) = .ok v ∧
      answer settings (minuses [] k x) =
        .ok (if k ≤ 3 then v else settings.messages.malformedFormat) := by
  obtain ⟨c, hc, hle⟩ := settings.exists_context hs
  obtain ⟨a, ha⟩ := Option.isSome_iff_exists.mp hx.1
  have hmax : c.precision ≤ Context.maxPrecision := hle.trans (by decide)
  have hf : c.Fits a := by
    refine fits_of_ofLiteral? ?_ ha (by omega)
    rw [Context.maxExponent]
    omega
  exact ⟨_, canonical?_signed hx ha k, answer_spaced_minuses hc hmax hx ha hf (by decide) hk,
    answer_adjacent_minuses hc hmax hx ha hf hk⟩

/-- Five minus signs before a literal of three digits, at a precision of three. -/
theorem answer_minuses_five :
    let settings : Settings := { precision := 3 }
    let x := ['0', '.', '5', '0']
    (settings.Valid ∧ 1 ≤ 5 ∧ Unsigned x ∧
        (x.countP DecimalDigit.isDigit : Int) ≤ settings.precision) ∧
      answer settings (minuses [' '] 5 x) = .ok ('-' :: x) ∧
      answer settings (minuses [] 5 x) = .ok settings.messages.malformedFormat := by
  intro settings x
  have hs : settings.Valid := by decide
  have hx : Unsigned x := by decide
  have hdigits : (x.countP DecimalDigit.isDigit : Int) ≤ settings.precision := by decide
  have hcanonical : canonical? ('-' :: x) = some ('-' :: x) := by decide
  obtain ⟨v, hv, hspaced, hadjacent⟩ := answer_minuses settings hs (k := 5) (by decide) hx hdigits
  obtain rfl : '-' :: x = v := Option.some.inj (hcanonical.symm.trans hv)
  exact ⟨⟨hs, by decide, hx, hdigits⟩, hspaced, hadjacent⟩

/-- Four adjacent minus signs before a digit are not answered by the digit. -/
theorem answer_four_minuses :
    let settings : Settings := {}
    let x := ['5']
    settings.Valid ∧ Unsigned x ∧ (x.countP DecimalDigit.isDigit : Int) ≤ settings.precision ∧
      canonical? x = some x ∧ answer settings (minuses [' '] 4 x) = .ok x ∧
      answer settings (minuses [] 4 x) = .ok formatErrorText ∧
      answer settings (minuses [] 4 x) ≠ .ok x := by
  intro settings x
  have hanswer : answer settings (minuses [] 4 x) = .ok formatErrorText := by cbv
  refine ⟨by decide, by decide, by decide, by decide, by cbv, hanswer, ?_⟩
  rw [hanswer]
  decide

end Calculator

end Reckon

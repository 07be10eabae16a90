import Reckon.Proofs.Calculator.Canonical
import Reckon.Proofs.Calculator.Cause

/-!
# Valid formulas

A formula is valid if its brackets match and it grows into a tree. A calculation makes the same two
checks, but where nothing grows it still takes a literal with a plus for a value. So that is the one
shape of formulas that are invalid and have a value; all others that are invalid fail, for the same
cause, and no failure of the machine is mistaken for an invalid formula.

## Main results

* `invalid?_eq_some_iff`: what makes a formula invalid
* `detailed_of_plus`: a literal with a plus is invalid and has a value
* `invalid?_iff_detailed`: the two checks agree
-/

namespace Reckon

open Brackets Decimal Nesting

namespace Tree

variable {f : Text}

/-- A formula is valid if it is balanced and grows. -/
theorem invalid?_eq_none_iff :
    invalid? f = none ↔ balanced f = true ∧ ∃ t, ofFormula f = .ok t := by
  unfold invalid?
  by_cases hb : balanced f = true
  · rw [if_pos hb]
    cases hf : ofFormula f with
    | ok t => simp [hb]
    | error failure => simp
  · simp [hb]

/-- A formula is invalid for unbalanced brackets, or for an empty piece. -/
theorem invalid?_eq_some_iff {cause : Cause} :
    invalid? f = some cause ↔
      (balanced f = false ∧ cause = .unbalanced) ∨
        (balanced f = true ∧ (∃ failure, ofFormula f = .error failure) ∧ cause = .empty) := by
  unfold invalid?
  by_cases hb : balanced f = true
  · rw [if_pos hb]
    cases hf : ofFormula f with
    | ok t => simp [hb]
    | error failure =>
      rw [ofFormula_eq_ofPiece] at hf
      simp [hb, cause_of_ofPiece _ hf, eq_comm]
  · simp [hb, eq_comm]

end Tree

namespace Calculator

variable {f : Text}

/-! ## A literal with a plus -/

/-- A normalized formula is balanced exactly if the formula is. -/
theorem balanced_normalize (f : Text) : balanced (Brackets.normalize f) = balanced f := by
  rw [Brackets.normalize, balanced_strip_eq, Surface.balanced_fold]

/-- A literal with a plus is balanced, but nothing grows from it. -/
theorem exists_error_of_plus {u : Text} (hf : Brackets.normalize f = '+' :: u) (hu : Unsigned u) :
    balanced f = true ∧ ∃ failure, Tree.ofFormula f = .error failure := by
  have hb : balanced ('+' :: u) = true :=
    balanced_of_not_isBracket (List.forall_mem_cons.mpr ⟨rfl, fun _ hc => hu.not_isBracket hc⟩)
  refine ⟨(balanced_normalize f).symm.trans (hf ▸ hb), ?_⟩
  rw [Tree.ofFormula_eq_ofPiece, ← Tree.ofPiece_congr (strip_strip (Surface.fold f))]
  show ∃ failure, Tree.ofPiece (Brackets.normalize f) [] = .error failure
  rw [hf]
  exact Tree.exists_error_of_leading (o := .binary .add) (by decide) hb []

/-- A literal with a plus is its own value. -/
theorem detailed_of_plus (precision : Int) {u : Text} (hf : Brackets.normalize f = '+' :: u)
    (hu : Unsigned u) :
    ∃ v, canonical? (Brackets.normalize f) = some v ∧ detailed precision f = .ok v := by
  obtain ⟨hb, failure, he⟩ := exists_error_of_plus hf hu
  obtain ⟨a, ha⟩ := (unsigned_iff.mp hu).exists_ofUnsigned? false
  have hv : canonical? (Brackets.normalize f) = some a.plain := by
    rw [canonical?, hf, ofLiteral?_of_sign.2, ha]
    rfl
  refine ⟨a.plain, hv, ?_⟩
  rw [detailed, if_pos hb, he, hv]
  rfl

/-! ## The two checks -/

variable {precision : Int}

/-- An invalid formula fails for what makes it invalid, unless it is a literal with a plus. -/
theorem detailed_of_invalid (precision : Int) {cause : Cause} (h : Tree.invalid? f = some cause) :
    (∃ failure, detailed precision f = .error (.failure failure) ∧ failure.cause = cause) ∨
      ∃ u, Brackets.normalize f = '+' :: u ∧ Unsigned u := by
  rcases Tree.invalid?_eq_some_iff.mp h with ⟨hb, rfl⟩ | ⟨hb, ⟨failure, hf⟩, rfl⟩
  · refine .inl ⟨⟨.unbalanced, f, none⟩, ?_, rfl⟩
    rw [detailed, if_neg (by simp [hb])]
  · cases hv : canonical? (Brackets.normalize f) with
    | some v => exact .inr (exists_plus_of_ofFormula hb hf hv)
    | none =>
      refine .inl ⟨failure, ?_, ?_⟩
      · rw [detailed, if_pos hb, hf, hv]
        rfl
      · rw [Tree.ofFormula_eq_ofPiece] at hf
        exact Tree.cause_of_ofPiece _ hf

/-- The calculation of a valid formula does not fail for what would make it invalid. -/
theorem cause_of_valid (h : Tree.invalid? f = none) {failure : Failure}
    (hd : detailed precision f = .error (.failure failure)) :
    failure.cause ≠ .empty ∧ failure.cause ≠ .unbalanced := by
  obtain ⟨hb, t, ht⟩ := Tree.invalid?_eq_none_iff.mp h
  rw [detailed, if_pos hb, ht] at hd
  obtain ⟨s, hs, hplaced⟩ := mapError_eq_error.mp hd
  cases s with
  | failure machine =>
    cases hplaced
    exact (Machine.cause_of_run (run_of_ofTree_eq_error hs)).2
  | fault => cases hplaced

/-- The formulas that are invalid, by how their calculation ends. -/
theorem isSome_invalid?_iff :
    (Tree.invalid? f).isSome = true ↔
      (∃ failure, detailed precision f = .error (.failure failure) ∧
        (failure.cause = .unbalanced ∨ failure.cause = .empty)) ∨
        ∃ u, Brackets.normalize f = '+' :: u ∧ Unsigned u := by
  constructor
  · intro h
    obtain ⟨cause, hcause⟩ := Option.isSome_iff_exists.mp h
    refine (detailed_of_invalid precision hcause).imp_left ?_
    rintro ⟨failure, hd, rfl⟩
    refine ⟨failure, hd, ?_⟩
    exact (Tree.invalid?_eq_some_iff.mp hcause).imp And.right fun h => h.2.2
  · rintro (⟨failure, hd, hcause⟩ | ⟨u, hu, hl⟩)
    · rw [Option.isSome_iff_ne_none]
      intro hvalid
      obtain ⟨hempty, hunbalanced⟩ := cause_of_valid hvalid hd
      exact hcause.elim hunbalanced hempty
    · obtain ⟨hb, hf⟩ := exists_error_of_plus hu hl
      rw [Tree.invalid?_eq_some_iff.mpr (.inr ⟨hb, hf, rfl⟩)]
      rfl

/-- An invalid formula whose calculation fails does so for what makes it invalid. -/
theorem cause_of_invalid {cause : Cause} {failure : Failure} (h : Tree.invalid? f = some cause)
    (hd : detailed precision f = .error (.failure failure)) : cause = failure.cause := by
  rcases detailed_of_invalid precision h with ⟨failure', hd', rfl⟩ | ⟨u, hu, hl⟩
  · rw [hd] at hd'
    cases hd'
    rfl
  · obtain ⟨v, -, hv⟩ := detailed_of_plus precision hu hl
    rw [hd] at hv
    cases hv

/-- A formula with a value is valid, unless it is a literal with a plus. -/
theorem valid_of_detailed {v : Text} (hv : detailed precision f = .ok v)
    (hplus : ¬ ∃ u, Brackets.normalize f = '+' :: u ∧ Unsigned u) : Tree.invalid? f = none := by
  rw [Option.eq_none_iff_forall_ne_some]
  intro cause hcause
  rcases detailed_of_invalid precision hcause with ⟨failure, hd, -⟩ | h
  · rw [hv] at hd
    cases hd
  · exact hplus h

/-- **The two checks agree.** A formula is invalid exactly if its calculation fails for unbalanced
brackets or an empty piece, or if it is normalized to a literal with a plus; the latter is its own
value. If a formula is invalid and its calculation fails, both have the same wording. So a formula
with a value is valid, unless it is of that one shape. -/
theorem invalid?_iff_detailed (precision : Int) (f : Text) :
    ((Tree.invalid? f).isSome = true ↔
      (∃ failure, detailed precision f = .error (.failure failure) ∧
        (failure.cause.message = "Unbalanced parentheses" ∨
          failure.cause.message = "Empty formula")) ∨
        ∃ u, Brackets.normalize f = '+' :: u ∧ Unsigned u) ∧
      (∀ u, Brackets.normalize f = '+' :: u → Unsigned u →
        ∃ v, canonical? (Brackets.normalize f) = some v ∧ detailed precision f = .ok v) ∧
      (∀ cause failure, Tree.invalid? f = some cause →
        detailed precision f = .error (.failure failure) →
          cause.message = failure.cause.message) ∧
      ∀ v, detailed precision f = .ok v → (¬ ∃ u, Brackets.normalize f = '+' :: u ∧ Unsigned u) →
        Tree.invalid? f = none := by
  have hunbalanced (cause : Cause) : cause.message = "Unbalanced parentheses" ↔
      cause = .unbalanced := Cause.message_inj (b := .unbalanced)
  have hempty (cause : Cause) : cause.message = "Empty formula" ↔ cause = .empty :=
    Cause.message_inj (b := .empty)
  refine ⟨?_, fun u hu hl => detailed_of_plus precision hu hl, fun cause failure h hd => ?_,
    fun v hv hplus => valid_of_detailed hv hplus⟩
  · simp only [hunbalanced, hempty]
    exact isSome_invalid?_iff
  · rw [cause_of_invalid h hd]

/-- A literal with a plus in brackets, an operator without its right operand, and a product. -/
theorem invalid?_iff_detailed_plus :
    let signed := ['(', '+', '5', ')']
    let short := ['3', '*']
    let product := ['2', '*', '3']
    let failure : Failure := ⟨.empty, ['3', '*'], none⟩
    (Brackets.normalize signed = ['+', '5'] ∧ Unsigned ['5'] ∧
      Tree.invalid? short = some .empty ∧ detailed 3 short = .error (.failure failure) ∧
      detailed 3 product = .ok ['6'] ∧ ¬ ∃ u, Brackets.normalize product = '+' :: u ∧ Unsigned u) ∧
      (Tree.invalid? signed).isSome = true ∧
      (∃ v, canonical? (Brackets.normalize signed) = some v ∧ detailed 3 signed = .ok v) ∧
      Cause.empty.message = failure.cause.message ∧ Tree.invalid? product = none := by
  intro signed short product failure
  have hsigned : Brackets.normalize signed = ['+', '5'] := by cbv
  have hfive : Unsigned ['5'] := by decide
  have hshort : Tree.invalid? short = some .empty := by cbv
  have hfailure : detailed 3 short = .error (.failure failure) := by cbv
  have hproduct : detailed 3 product = .ok ['6'] := by cbv
  have hplus : ¬ ∃ u, Brackets.normalize product = '+' :: u ∧ Unsigned u := by
    have hnormalize : Brackets.normalize product = product := by cbv
    rintro ⟨u, hu, -⟩
    rw [hnormalize] at hu
    exact absurd (List.cons.inj hu).1 (by decide)
  obtain ⟨hiff, hvalue, -, -⟩ := invalid?_iff_detailed 3 signed
  obtain ⟨-, -, hmessage, -⟩ := invalid?_iff_detailed 3 short
  obtain ⟨-, -, -, hvalid⟩ := invalid?_iff_detailed 3 product
  exact ⟨⟨hsigned, hfive, hshort, hfailure, hproduct, hplus⟩,
    hiff.mpr (.inr ⟨['5'], hsigned, hfive⟩), hvalue ['5'] hsigned hfive,
    hmessage _ _ hshort hfailure, hvalid _ hproduct hplus⟩

end Calculator

end Reckon

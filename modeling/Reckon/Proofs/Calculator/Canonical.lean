import Reckon.Proofs.Calculator.Language
import Reckon.Proofs.Calculator.Substitution
import Reckon.Proofs.Decimal.Canonical

/-!
# Results are canonical

Whatever way a value comes about, as a literal, as a literal with a plus, or from an operator, it is
the plain notation of a number, which is canonical. It is also a formula, and its value under the
same precision is itself: a negative one is a negation, and the rounding of its operand takes back
the zeros that its notation may have put at the end.

## Main results

* `exists_plain_of_detailed`: a value is the plain notation of a number with that value
* `detailed_canonical`: a value is canonical, and its own value
-/

namespace Reckon

open Decimal Expression Nesting

namespace Calculator

variable {precision : Int}

/-- Plain notation is calculated like its expression. -/
theorem detailed_plain {a : Decimal} (h : ofTree precision (ofPlain a).toTree = .ok a.plain) :
    detailed precision a.plain = .ok a.plain := by
  rw [detailed_of_parsed (fold_plain a) (parsed_ofPlain a)]
  exact mapError_eq_ok.mpr h

/-- A literal from which nothing grows has a plus. -/
theorem exists_plus_of_ofFormula {f v : Text} {failure : Failure} (hb : balanced f = true)
    (hf : Tree.ofFormula f = .error failure) (hv : canonical? (Brackets.normalize f) = some v) :
    ∃ u, Brackets.normalize f = '+' :: u ∧ Unsigned u := by
  have hvalue : detailed 1 f = .ok v := by
    rw [detailed, if_pos hb, hf, hv]
    rfl
  rcases sentence_of_detailed hvalue with hs | hplus
  · obtain ⟨e, -, he⟩ := hs.exists_ofPiece
    rw [Tree.ofFormula_eq_ofPiece, he] at hf
    cases hf
  · exact hplus

/-- A value is the plain notation of a number, which has that value. -/
theorem exists_plain_of_detailed {f v : Text} (h : detailed precision f = .ok v) :
    ∃ a : Decimal, v = a.plain ∧ ofTree precision (ofPlain a).toTree = .ok v := by
  unfold detailed at h
  split at h
  · rename_i hb
    split at h
    · rename_i t ht
      rw [Tree.ofFormula_eq_ofPiece] at ht
      have hv := mapError_eq_ok.mp h
      obtain ⟨e, rfl, he⟩ := exists_expression_of_ofTree (Tree.grown_of_ofPiece _ ht) hv
      obtain ⟨a, ha, hplain, -⟩ := interchangeable_ofPlain he hv
      exact ⟨a, ha, hplain⟩
    · rename_i failure hf
      cases hn : canonical? (Brackets.normalize f) with
      | none =>
        rw [hn] at h
        cases h
      | some v' =>
        rw [hn] at h
        cases h
        obtain ⟨u, hu, hl⟩ := exists_plus_of_ofFormula hb hf hn
        have hbody := unsigned_iff.mp hl
        obtain ⟨a, ha, rfl⟩ := Option.map_eq_some_iff.mp hn
        rw [hu, ofLiteral?_of_sign.2, ← ofLiteral?_of_body hbody] at ha
        refine ⟨a, rfl, ofTree_ofPlain fun hneg => ?_⟩
        rw [(hl.settled ha).1] at hneg
        cases hneg
  · cases h

/-- **Results are canonical and stable**: a value of a formula, at any precision, is written in
canonical form, is its own canonical text, and has itself as its value. -/
theorem detailed_canonical {f v : Text} (h : detailed precision f = .ok v) :
    Canonical v ∧ canonical? v = some v ∧ detailed precision v = .ok v := by
  obtain ⟨a, rfl, ha⟩ := exists_plain_of_detailed h
  exact ⟨canonical_plain a, canonical?_plain a, detailed_plain ha⟩

/-- A negative result that is written with more digits than the precision has. -/
theorem detailed_canonical_rounded :
    let f := ['5', '-', '1', '0', '6']
    let v := ['-', '1', '0', '0']
    detailed 2 f = .ok v ∧ Canonical v ∧ canonical? v = some v ∧ detailed 2 v = .ok v := by
  intro f v
  have h : detailed 2 f = .ok v := by cbv
  exact ⟨h, detailed_canonical h⟩

end Calculator

end Reckon

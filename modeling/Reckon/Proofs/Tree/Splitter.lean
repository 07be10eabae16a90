import Mathlib
import Reckon.Proofs.Tree.Piece

/-!
# Growth as a recursive splitter

A tree grows along a path, with the pieces that wait kept aside; what grows, and which failure is
told if nothing does, is what a recursive splitter says that goes through the operands from left to
right. A failure names the text that lacks an operand, and that is a part of the formula: it can be
cut, but one of its operands strips to nothing.

## Main definitions

* `Tree.Splits B`: `B` is the recursive splitter
* `Tree.Lacking t`: the text `t` is cut, and one of its operands is empty

## Main results

* `splits_ofPiece`, `Splits.eq_ofPiece`: the tree of a piece is what the recursive splitter says
* `failure_of_ofPiece`: which text a failure names
* `ofFormula_eq_splitter`: growth is the recursive splitter, with its failures
-/

namespace Reckon

namespace Tree

open Brackets Split

/-- A function on texts, and on the texts that they are operands of, is the recursive splitter: it
strips the text and refuses the empty one, makes a leaf of a text without a place to split, a
negation of what follows a minus that negates, and a node of any other operator between what stands
before it, which is split first, and what stands after it. -/
def Splits (B : Text → Text → Except Failure Tree) : Prop := ∀ text enclosing,
  let t := strip text
  B text enclosing =
    if t = [] then .error ⟨.empty, enclosing, none⟩
    else
      match index? t with
      | none => .ok (.leaf t)
      | some i =>
        if isNegation t i then (B (t.drop (i + 1)) t).map (.unary negationLabel)
        else
          (B (t.take i) t).bind fun l =>
            (B (t.drop (i + 1)) t).map fun r => .binary t[i]?.toList l r

/-- The tree of a piece is what the recursive splitter says. -/
theorem splits_ofPiece : Splits ofPiece := by
  intro text enclosing t
  rw [ofPiece_of_strip rfl]
  by_cases hne : t = []
  · rw [if_pos hne, show strip text = [] from hne]
    rfl
  · rw [if_neg hne]
    cases hi : index? t with
    | none => rw [cut_of_index?_eq_none hne hi]
    | some i =>
      have hlt := index?_lt hi
      have hlabel : t[i]?.toList = [t[i]] := by
        rw [List.getElem?_eq_getElem hlt]
        rfl
      rw [cut_of_index?_eq_some hi, cutAt]
      dsimp only
      rw [hlabel]
      by_cases hneg : isNegation t i = true
      · rw [if_pos hneg, if_pos hneg]
      · rw [if_neg hneg, if_neg hneg]

/-- There is only one recursive splitter, as the operands are shorter than the text. -/
theorem Splits.eq_ofPiece {B : Text → Text → Except Failure Tree} (h : Splits B)
    (text enclosing : Text) : B text enclosing = ofPiece text enclosing := by
  induction hn : text.length using Nat.strongRecOn generalizing text enclosing with
  | ind n ih =>
    have hle := length_strip_le text
    rw [h text enclosing, splits_ofPiece text enclosing]
    cases hi : index? (strip text) with
    | none => rfl
    | some i =>
      have hlt := index?_lt hi
      have hright : B ((strip text).drop (i + 1)) (strip text) =
          ofPiece ((strip text).drop (i + 1)) (strip text) :=
        ih _ (by rw [List.length_drop]; omega) _ _ rfl
      have hleft : B ((strip text).take i) (strip text) =
          ofPiece ((strip text).take i) (strip text) :=
        ih _ (by rw [List.length_take]; omega) _ _ rfl
      simp only [hright, hleft]

/-! ## Failures -/

/-- A stripped text that can be cut, but lacks an operand: one of them strips to nothing. -/
structure Lacking (t : Text) : Prop where
  ne_nil : t ≠ []
  stripped : strip t = t
  operand : ∃ i, index? t = some i ∧
    (strip (t.drop (i + 1)) = [] ∨ isNegation t i = false ∧ strip (t.take i) = [])

/-- What an operand fails with names the text that is cut, if the operand is empty, or a part of the
operand, and this is a part of the piece as well. -/
theorem lacking_of_operand {text operand : Text} {failure : Failure}
    (hin : operand <:+: strip text) (hempty : strip operand = [] → Lacking (strip text))
    (h : (strip operand = [] ∧ failure = ⟨.empty, strip text, none⟩) ∨
      strip operand ≠ [] ∧ ∃ t, failure = ⟨.empty, t, none⟩ ∧ Lacking t ∧ t <:+: operand) :
    ∃ t, failure = ⟨.empty, t, none⟩ ∧ Lacking t ∧ t <:+: text := by
  rcases h with ⟨hnil, rfl⟩ | ⟨-, t, rfl, ht, hpart⟩
  · exact ⟨_, rfl, hempty hnil, isInfix_strip text⟩
  · exact ⟨t, rfl, ht, (hpart.trans hin).trans (isInfix_strip text)⟩

/-- A failure names the enclosing text if the piece is empty, and else a part of the piece that
lacks an operand. -/
theorem failure_of_ofPiece {text enclosing : Text} {failure : Failure}
    (h : ofPiece text enclosing = .error failure) :
    (strip text = [] ∧ failure = ⟨.empty, enclosing, none⟩) ∨
      strip text ≠ [] ∧ ∃ t, failure = ⟨.empty, t, none⟩ ∧ Lacking t ∧ t <:+: text := by
  fun_induction ofPiece text enclosing generalizing failure with
  | case1 text enclosing _ hc =>
    cases h
    exact .inl ⟨eq_nil_of_cut hc, rfl⟩
  | case2 => cases h
  | case3 text enclosing _ operand hlt hc ih =>
    obtain ⟨i, hi, hneg, rfl⟩ := index?_of_cut_negation hc
    have hne : strip text ≠ [] := List.ne_nil_of_length_pos (Nat.zero_lt_of_lt hlt)
    refine .inr ⟨hne, lacking_of_operand (List.drop_suffix _ _).isInfix ?_ (ih (map_eq_error.mp h))⟩
    exact fun hnil => ⟨hne, strip_strip text, i, hi, .inl hnil⟩
  | case4 text enclosing _ c left right hlt hc ihl ihr =>
    obtain ⟨i, hi, hneg, rfl, rfl⟩ := index?_of_cut_binary hc
    have hne : strip text ≠ [] := List.ne_nil_of_length_pos (Nat.zero_lt_of_lt hlt)
    refine .inr ⟨hne, ?_⟩
    rcases bind_eq_error.mp h with hl | ⟨l, -, hr⟩
    · refine lacking_of_operand (List.take_prefix _ _).isInfix ?_ (ihl hl)
      exact fun hnil => ⟨hne, strip_strip text, i, hi, .inr ⟨hneg, hnil⟩⟩
    · refine lacking_of_operand (List.drop_suffix _ _).isInfix ?_ (ihr (map_eq_error.mp hr))
      exact fun hnil => ⟨hne, strip_strip text, i, hi, .inl hnil⟩

/-- **Growth is the recursive splitter**, on every formula, balanced or not, and with the failure
that the splitter meets first, the operands being taken from left to right. A failure names no text
exactly if the normalized formula is empty. Else it names a part of it that is not empty and has no
enclosing brackets, and of which an operand strips to nothing. -/
theorem ofFormula_eq_splitter :
    Splits ofPiece ∧ ∀ f : Text,
      (∀ B, Splits B → ofFormula f = B (normalize f) []) ∧
        ∀ failure, ofFormula f = .error failure →
          failure.cause.message = "Empty formula" ∧
            (failure.formula = [] ↔ normalize f = []) ∧
            (normalize f ≠ [] → failure.formula <:+: normalize f ∧ failure.formula ≠ [] ∧
              strip failure.formula = failure.formula ∧
              ∃ i, index? failure.formula = some i ∧
                (strip (failure.formula.drop (i + 1)) = [] ∨
                  isNegation failure.formula i = false ∧
                    strip (failure.formula.take i) = [])) := by
  have hnormalize (f : Text) : ofFormula f = ofPiece (normalize f) [] := by
    rw [ofFormula_eq_ofPiece]
    exact (ofPiece_congr (strip_strip (Surface.fold f)) []).symm
  refine ⟨splits_ofPiece, fun f => ⟨fun B hB => ?_, fun failure h => ?_⟩⟩
  · rw [hnormalize, hB.eq_ofPiece]
  · rw [hnormalize] at h
    have hstrip : strip (normalize f) = normalize f := strip_strip (Surface.fold f)
    rcases failure_of_ofPiece h with ⟨hnil, rfl⟩ | ⟨hne, t, rfl, ht, hin⟩
    · rw [hstrip] at hnil
      exact ⟨rfl, iff_of_true rfl hnil, fun hne => absurd hnil hne⟩
    · rw [hstrip] at hne
      exact ⟨rfl, iff_of_false ht.ne_nil hne, fun _ => ⟨hin, ht.ne_nil, ht.stripped, ht.operand⟩⟩

/-- Of two operands that are missing, the left one is told, with the text that it is missing in. -/
theorem ofFormula_eq_splitter_left :
    let f := ['1', '+', '(', '2', '*', '(', ')', ')', '-']
    let failure : Failure := ⟨.empty, ['2', '*', '(', ')'], none⟩
    (Splits ofPiece ∧ ofFormula f = .error failure ∧ normalize f ≠ []) ∧
      ofPiece (normalize f) [] = .error failure ∧ failure.formula <:+: normalize f ∧
      ∃ i, index? failure.formula = some i ∧
        (strip (failure.formula.drop (i + 1)) = [] ∨
          isNegation failure.formula i = false ∧ strip (failure.formula.take i) = []) := by
  intro f failure
  have hf : ofFormula f = .error failure := by cbv
  have hnormalize : normalize f = f := by cbv
  have hne : normalize f ≠ [] := by
    rw [hnormalize]
    exact List.cons_ne_nil _ _
  obtain ⟨hsplits, hall⟩ := ofFormula_eq_splitter
  obtain ⟨heq, hfailure⟩ := hall f
  obtain ⟨-, -, hpart⟩ := hfailure failure hf
  obtain ⟨hin, -, -, hoperand⟩ := hpart hne
  exact ⟨⟨hsplits, hf, hne⟩, (heq ofPiece hsplits).symm.trans hf, hin, hoperand⟩

end Tree

end Reckon

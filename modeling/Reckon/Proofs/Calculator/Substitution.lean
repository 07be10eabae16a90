import Mathlib
import Reckon.Proofs.Expression.Plain
import Reckon.Proofs.Machine.Reading

/-!
# A part of a formula may be calculated first

A formula in brackets that has a value may be replaced by its value: whatever stands around it, the
answer is the same. The text around is folded and split in the same way; where the group becomes a
tree, its tokens leave the same number on the stack; and where it is part of something that is no
formula, the failures are of the same kind.

## Main results

* `interchangeable_ofPlain`: an expression and the plain notation of its value
* `agree_ofTree`: the values of trees that differ by a replacement
* `answer_fill`: the answer does not change when a part in brackets is replaced by its value
-/

namespace Reckon

open Brackets Decimal Expression Machine Nesting

namespace Calculator

variable {precision : Int}

/-! ## An expression and its value -/

/-- Two expressions that are evaluated to the same number are interchangeable. -/
theorem interchangeable_of_evaluate {c : Context} {x y : Expression} {t t' : Text}
    (hx : ∀ l ∈ x.leaves, Unsigned l) (hy : ∀ l ∈ y.leaves, Unsigned l)
    (ht : x.evaluate c = .ok t) (ht' : y.evaluate c = .ok t')
    (h : ofLiteral? t = ofLiteral? t') : Interchangeable c x.toTree y.toTree := by
  intro stack stack' hs
  rw [labels_toTree, labels_toTree, foldlM_postOrder c x fun l hl => (hx l hl).ofText?_eq_none,
    foldlM_postOrder c y fun l hl => (hy l hl).ofText?_eq_none, ht, ht']
  exact .ok (.cons h hs)

/-- An expression that has a value is interchangeable with the plain notation of a number, which
has the same value. -/
theorem interchangeable_ofPlain {e : Expression} (he : ∀ l ∈ e.leaves, Unsigned l) {v : Text}
    (hv : ofTree precision e.toTree = .ok v) :
    ∃ a : Decimal, v = a.plain ∧ ofTree precision (ofPlain a).toTree = .ok v ∧
      ∀ c, Context.ofPrecision? precision = some c →
        Interchangeable c e.toTree (ofPlain a).toTree := by
  by_cases hleaf : ∃ l, e = .leaf l
  · obtain ⟨l, rfl⟩ := hleaf
    have hl := he l (List.mem_singleton_self l)
    obtain ⟨a, ha, hv'⟩ := exists_ofTree_leaf precision hl.1
    obtain ⟨hn, hs⟩ := hl.settled ha
    have hneg : ¬ (a.negative && !a.isZero) = true := by simp [hn]
    obtain rfl : v = a.plain := Except.ok.inj (hv.symm.trans hv')
    refine ⟨a, rfl, ofTree_ofPlain fun h => absurd h hneg, fun c _ => ?_⟩
    refine interchangeable_of_evaluate he (fun _ => unsigned_of_mem_leaves_ofPlain)
      (if_pos hl.1) (evaluate_ofPlain fun h => absurd h hneg) ?_
    rw [ofLiteral?_plain, hs, ha]
  · have hleaf : ∀ l, e ≠ .leaf l := fun l hl => hleaf ⟨l, hl⟩
    have hop : ∀ l ∈ e.leaves, Operator.ofText? l = none := fun l hl => (he l hl).ofText?_eq_none
    cases hc : Context.ofPrecision? precision with
    | none =>
      rw [ofTree_eq_map_run _ hleaf, run, hc] at hv
      cases hv
    | some c =>
      obtain ⟨rfl, hle⟩ := Context.eq_precision_of_ofPrecision? hc
      rw [ofTree_toTree hle hleaf hop] at hv
      -- a result is in plain notation, and fits into the context even if it is negated again
      obtain ⟨a, hf, rfl⟩ := exists_fits_of_evaluate hleaf hv
      refine ⟨a, rfl, ofTree_ofPlain fun _ => ⟨c, hc, hf⟩, fun c' hc' => ?_⟩
      cases hc'
      exact interchangeable_of_evaluate he (fun _ => unsigned_of_mem_leaves_ofPlain) hv
        (evaluate_ofPlain fun _ => hf) rfl

/-! ## Around a replacement -/

theorem canonical?_of_bracket_mem {t : Text} (h : '(' ∈ t) : canonical? t = none := by
  rw [canonical?, Option.map_eq_none_iff, ← Option.not_isSome_iff_eq_none]
  exact fun hl => bracket_notMem_of_isLiteral hl h

/-- The values of two trees that differ by a replacement. -/
theorem agree_ofTree {x y : Tree} (hvalue : ofTree precision x = ofTree precision y)
    (hxy : ∀ c, Context.ofPrecision? precision = some c → Interchangeable c x y) {t t' : Tree}
    (h : Tree.Filled x y t t') : Agree Eq (ofTree precision t) (ofTree precision t') := by
  have hrun : Agree Eq ((run precision t.postOrder).map plain)
      ((run precision t'.postOrder).map plain) :=
    (agree_run fun c hc => interchangeable_filled c (hxy c hc) h).map fun a b hab => by rw [hab]
  cases h with
  | hole =>
    rw [hvalue]
    exact .refl (fun _ => rfl) _
  | same t => exact .refl (fun _ => rfl) _
  | junk hl hl' =>
    simp only [ofTree, canonical?_of_bracket_mem hl, canonical?_of_bracket_mem hl', Option.elim]
    exact hrun
  | unary label _ => exact hrun
  | binary label _ _ => exact hrun

theorem agree_mapError_placed {α : Type} {R : α → α → Prop} {o o' : Except Stop α}
    (h : Agree R o o') (f f' : Text) :
    Agree R (o.mapError (placed f)) (o'.mapError (placed f')) := by
  cases h with
  | ok hab => exact .ok hab
  | failure hk => exact .failure hk
  | fault f => exact .fault f

/-- The outcomes around a group and around its replacement. -/
theorem agree_detailed {g g' : Text} {x y : Tree} (hg : balanced g = true)
    (hg' : balanced g' = true)
    (hx : ∀ enclosing, Tree.ofPiece (Surface.fold g) enclosing = .ok x)
    (hy : ∀ enclosing, Tree.ofPiece (Surface.fold g') enclosing = .ok y)
    (hvalue : ofTree precision x = ofTree precision y)
    (hxy : ∀ c, Context.ofPrecision? precision = some c → Interchangeable c x y) (s t : Text) :
    Agree Eq (detailed precision (fill s t g)) (detailed precision (fill s t g')) := by
  rw [detailed, detailed, balanced_fill hg, balanced_fill hg']
  split
  · rename_i hb
    -- Folding does not reach across the brackets of the group.
    have hfold : ∀ g, Surface.fold (fill s t g) =
        fill (Surface.fold s) (Surface.fold t) (Surface.fold g) := fun g => Surface.fold_group s g t
    have hfg : balanced (Surface.fold g) = true := by rw [Surface.balanced_fold, hg]
    have hfg' : balanced (Surface.fold g') = true := by rw [Surface.balanced_fold, hg']
    have hfb : balanced (Surface.fold s ++ Surface.fold t) = true := by
      rw [← balanced_fill hfg, ← hfold, Surface.balanced_fold, balanced_fill hg, hb]
    have hm := Tree.matched_fill hfg hfg' hx hy _ _ hfb [] []
    rw [Tree.ofFormula_eq_ofPiece, Tree.ofFormula_eq_ofPiece, Brackets.normalize,
      Brackets.normalize, hfold, hfold]
    cases hp : Tree.ofPiece (fill (Surface.fold s) (Surface.fold t) (Surface.fold g)) [] with
    | ok u =>
      cases hp' : Tree.ofPiece (fill (Surface.fold s) (Surface.fold t) (Surface.fold g')) [] with
      | ok u' =>
        rw [hp, hp'] at hm
        cases hm with
        | ok h => exact agree_mapError_placed (agree_ofTree hvalue hxy h) _ _
      | error f' =>
        rw [hp, hp'] at hm
        cases hm
    | error f =>
      cases hp' : Tree.ofPiece (fill (Surface.fold s) (Surface.fold t) (Surface.fold g')) [] with
      | ok u' =>
        rw [hp, hp'] at hm
        cases hm
      | error f' =>
        simp only [canonical?_of_bracket_mem (Tree.bracket_mem_strip_of_error hfg hx hfb hp),
          canonical?_of_bracket_mem (Tree.bracket_mem_strip_of_error hfg' hy hfb hp'),
          Option.elim]
        refine .failure ?_
        rw [Tree.cause_of_ofPiece _ hp, Tree.cause_of_ofPiece _ hp']
  · exact .failure rfl

theorem toAnswer_of_agree (messages : Messages) {o o' : Except Stop Text} (h : Agree Eq o o') :
    toAnswer messages o = toAnswer messages o' := by
  cases h with
  | ok h => rw [h]
  | failure hk => exact congrArg (fun kind => Except.ok (messages.forKind kind)) hk
  | fault f => rfl

/-- **Calculation is compositional**: under any settings, a valid formula in brackets that has a
value may be replaced by its value in brackets, whatever stands around it. -/
theorem answer_fill (settings : Settings) {e v : Text} (he : Tree.invalid? e = none)
    (hv : detailed settings.precision e = .ok v) (s t : Text) :
    answer settings (s ++ '(' :: (e ++ ')' :: t)) =
      answer settings (s ++ '(' :: (v ++ ')' :: t)) := by
  unfold Tree.invalid? at he
  split at he
  · rename_i hb
    split at he
    · cases he
    · rename_i x hx
      rw [detailed, if_pos hb, hx] at hv
      have hvalue := mapError_eq_ok.mp hv
      rw [Tree.ofFormula_eq_ofPiece] at hx
      -- The part is an expression of literals, and its value is one of another text.
      obtain ⟨e', rfl, hl⟩ := exists_expression_of_ofTree (Tree.grown_of_ofPiece _ hx) hvalue
      obtain ⟨a, rfl, hplain, hxy⟩ := interchangeable_ofPlain hl hvalue
      have hparsed := parsed_ofPlain a
      refine toAnswer_of_agree settings.messages (agree_detailed hb hparsed.sentence.balanced
        (fun enclosing => Tree.ofPiece_eq_ok _ enclosing hx) (fun enclosing => ?_)
        (hvalue.trans hplain.symm) hxy s t)
      rw [fold_plain, hparsed.tree]
  · cases he

/-- A negative value, in the place of a difference that is a factor. -/
theorem answer_fill_factor :
    let settings : Settings := { precision := 2 }
    let e := ['1', '-', '3']
    let v := ['-', '2']
    (Tree.invalid? e = none ∧ detailed settings.precision e = .ok v) ∧
      answer settings (['3', '*'] ++ '(' :: (e ++ ')' :: ['+', '.', '5'])) =
        answer settings (['3', '*'] ++ '(' :: (v ++ ')' :: ['+', '.', '5'])) := by
  intro settings e v
  have he : Tree.invalid? e = none := by cbv
  have hv : detailed 2 e = .ok v := by cbv
  exact ⟨⟨he, hv⟩, answer_fill settings he hv ['3', '*'] ['+', '.', '5']⟩

end Calculator

end Reckon

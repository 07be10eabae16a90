import Reckon.Proofs.Calculator.Literal
import Reckon.Proofs.Calculator.Magnitude
import Reckon.Proofs.Decimal.Comparison

/-!
# Comparing two formulas

Two valid formulas that have a value can be compared in two ways: next to each other, or by their
difference and zero. The first way is exact; in the second way the difference is rounded to the
precision. Both give the same answer as long as the second formula is of moderate size, so that the
difference cannot overflow and is only zero for equal values.

## Main definitions

* `versus f s g`: the comparison, spelled `s`, of the formulas `f` and `g`
* `margin f s g`: the comparison of their difference with zero

## Main results

* `exists_parsed`: a valid formula that has a value is an expression that has a value
* `evaluate_comparison`, `evaluate_margin`: both comparisons yield the truth value for the order
* `exists_answer_versus`: the answers to both comparisons, by the order of the two values
* `answer_versus`: both comparisons give the same answer, and one of less, equal and greater holds
-/

namespace Reckon

open Decimal Expression Machine

namespace Calculator

variable {c : Context}

/-! ## Formulas with a value -/

/-- A valid formula that has a value is folded into a sentence of an expression that has a value. -/
theorem exists_parsed (hc : c.precision ≤ Context.maxPrecision) {f v : Text}
    (hf : Tree.invalid? f = none) (hv : detailed c.precision f = .ok v) :
    ∃ e t a, Parsed 0 e (Surface.fold f) ∧ (∀ l ∈ e.leaves, Unsigned l) ∧
      e.evaluate c = .ok t ∧ ofLiteral? t = some a := by
  obtain ⟨hb, tree, ht⟩ := Tree.invalid?_eq_none_iff.mp hf
  rw [detailed, if_pos hb, ht] at hv
  have hvalue := mapError_eq_ok.mp hv
  rw [Tree.ofFormula_eq_ofPiece] at ht
  obtain ⟨e, rfl, hl⟩ := exists_expression_of_ofTree (Tree.grown_of_ofPiece _ ht) hvalue
  have hbalanced : Nesting.balanced (Surface.fold f) = true := by rw [Surface.balanced_fold, hb]
  have hparsed : Parsed 0 e (Surface.fold f) :=
    ⟨Tree.sentence_of_ofPiece hbalanced ht hl, fun _ _ _ => Nat.zero_le _,
      fun enclosing => Tree.ofPiece_eq_ok _ enclosing ht⟩
  obtain ⟨t, ht⟩ : ∃ t, e.evaluate c = .ok t := by
    by_cases hleaf : ∃ l, e = .leaf l
    · obtain ⟨l, rfl⟩ := hleaf
      exact ⟨l, if_pos (hl l (List.mem_singleton_self l)).1⟩
    · have hop : ∀ l ∈ e.leaves, Operator.ofText? l = none := fun l h => (hl l h).ofText?_eq_none
      rw [ofTree_toTree hc (fun l h => hleaf ⟨l, h⟩) hop] at hvalue
      exact ⟨v, hvalue⟩
  obtain ⟨a, ha⟩ := Option.isSome_iff_exists.mp (isLiteral_evaluate c ht)
  exact ⟨e, t, a, hparsed, hl, ht, ha⟩

/-! ## One comparison -/

variable {op : BinaryOp} {x y : Expression} {s t : Text} {a b : Decimal}

/-- A comparison yields the truth value for the order of the operands. -/
theorem evaluate_comparison (hop : op ∈ BinaryOp.comparisons) (hx : x.evaluate c = .ok s)
    (hy : y.evaluate c = .ok t) (ha : ofLiteral? s = some a) (hb : ofLiteral? t = some b) :
    (binary op x y).evaluate c = .ok (truth (op.accepts (compare a.toRat b.toRat))).plain := by
  have hz : ¬ (op = .divide ∧ b.isZero = true) := by
    rintro ⟨rfl, -⟩
    exact absurd hop (by decide)
  have hr := BinaryOp.apply_of_mem_comparisons c hop a b
  rw [evaluate_binary hx hy ha hb, operate_eq_ok.mpr ⟨hz, hr⟩, compare_eq]
  rfl

/-- A comparison of a difference of moderate size with zero yields the same truth value. -/
theorem evaluate_margin (hop : op ∈ BinaryOp.comparisons)
    (hl : ∀ l ∈ (binary .subtract x y).leaves, Unsigned l) (hx : x.evaluate c = .ok s)
    (hy : y.evaluate c = .ok t) (ha : ofLiteral? s = some a) (hb : ofLiteral? t = some b)
    (hn : extent (binary .subtract x y).postOrder * c.precision ≤ 999999) :
    (binary op (binary .subtract x y) (leaf ['0'])).evaluate c =
      .ok (truth (op.accepts (compare a.toRat b.toRat))).plain := by
  have hleaves : ∀ l ∈ (binary .subtract x y).leaves, Operator.ofText? l = none := by
    intro l h
    exact (hl l h).ofText?_eq_none
  obtain ⟨d, hd, hvalue, hne⟩ := exists_ok_of_evaluate hleaves hx hy ha hb (by simp) hn
  rw [hvalue] at hne
  have horder : compare d.settled.toRat (toRat ⟨false, 0, 0⟩) = compare a.toRat b.toRat := by
    have hzero : toRat ⟨false, 0, 0⟩ = 0 := toRat_eq_zero_iff.mpr rfl
    rw [toRat_settled, hvalue, hzero]
    exact c.compare_nearest_sub hne
  have hleaf : (leaf ['0']).evaluate c = .ok ['0'] := if_pos (by decide)
  have hread : ofLiteral? ['0'] = some ⟨false, 0, 0⟩ := by decide
  rw [evaluate_comparison hop hd hleaf (ofLiteral?_plain d) hread, horder]

theorem plain_truth (p : Bool) : (truth p).plain = if p then ['1'] else ['0'] := by
  cases p <;> decide

/-- A formula that is folded into a comparison is answered by its truth value. -/
theorem answer_of_comparison {settings : Settings} (hc : settings.precision = c.precision)
    (hmax : c.precision ≤ Context.maxPrecision) {f w : Text} (hf : Surface.fold f = w)
    (hp : Parsed 0 (binary op x y) w) (hl : ∀ l ∈ (binary op x y).leaves, Unsigned l) {p : Bool}
    (he : (binary op x y).evaluate c = .ok (truth p).plain) :
    answer settings f = .ok (if p then ['1'] else ['0']) := by
  have hop : ∀ l ∈ (binary op x y).leaves, Operator.ofText? l = none := by
    intro l h
    exact (hl l h).ofText?_eq_none
  apply answer_of_detailed
  rw [hc, detailed_of_parsed hf hp, ofTree_toTree hmax (fun l h => by cases h) hop, he, plain_truth]
  rfl

/-! ## Two formulas -/

/-- Two formulas in brackets, with the comparison `s` between them. -/
def versus (f s g : Text) : Text := '(' :: (f ++ ')' :: (s ++ '(' :: (g ++ [')'])))

/-- The difference of two formulas in brackets, with the comparison `s` between it and zero. -/
def margin (f s g : Text) : Text :=
  '(' :: (f ++ ')' :: '-' :: '(' :: (g ++ ')' :: (s ++ ['0'])))

variable {f g w w' : Text}

theorem fold_versus (f s g : Text) :
    Surface.fold (versus f s g) = versus (Surface.fold f) (Surface.fold s) (Surface.fold g) := by
  have hleft := Surface.fold_group [] f (s ++ '(' :: (g ++ [')']))
  have hright := Surface.fold_group s g []
  rw [hright] at hleft
  exact hleft

theorem fold_margin (f s g : Text) :
    Surface.fold (margin f s g) = margin (Surface.fold f) (Surface.fold s) (Surface.fold g) := by
  have hleft := Surface.fold_group [] f ('-' :: '(' :: (g ++ ')' :: (s ++ ['0'])))
  have hright := Surface.fold_group ['-'] g (s ++ ['0'])
  have hzero : Surface.fold (s ++ ['0']) = Surface.fold s ++ ['0'] :=
    Surface.foldBy_append_cons (by decide) s []
  rw [List.singleton_append] at hright
  rw [hright, hzero] at hleft
  exact hleft

theorem parsed_versus (hx : Parsed 0 x w) (hy : Parsed 0 y w') :
    Parsed 0 (binary op x y) (versus w [op.symbol] w') := by
  have h : Parsed 0 (binary op x y) _ := Parsed.binary (Nat.zero_le _) hx.bracket hy.bracket
  simpa [versus] using h

/-- A comparison binds less than the difference on its left. -/
theorem parsed_margin (hop : op ∈ BinaryOp.comparisons) (hx : Parsed 0 x w) (hy : Parsed 0 y w') :
    Parsed 0 (binary op (binary .subtract x y) (leaf ['0'])) (margin w [op.symbol] w') := by
  have hdiff : Parsed op.priority (binary .subtract x y) (versus w ['-'] w') := by
    have h := Parsed.binary (BinaryOp.priority_le_of_mem_comparisons hop) hx.bracket hy.bracket
    simpa [versus, BinaryOp.symbol] using h
  have hzero : Unsigned ['0'] := by decide
  have h : Parsed 0 (binary op _ (leaf ['0'])) _ := Parsed.binary (Nat.zero_le _) hdiff (.leaf hzero)
  simpa [versus, margin] using h

/-- Two valid formulas that have a value are compared exactly, whatever the precision. -/
theorem exists_answer_versus {settings : Settings} (hc : settings.precision = c.precision)
    (hmax : c.precision ≤ Context.maxPrecision) {v v' : Text} (hf : Tree.invalid? f = none)
    (hv : detailed c.precision f = .ok v) (hg : Tree.invalid? g = none)
    (hv' : detailed c.precision g = .ok v') :
    ∃ o : Ordering, ∀ op ∈ BinaryOp.comparisons, ∀ s, Surface.fold s = [op.symbol] →
      answer settings (versus f s g) = .ok (if op.accepts o then ['1'] else ['0']) ∧
      ((Surface.fold (margin f s g)).length * c.precision ≤ 999999 →
        answer settings (margin f s g) = .ok (if op.accepts o then ['1'] else ['0'])) := by
  obtain ⟨x, l, a, hx, hlx, hl, ha⟩ := exists_parsed hmax hf hv
  obtain ⟨y, r, b, hy, hly, hr, hb⟩ := exists_parsed hmax hg hv'
  have hleaves : ∀ l ∈ x.leaves ++ y.leaves, Unsigned l := by
    intro l hmem
    exact (List.mem_append.mp hmem).elim (hlx l) (hly l)
  refine ⟨compare a.toRat b.toRat, fun op hop s hs => ⟨?_, fun hn => ?_⟩⟩
  · have hfold := fold_versus f s g
    rw [hs] at hfold
    exact answer_of_comparison hc hmax hfold (parsed_versus hx hy) hleaves
      (evaluate_comparison hop hl hr ha hb)
  · have hfold := fold_margin f s g
    rw [hs] at hfold
    have hparsed := parsed_margin hop hx hy
    rw [hfold] at hn
    -- The difference is a part of the formula, so it is of moderate size, too.
    have hextent : extent (binary .subtract x y).postOrder * c.precision ≤ 999999 := by
      have hle := Tree.extent_labels_le (hparsed.tree [])
      rw [labels_toTree, postOrder, extent_append] at hle
      have hpart : extent (binary .subtract x y).postOrder ≤ _ := (Nat.le_add_right ..).trans hle
      exact (Nat.mul_le_mul_right _ hpart).trans hn
    have heval := evaluate_margin hop hleaves hl hr ha hb hextent
    refine answer_of_comparison hc hmax hfold hparsed (fun l hmem => ?_) heval
    rcases List.mem_append.mp hmem with hmem | hmem
    · exact hleaves l hmem
    · obtain rfl := List.mem_singleton.mp hmem
      decide

/-- **Comparison agrees with rounded subtraction.** Under valid settings, for two valid formulas
that have a value and every comparison, however it is spelled, if the characters of the folded
comparison of their difference with zero times the precision are in the range of the exponents, this
comparison and the one of the two formulas have the same answer, which is one or zero. Whether the
first formula is less than, equal to or greater than the second, exactly one of these is answered by
one. -/
theorem answer_versus (settings : Settings) (hs : settings.Valid) {f g v v' : Text}
    (hf : Tree.invalid? f = none) (hv : detailed settings.precision f = .ok v)
    (hg : Tree.invalid? g = none) (hv' : detailed settings.precision g = .ok v') :
    (∀ op ∈ BinaryOp.comparisons, ∀ s, Surface.fold s = [op.symbol] →
      (Surface.fold (margin f s g)).length * settings.precision ≤ 999999 →
        ∃ t ∈ [['1'], ['0']],
          answer settings (versus f s g) = .ok t ∧ answer settings (margin f s g) = .ok t) ∧
      ∃! op, op ∈ [BinaryOp.less, .equal, .greater] ∧
        answer settings (versus f [op.symbol] g) = .ok ['1'] := by
  obtain ⟨c, hc, hle⟩ := settings.exists_context hs
  rw [hc] at hv hv' ⊢
  obtain ⟨o, ho⟩ := exists_answer_versus hc (hle.trans (by decide)) hf hv hg hv'
  constructor
  · intro op hop s hs hn
    obtain ⟨hversus, hmargin⟩ := ho op hop s hs
    refine ⟨_, ?_, hversus, hmargin (by exact_mod_cast hn)⟩
    split <;> decide
  · have hfold : ∀ op ∈ [BinaryOp.less, .equal, .greater],
        op ∈ BinaryOp.comparisons ∧ Surface.fold [op.symbol] = [op.symbol] := by decide
    have hiff : ∀ op, (op ∈ [BinaryOp.less, .equal, .greater] ∧
        answer settings (versus f [op.symbol] g) = .ok ['1']) ↔
          op ∈ [BinaryOp.less, .equal, .greater] ∧ op.accepts o = true := by
      refine fun op => and_congr_right fun hop => ?_
      obtain ⟨hmem, hsymbol⟩ := hfold op hop
      rw [(ho op hmem _ hsymbol).1]
      cases op.accepts o <;> decide
    simp only [hiff]
    exact BinaryOp.existsUnique_accepts o

/-- At one digit, a sum that is rounded, and a literal whose difference to it is rounded as well. -/
theorem answer_versus_sum :
    let settings : Settings := { precision := 1 }
    let f := ['9', '+', '9']
    let g := ['.', '5']
    let s := [' ', '>', '=', ' ']
    (settings.Valid ∧ Tree.invalid? f = none ∧ detailed settings.precision f = .ok ['2', '0'] ∧
      Tree.invalid? g = none ∧ detailed settings.precision g = .ok ['0', '.', '5'] ∧
      BinaryOp.atLeast ∈ BinaryOp.comparisons ∧ Surface.fold s = [BinaryOp.atLeast.symbol] ∧
      (Surface.fold (margin f s g)).length * settings.precision ≤ 999999) ∧
      (∃ t ∈ [['1'], ['0']],
        answer settings (versus f s g) = .ok t ∧ answer settings (margin f s g) = .ok t) ∧
      ∃! op, op ∈ [BinaryOp.less, .equal, .greater] ∧
        answer settings (versus f [op.symbol] g) = .ok ['1'] := by
  intro settings f g s
  have hs : settings.Valid := by decide
  have hf : Tree.invalid? f = none := by cbv
  have hv : detailed 1 f = .ok ['2', '0'] := by cbv
  have hg : Tree.invalid? g = none := by cbv
  have hv' : detailed 1 g = .ok ['0', '.', '5'] := by cbv
  have hop : BinaryOp.atLeast ∈ BinaryOp.comparisons := by decide
  have hfold : Surface.fold s = [BinaryOp.atLeast.symbol] := by decide
  have hn : (Surface.fold (margin f s g)).length * settings.precision ≤ 999999 := by decide
  obtain ⟨hall, hone⟩ := answer_versus settings hs hf hv hg hv'
  exact ⟨⟨hs, hf, hv, hg, hv', hop, hfold, hn⟩, hall _ hop s hfold hn, hone⟩

end Calculator

end Reckon

import Reckon.Proofs.Calculator.Validity

/-!
# Literals as formulas

A literal in brackets is its own value, unless it has a minus: a literal without a sign is a leaf,
and one with a plus has no tree, and neither of them is given to the machine. But a minus is a
negation, which is rounded to the precision, and which can overflow. So a literal with a minus is
its own value exactly if its notation is that of a number that fits into the context.

## Main results

* `answer_bracketed`: brackets around a formula do not matter
* `answer_minus_literal`: the answer to a literal with a minus
* `answer_literal`: which literals are their own values
-/

namespace Reckon

open Brackets Decimal Nesting

theorem Surface.fold_bracketed (k : Nat) (t : Text) :
    fold (bracketed k t) = bracketed k (fold t) := by
  induction k with
  | zero => rw [bracketed_zero, bracketed_zero]
  | succ k ih =>
    have hgroup : fold ('(' :: (bracketed k t ++ [')'])) = '(' :: (fold (bracketed k t) ++ [')']) :=
      fold_group [] (bracketed k t) []
    rw [bracketed_succ, hgroup, ih, bracketed_succ]

/-- The context of a precision that settings may ask for. -/
theorem Settings.exists_context {s : Settings} (h : s.Valid) :
    ∃ c : Context, s.precision = c.precision ∧ c.precision ≤ 999 := by
  obtain ⟨h1, h999⟩ := h
  rw [Settings.minPrecision] at h1
  rw [Settings.maxPrecision] at h999
  exact ⟨⟨s.precision.toNat, by omega⟩, by dsimp only; omega, by dsimp only; omega⟩

namespace Calculator

variable {settings : Settings}

/-! ## Brackets -/

theorem toAnswer_placed (messages : Messages) (o : Except Stop Text) (f g : Text) :
    toAnswer messages (o.mapError (placed f)) = toAnswer messages (o.mapError (placed g)) := by
  match o with
  | .ok v => rfl
  | .error (.failure failure) => rfl
  | .error (.fault x) => rfl

/-- The answer to a formula depends on what it is normalized to. -/
theorem answer_congr (settings : Settings) {f g : Text}
    (h : Brackets.normalize f = Brackets.normalize g) : answer settings f = answer settings g := by
  have htree : Tree.ofFormula f = Tree.ofFormula g := by rw [Tree.ofFormula, h, Tree.ofFormula]
  have hbalanced : balanced f = balanced g := by
    rw [← balanced_normalize f, h, balanced_normalize]
  rw [answer, answer, detailed, detailed, hbalanced, htree, h]
  split
  · cases Tree.ofFormula g with
    | ok t => exact toAnswer_placed settings.messages (ofTree settings.precision t) f g
    | error failure => rfl
  · rfl

/-- Brackets around a balanced formula do not matter. -/
theorem answer_bracketed (settings : Settings) {f : Text} (hf : balanced f = true) (k : Nat) :
    answer settings (bracketed k f) = answer settings f := by
  refine answer_congr settings ?_
  rw [Brackets.normalize, Surface.fold_bracketed, strip_pairs ((Surface.balanced_fold f).trans hf)]
  rfl

/-! ## Literals -/

theorem answer_of_detailed {f v : Text} (h : detailed settings.precision f = .ok v) :
    answer settings f = .ok v := by
  rw [answer, h]
  rfl

/-- A literal has no brackets. -/
theorem balanced_of_isLiteral {n : Text} (h : isLiteral n = true) : balanced n = true := by
  have hu {u : Text} (hu : Unsigned u) : ∀ c ∈ u, isBracket c = false := fun c => hu.not_isBracket
  refine balanced_of_not_isBracket ?_
  rcases unsigned_or_signed h with ht | ⟨u, ht, rfl | rfl⟩
  · exact hu ht
  · exact List.forall_mem_cons.mpr ⟨rfl, hu ht⟩
  · exact List.forall_mem_cons.mpr ⟨rfl, hu ht⟩

/-- A literal without a sign is its own value, at any precision. -/
theorem detailed_unsigned (precision : Int) {n v : Text} (hn : Unsigned n)
    (hv : canonical? n = some v) : detailed precision n = .ok v := by
  obtain ⟨a, ha, hvalue⟩ := exists_ofTree_leaf precision hn.1
  rw [canonical?, ha] at hv
  obtain rfl := Option.some.inj hv
  rw [detailed_of_parsed (Surface.Folds.literal hn).fold_eq (.leaf hn) (n := 0)]
  exact mapError_eq_ok.mpr hvalue

/-- A text with a plus in front has no brackets around it. -/
theorem normalize_of_plus {f w : Text} (hf : Surface.fold f = '+' :: w) :
    Brackets.normalize f = '+' :: w := by
  rw [Brackets.normalize, hf]
  refine strip_of_not_enclosed fun he => ?_
  obtain ⟨g, -, hg⟩ := enclosed_iff.mp he
  exact absurd (List.cons.inj hg).1 (by decide)

/-- What is folded into a literal with a plus has the value of the literal, at any precision. -/
theorem detailed_plus_literal (precision : Int) {f u : Text} {a : Decimal} (hu : Unsigned u)
    (ha : ofLiteral? u = some a) (hf : Surface.fold f = '+' :: u) :
    detailed precision f = .ok a.plain := by
  have hn := normalize_of_plus hf
  obtain ⟨v, hv, hd⟩ := detailed_of_plus precision hn hu
  rw [hn, canonical?, ofLiteral?_plus hu, ha] at hv
  rw [hd, Option.some.inj hv]

/-- A literal with a minus is the negation of the literal, rounded to the precision. -/
theorem answer_minus_literal {c : Context} (hc : settings.precision = c.precision)
    (hmax : c.precision ≤ Context.maxPrecision) {u : Text} {a : Decimal} (hu : Unsigned u)
    (ha : ofLiteral? u = some a) :
    answer settings ('-' :: u) = ((a.negate c).map plain).mapError .signal := by
  have hp : Expression.Parsed 0 (.negation (.leaf u)) ('-' :: u) :=
    (Expression.Parsed.leaf hu).negation (Nat.zero_le _)
  have hvalue : ofTree c.precision (Expression.negation (.leaf u)).toTree =
      (Machine.opposite c a).map plain := by
    have hleaf : ∀ l ∈ (Expression.negation (.leaf u)).leaves, Operator.ofText? l = none :=
      List.forall_mem_singleton.mpr hu.ofText?_eq_none
    rw [ofTree_toTree hmax (fun l hl => by cases hl) hleaf, Expression.evaluate,
      Expression.evaluate, if_pos hu.1]
    exact Machine.negated_eq_map_opposite ha
  rw [answer, hc, detailed_of_parsed (Surface.fold_minus_literal hu) hp, hvalue, Machine.opposite]
  cases a.negate c with
  | ok r => rfl
  | error s => rfl

/-- **Which literals are their own values.** Under valid settings, a literal in any number of
brackets is answered by its canonical text if it has no minus. A literal with a minus is answered by
the negation of what follows the minus, rounded to the precision; that is the canonical text exactly
if it is the notation of a number that fits into the context. -/
theorem answer_literal (settings : Settings) (hs : settings.Valid) (k : Nat) {n v : Text}
    (hv : canonical? n = some v) :
    (n.head? ≠ some '-' → answer settings (bracketed k n) = .ok v) ∧
      ∀ u, n = '-' :: u → ∃ (c : Context) (a : Decimal), settings.precision = c.precision ∧
        ofLiteral? u = some a ∧
        answer settings (bracketed k n) = ((a.negate c).map plain).mapError .signal ∧
        (answer settings (bracketed k n) = .ok v ↔ ∃ r, c.Fits r ∧ r.plain = v) := by
  have hl : isLiteral n = true := by
    obtain ⟨a, ha, -⟩ := Option.map_eq_some_iff.mp hv
    rw [isLiteral, ha]
    rfl
  rw [answer_bracketed settings (balanced_of_isLiteral hl)]
  constructor
  · intro hminus
    refine answer_of_detailed ?_
    rcases unsigned_or_signed hl with hu | ⟨u, hu, rfl | rfl⟩
    · exact detailed_unsigned _ hu hv
    · obtain ⟨a, ha, rfl⟩ := Option.map_eq_some_iff.mp hv
      rw [ofLiteral?_plus hu] at ha
      exact detailed_plus_literal _ hu ha (Surface.fold_plus_literal hu)
    · exact absurd rfl hminus
  · rintro u rfl
    obtain ⟨c, hc, hle⟩ := settings.exists_context hs
    obtain ⟨a, hu, ha⟩ : ∃ a, Unsigned u ∧ ofLiteral? u = some a := by
      rcases unsigned_or_signed hl with hu | ⟨u', hu, h | h⟩
      · exact absurd rfl hu.2.2
      · exact absurd (List.cons.inj h).1 (by decide)
      · obtain rfl := (List.cons.inj h).2
        obtain ⟨a, ha⟩ := Option.isSome_iff_exists.mp hu.1
        exact ⟨a, hu, ha⟩
    have hplain : a.opposite.plain = v := by
      rw [canonical?, ofLiteral?_minus hu, ha] at hv
      exact Option.some.inj hv
    have hanswer := answer_minus_literal hc (hle.trans (by decide)) hu ha
    refine ⟨c, a, hc, ha, hanswer, ?_⟩
    rw [hanswer, mapError_eq_ok, map_eq_ok, ← hplain]
    exact exists_negate_iff (hu.settled ha).2

/-- At two digits, a literal with a plus and three digits and one with a minus and two digits are
their own values. -/
theorem answer_literal_two :
    let settings : Settings := { precision := 2 }
    (settings.Valid ∧ canonical? ['+', '1', '2', '5'] = some ['1', '2', '5'] ∧
        ['+', '1', '2', '5'].head? ≠ some '-' ∧
        canonical? ['-', '.', '5', '0'] = some ['-', '0', '.', '5', '0']) ∧
      answer settings (bracketed 3 ['+', '1', '2', '5']) = .ok ['1', '2', '5'] ∧
      answer settings (bracketed 1 ['-', '.', '5', '0']) = .ok ['-', '0', '.', '5', '0'] := by
  intro settings
  have hs : settings.Valid := by decide
  have hplus : canonical? ['+', '1', '2', '5'] = some ['1', '2', '5'] := by decide
  have hhead : ['+', '1', '2', '5'].head? ≠ some '-' := by decide
  have hminus : canonical? ['-', '.', '5', '0'] = some ['-', '0', '.', '5', '0'] := by decide
  refine ⟨⟨hs, hplus, hhead, hminus⟩, (answer_literal settings hs 3 hplus).1 hhead, ?_⟩
  obtain ⟨c, a, hc, ha, -, hiff⟩ := (answer_literal settings hs 1 hminus).2 _ rfl
  obtain rfl : c = ⟨2, by decide⟩ := by
    obtain ⟨p, hpos⟩ := c
    have hp : (p : Int) = 2 := hc.symm
    obtain rfl : p = 2 := by omega
    rfl
  exact hiff.mpr ⟨⟨true, 50, -2⟩, ⟨by decide, by decide, fun _ => by decide⟩, by decide⟩

/-- At two digits, three digits after a minus are rounded. -/
theorem answer_minus_rounded :
    let settings : Settings := { precision := 2 }
    let n := ['-', '1', '2', '5']
    isLiteral n = true ∧ '\n' ∉ n ∧ settings.Valid ∧ canonical? n = some n ∧
      answer settings (bracketed 0 n) = .ok ['-', '1', '2', '0'] ∧
      answer settings (bracketed 0 n) ≠ .ok n := by
  intro settings n
  have hanswer : answer settings (bracketed 0 n) = .ok ['-', '1', '2', '0'] := by cbv
  refine ⟨by decide, by decide, by decide, by decide, hanswer, ?_⟩
  rw [hanswer]
  decide

end Calculator

end Reckon

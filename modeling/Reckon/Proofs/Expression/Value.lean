import Reckon.Proofs.Calculator.Language
import Reckon.Proofs.Decimal.Padding
import Reckon.Proofs.Machine.Operation

/-!
# Evaluation without texts

The machine writes every result as a text and reads it again when it is used. Writing loses the
exponent of a number and the sign of zero, but not its value, and the values of results depend on
the values of the operands only. So the machine yields what is yielded when the numbers themselves
are passed on.

## Main definitions

* `Expression.value`: the number that an expression yields, without texts in between
* `Follows R o o'`: results that `R` relates, or the same stop
* `SameOutcome`: results of the same value and notation, the same failure, or overflows

## Main results

* `follows_evaluate`: texts stand for numbers of the same value along the evaluation
* `sameOutcome_run`: the machine yields what the evaluation without texts yields
-/

namespace Reckon

open Decimal

namespace Expression

/-- The number that an expression yields in a context, or what stops its evaluation, where every
operator passes on its result as it is. -/
def value (c : Context) : Expression → Except Stop Decimal
  | leaf l => (ofLiteral? l).elim (Machine.fail .unrecognized (some l)) .ok
  | negation x => (x.value c).bind (Machine.opposite c)
  | binary op x y =>
    (x.value c).bind fun a => (y.value c).bind fun b => Machine.operate c op a b

end Expression

/-! ## Texts that stand for numbers -/

/-- Both outcomes are results that `R` relates, or the same stop. -/
inductive Follows {α β : Type} (R : α → β → Prop) : Except Stop α → Except Stop β → Prop where
  | ok {a : α} {b : β} (related : R a b) : Follows R (.ok a) (.ok b)
  | error (s : Stop) : Follows R (.error s) (.error s)

theorem Follows.bind {α β γ δ : Type} {R : α → β → Prop} {S : γ → δ → Prop} {o : Except Stop α}
    {o' : Except Stop β} (h : Follows R o o') {f : α → Except Stop γ} {g : β → Except Stop δ}
    (hfg : ∀ a b, R a b → Follows S (f a) (g b)) : Follows S (o.bind f) (o'.bind g) := by
  cases h with
  | ok hab => exact hfg _ _ hab
  | error s => exact .error s

/-- A text is read as a number of the same value. -/
def Denotes (t : Text) (a : Decimal) : Prop := ∃ b, ofLiteral? t = some b ∧ b.toRat = a.toRat

/-- Of results with the same value, one may be written. -/
theorem follows_plain {o o' : Except Stop Decimal} (h : o.map toRat = o'.map toRat) :
    Follows Denotes (o.map plain) o' := by
  cases o with
  | ok r =>
    obtain ⟨r', rfl, hr⟩ := map_eq_ok.mp h.symm
    exact .ok ⟨r.settled, ofLiteral?_plain r, by rw [toRat_settled, hr]⟩
  | error s =>
    rw [map_eq_error.mp h.symm]
    exact .error s

variable {c : Context}

theorem follows_negated {t : Text} {a : Decimal} (h : Denotes t a) :
    Follows Denotes (Machine.negated c t) (Machine.opposite c a) := by
  obtain ⟨b, hb, hv⟩ := h
  rw [Machine.negated_eq_map_opposite hb]
  exact follows_plain (Machine.opposite_congr hv)

theorem follows_combine (op : BinaryOp) {left right : Text} {a b : Decimal} (hl : Denotes left a)
    (hr : Denotes right b) :
    Follows Denotes (Machine.combine c op left right) (Machine.operate c op a b) := by
  obtain ⟨a', ha', hva⟩ := hl
  obtain ⟨b', hb', hvb⟩ := hr
  rw [Machine.combine_eq_map_operate ha' hb']
  exact follows_plain (Machine.operate_congr op hva hvb)

/-- Along the evaluation of an expression of literals, every text stands for the number that is
passed on without texts. -/
theorem follows_evaluate {e : Expression} (he : ∀ l ∈ e.leaves, isLiteral l = true) :
    Follows Denotes (e.evaluate c) (e.value c) := by
  induction e with
  | leaf l =>
    have hl := he l (List.mem_singleton_self l)
    obtain ⟨a, ha⟩ := Option.isSome_iff_exists.mp hl
    rw [Expression.evaluate, if_pos hl, Expression.value, ha]
    exact .ok ⟨a, ha, rfl⟩
  | negation x ih => exact (ih he).bind fun _ _ => follows_negated
  | binary op x y ihx ihy =>
    have hx := ihx fun l hl => he l (List.mem_append_left _ hl)
    have hy := ihy fun l hl => he l (List.mem_append_right _ hl)
    exact hx.bind fun _ _ hl => hy.bind fun _ _ hr => follows_combine op hl hr

/-! ## The machine -/

/-- Both outcomes are numbers of the same value, written alike up to zeros at the end of the
fraction, or the same failure, or both are an overflow that is not answered as a failure. -/
inductive SameOutcome : Except Stop Decimal → Except Stop Decimal → Prop where
  | number {a b : Decimal} (value : a.toRat = b.toRat)
      (written : Padded a.plain b.plain ∨ Padded b.plain a.plain) : SameOutcome (.ok a) (.ok b)
  | failure (f : Failure) : SameOutcome (.error (.failure f)) (.error (.failure f))
  | overflow : SameOutcome (.error (.fault (.signal .overflow)))
      (.error (.fault (.signal .overflow)))

/-- **Writing intermediate results loses no value.** On the post-order of an expression of literals,
at any precision that settings may ask for, the machine yields a number of the value that is yielded
without texts in between, or is stopped by the same failure, or by an overflow like it. -/
theorem sameOutcome_run (e : Expression) (hc : c.precision ≤ 999)
    (he : ∀ l ∈ e.leaves, isLiteral l = true) :
    SameOutcome (Machine.run c.precision e.toTree.postOrder) (e.value c) := by
  have hop : ∀ l ∈ e.leaves, Operator.ofText? l = none := fun l hl =>
    ofText?_of_isLiteral (he l hl)
  have hrun := Machine.run_eq_evaluate c (hc.trans (by decide)) e hop
  have hfollows : Follows Denotes (e.evaluate c) (e.value c) := follows_evaluate he
  generalize hv : e.value c = v at hfollows
  generalize ht : e.evaluate c = t at hrun hfollows
  cases hfollows with
  | ok related =>
    obtain ⟨a, ha, hva⟩ := related
    rw [hrun]
    show SameOutcome (Machine.result [_]) _
    rw [Machine.result_singleton ha]
    exact .number hva (padded_plain hva)
  | error s =>
    rw [hrun]
    cases Calculator.numeric_evaluate he ht with
    | division => exact .failure _
    | overflow op => exact .failure _
    | fault => exact .overflow

/-- A quotient with a positive exponent, which is written without one; the product of what is read
again has a zero more. -/
theorem sameOutcome_run_quotient :
    let c : Context := ⟨9, by decide⟩
    let e : Expression := .binary .multiply
      (.binary .divide (.leaf ['1']) (.leaf ['0', '.', '0', '0', '1'])) (.leaf ['1', '.', '0'])
    (c.precision ≤ 999 ∧ ∀ l ∈ e.leaves, isLiteral l = true) ∧
      (Machine.run 9 e.toTree.postOrder).map plain = .ok ['1', '0', '0', '0', '.', '0'] ∧
      (e.value c).map plain = .ok ['1', '0', '0', '0'] ∧
      SameOutcome (Machine.run 9 e.toTree.postOrder) (e.value c) := by
  intro c e
  have h : c.precision ≤ 999 ∧ ∀ l ∈ e.leaves, isLiteral l = true := by decide
  have hrun : (Machine.run 9 e.toTree.postOrder).map plain =
      .ok ['1', '0', '0', '0', '.', '0'] := by
    rw [Expression.postOrder_toTree]
    decide
  exact ⟨h, hrun, by decide, sameOutcome_run e h.1 h.2⟩

end Reckon

import Mathlib.Data.List.Forall2
import Reckon.Proofs.Machine.Refinement
import Reckon.Proofs.Tree.Filling

/-!
# The machine reads numbers

Two texts that are read as the same number cannot be told apart by the machine: on stacks of such
texts the same tokens leave such stacks again, or stop with failures of the same kind or the same
fault. So neither can two trees that differ in parts which cannot be told apart.

## Main definitions

* `Machine.SameNumbers`: stacks that are read as the same numbers
* `Machine.Agree R o o'`: both runs yield results that `R` relates, or stop with the same answer
* `Machine.Interchangeable c x y`: the tokens of two trees agree

## Main results

* `agree_step`, `agree_foldlM`: the same tokens on stacks of the same numbers
* `interchangeable_filled`: if two trees are interchangeable, so are the trees around them
* `agree_run`: the results of interchangeable trees
-/

namespace Reckon

namespace Machine

open Decimal

/-! ## Runs that agree -/

/-- Both outcomes are results that `R` relates, failures of the same kind, or the same fault. -/
inductive Agree {α : Type} (R : α → α → Prop) : Except Stop α → Except Stop α → Prop where
  | ok {a b : α} : R a b → Agree R (.ok a) (.ok b)
  | failure {f f' : Failure} : f.cause.kind = f'.cause.kind →
      Agree R (.error (.failure f)) (.error (.failure f'))
  | fault (f : Fault) : Agree R (.error (.fault f)) (.error (.fault f))

namespace Agree

variable {α β : Type} {R : α → α → Prop} {S : β → β → Prop} {o o' : Except Stop α}

theorem refl (hR : ∀ a, R a a) (o : Except Stop α) : Agree R o o := by
  match o with
  | .ok a => exact .ok (hR a)
  | .error (.failure f) => exact .failure rfl
  | .error (.fault f) => exact .fault f

theorem bind (h : Agree R o o') {f g : α → Except Stop β}
    (hf : ∀ a b, R a b → Agree S (f a) (g b)) : Agree S (o.bind f) (o'.bind g) := by
  cases h with
  | ok hab => exact hf _ _ hab
  | failure hk => exact .failure hk
  | fault f => exact .fault f

theorem map (h : Agree R o o') {f g : α → β} (hf : ∀ a b, R a b → S (f a) (g b)) :
    Agree S (o.map f) (o'.map g) := by
  cases h with
  | ok hab => exact .ok (hf _ _ hab)
  | failure hk => exact .failure hk
  | fault f => exact .fault f

end Agree

/-! ## Stacks of the same numbers -/

/-- Two stacks are read as the same numbers. -/
abbrev SameNumbers : List Text → List Text → Prop :=
  List.Forall₂ fun t t' => ofLiteral? t = ofLiteral? t'

variable (c : Context)

theorem negated_congr {t t' : Text} (h : ofLiteral? t = ofLiteral? t') :
    negated c t = negated c t' := by
  rw [negated, negated, h]

theorem combine_congr (op : BinaryOp) {l l' r r' : Text} (hl : ofLiteral? l = ofLiteral? l')
    (hr : ofLiteral? r = ofLiteral? r') : combine c op l r = combine c op l' r' := by
  rw [combine, combine, hl, hr]

/-- One token on stacks of the same numbers. -/
theorem agree_step {stack stack' : List Text} (h : SameNumbers stack stack') (token : Text) :
    Agree SameNumbers (step c stack token) (step c stack' token) := by
  cases ho : Operator.ofText? token with
  | none =>
    simp only [step, ho]
    split
    · exact .ok (.cons rfl h)
    · exact .failure rfl
  | some o =>
    cases o with
    | negation =>
      cases h with
      | nil => simpa only [step, ho] using .failure rfl
      | cons ht hs =>
        simp only [step, ho, negated_congr c ht]
        exact (Agree.refl (R := Eq) (fun _ => rfl) _).map fun a b hab => .cons (by rw [hab]) hs
    | binary op =>
      cases h with
      | nil => simpa only [step, ho] using .failure rfl
      | cons hr h =>
        cases h with
        | nil => simpa only [step, ho] using .failure rfl
        | cons hl hs =>
          simp only [step, ho, combine_congr c op hl hr]
          exact (Agree.refl (R := Eq) (fun _ => rfl) _).map fun a b hab => .cons (by rw [hab]) hs

/-- The same tokens on stacks of the same numbers. -/
theorem agree_foldlM (tokens : List Text) {stack stack' : List Text}
    (h : SameNumbers stack stack') :
    Agree SameNumbers (tokens.foldlM (step c) stack) (tokens.foldlM (step c) stack') := by
  induction tokens generalizing stack stack' with
  | nil => exact .ok h
  | cons token tokens ih => exact (agree_step c h token).bind fun _ _ hs => ih hs

/-- The numbers that two stacks of the same numbers hold at the end. -/
theorem agree_result {stack stack' : List Text} (h : SameNumbers stack stack') :
    Agree Eq (result stack) (result stack') := by
  cases h with
  | nil => exact .failure rfl
  | @cons t t' _ _ ht hs =>
    cases hs with
    | nil =>
      rw [result, result, ht]
      exact .refl (fun _ => rfl) _
    | cons => exact .failure rfl

/-! ## Trees that differ by a replacement -/

variable {x y : Tree}

theorem step_of_bracket_mem {l : Text} (h : '(' ∈ l) (stack : List Text) :
    step c stack l = fail .unrecognized (some l) := by
  have hop : Operator.ofText? l = none := by
    match l with
    | [] => rfl
    | _ :: _ :: _ => rfl
    | [d] =>
      obtain rfl : '(' = d := by simpa using h
      rfl
  have hl : ¬ isLiteral l = true := fun hl => bracket_notMem_of_isLiteral hl h
  rw [step_leaf c hop, if_neg hl]

/-- The tokens of two trees agree on all stacks of the same numbers. -/
def Interchangeable (x y : Tree) : Prop := ∀ stack stack', SameNumbers stack stack' →
  Agree SameNumbers (x.labels.foldlM (step c) stack) (y.labels.foldlM (step c) stack')

/-- If two trees are interchangeable, so are the trees around them. -/
theorem interchangeable_filled (hxy : Interchangeable c x y) {t t' : Tree}
    (h : Tree.Filled x y t t') : Interchangeable c t t' := by
  induction h with
  | hole => exact hxy
  | same t => exact fun stack stack' hs => agree_foldlM c t.labels hs
  | junk hl hl' =>
    intro stack stack' _
    rw [Tree.labels, Tree.labels, foldlM_singleton, foldlM_singleton, step_of_bracket_mem c hl,
      step_of_bracket_mem c hl']
    exact .failure rfl
  | unary label _ ih =>
    intro stack stack' hs
    rw [Tree.labels, Tree.labels, List.foldlM_append, List.foldlM_append]
    exact (ih stack stack' hs).bind fun _ _ hs => agree_foldlM c [label] hs
  | binary label _ _ ihl ihr =>
    intro stack stack' hs
    rw [Tree.labels, Tree.labels, List.foldlM_append, List.foldlM_append]
    refine (ihl stack stack' hs).bind fun _ _ hs => ?_
    rw [List.foldlM_append, List.foldlM_append]
    exact (ihr _ _ hs).bind fun _ _ hs => agree_foldlM c [label] hs

/-- The results of interchangeable trees, at a precision that need not be in range. -/
theorem agree_run {precision : Int}
    (hxy : ∀ c, Context.ofPrecision? precision = some c → Interchangeable c x y) :
    Agree Eq (run precision x.postOrder) (run precision y.postOrder) := by
  rw [Tree.postOrder_eq, Tree.postOrder_eq]
  cases hp : Context.ofPrecision? precision with
  | none =>
    rw [run, run, hp]
    exact .fault _
  | some c =>
    rw [run, run, hp]
    exact (hxy c hp [] [] .nil).bind fun _ _ hs => agree_result hs

end Machine

end Reckon

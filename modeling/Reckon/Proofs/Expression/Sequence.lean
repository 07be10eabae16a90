import Mathlib
import Reckon.Proofs.Calculator.Language
import Reckon.Proofs.Failure

/-!
# The sequences that the machine accepts

The machine does not look for a tree in its tokens, and yet it accepts no others than the
post-orders of trees that can be evaluated: for every text on the stack there is a tree whose labels
have been read. The tree is determined by its post-order, because the last token tells the root and
with it how many operands come before. On the post-order of such a tree the machine can only be
stopped by the numbers.

## Main definitions

* `Tree.WellFormed`: trees of literals, negations of one operand and binary operators of two
* `Machine.Built tokens stack`: the tokens are the labels of such trees, one for each text

## Main results

* `WellFormed.append_labels_inj`: a tree is determined by its labels, whatever comes before them
* `built_step`, `built_of_foldlM`: what the machine has read are labels of trees
* `existsUnique_tree`: the sequences that the machine accepts
-/

namespace Reckon

open Decimal

namespace Tree

/-- The trees that can be evaluated: a leaf is a literal, a negation has one operand, on its right,
and every other node is a binary operator with two. -/
inductive WellFormed : Tree → Prop where
  | leaf {l : Text} (literal : isLiteral l = true) : WellFormed (.leaf l)
  | negation {t : Tree} : WellFormed t → WellFormed (.unary negationLabel t)
  | binary (op : BinaryOp) {l r : Tree} :
      WellFormed l → WellFormed r → WellFormed (.binary [op.symbol] l r)

/-- The trees that can be evaluated are those of the expressions of literals. -/
theorem WellFormed.exists_expression {t : Tree} (h : t.WellFormed) :
    ∃ e : Expression, t = e.toTree ∧ ∀ l ∈ e.leaves, isLiteral l = true := by
  induction h with
  | @leaf l hl => exact ⟨.leaf l, rfl, List.forall_mem_singleton.mpr hl⟩
  | negation _ ih =>
    obtain ⟨e, rfl, he⟩ := ih
    exact ⟨.negation e, rfl, he⟩
  | binary op _ _ ihl ihr =>
    obtain ⟨x, rfl, hx⟩ := ihl
    obtain ⟨y, rfl, hy⟩ := ihr
    exact ⟨.binary op x y, rfl, List.forall_mem_append.mpr ⟨hx, hy⟩⟩

/-! ## A tree is determined by its labels -/

/-- The root of a tree is the last of its labels. -/
theorem getLast?_labels (t : Tree) : t.labels.getLast? = some t.label := by
  cases t <;> simp [labels, label]

theorem label_eq_of_append_labels {a b : List Text} {t u : Tree}
    (h : a ++ t.labels = b ++ u.labels) : t.label = u.label := by
  have hlast := congrArg List.getLast? h
  simpa [List.getLast?_append, getLast?_labels] using hlast

/-- A tree is determined by its labels, whatever comes before them. -/
theorem WellFormed.append_labels_inj {t u : Tree} (ht : t.WellFormed) (hu : u.WellFormed)
    {a b : List Text} (h : a ++ t.labels = b ++ u.labels) : a = b ∧ t = u := by
  induction ht generalizing u a b with
  | @leaf l hl =>
    -- the last token tells what the root is; here and below two of the roots cannot be
    have hroot := congrArg Operator.ofText? (label_eq_of_append_labels h)
    rw [label, ofText?_of_isLiteral hl] at hroot
    cases hu with
    | leaf =>
      obtain ⟨ha, hlabel⟩ := List.append_inj' h rfl
      exact ⟨ha, congrArg Tree.leaf (List.singleton_inj.mp hlabel)⟩
    | negation => cases hroot
    | binary op =>
      rw [label, Machine.ofText?_symbol] at hroot
      cases hroot
  | @negation t _ ih =>
    have hroot := congrArg Operator.ofText? (label_eq_of_append_labels h)
    cases hu with
    | leaf hl =>
      rw [label, label, ofText?_of_isLiteral hl] at hroot
      cases hroot
    | @negation u hu =>
      rw [labels, labels, ← List.append_assoc, ← List.append_assoc] at h
      obtain ⟨ha, rfl⟩ := ih hu (List.append_cancel_right h)
      exact ⟨ha, rfl⟩
    | binary op =>
      rw [label, label, Machine.ofText?_symbol] at hroot
      cases hroot
  | @binary op l r _ _ ihl ihr =>
    have hroot := congrArg Operator.ofText? (label_eq_of_append_labels h)
    rw [label, Machine.ofText?_symbol] at hroot
    cases hu with
    | leaf hl =>
      rw [label, ofText?_of_isLiteral hl] at hroot
      cases hroot
    | negation => cases hroot
    | @binary op' l' r' hl' hr' =>
      rw [label, Machine.ofText?_symbol] at hroot
      cases hroot
      simp only [labels, ← List.append_assoc] at h
      obtain ⟨hleft, rfl⟩ := ihr hr' (List.append_cancel_right h)
      obtain ⟨ha, rfl⟩ := ihl hl' hleft
      exact ⟨ha, rfl⟩

theorem WellFormed.postOrder_inj {t u : Tree} (ht : t.WellFormed) (hu : u.WellFormed)
    (h : t.postOrder = u.postOrder) : t = u := by
  rw [postOrder_eq, postOrder_eq] at h
  exact (ht.append_labels_inj hu (congrArg ([] ++ ·) h)).2

end Tree

namespace Machine

variable {c : Context} {precision : Int}

/-! ## What has been read -/

/-- The tokens are the labels of trees that can be evaluated, one tree for each text on the stack,
that of the top coming last. -/
inductive Built : List Text → List Text → Prop where
  | nil : Built [] []
  | cons {tokens stack : List Text} {t : Tree} (text : Text) :
      Built tokens stack → t.WellFormed → Built (tokens ++ t.labels) (text :: stack)

/-- One token more, and the trees are those of the stack again. -/
theorem built_step {tokens stack stack' : List Text} {token : Text} (hb : Built tokens stack)
    (h : step c stack token = .ok stack') : Built (tokens ++ [token]) stack' := by
  have hrule := rule_step (c := c) stack token
  generalize step c stack token = outcome at h hrule
  cases hrule with
  | push _ literal =>
    cases h
    exact hb.cons token (.leaf literal)
  | unrecognized | missing | unreadable => cases h
  | negation =>
    obtain ⟨r, -, rfl⟩ := map_eq_ok.mp h
    obtain _ | ⟨_, hstack, ht⟩ := hb
    have hnode := hstack.cons r.plain ht.negation
    rwa [Tree.labels, ← List.append_assoc] at hnode
  | @binary _ op =>
    obtain ⟨x, -, rfl⟩ := map_eq_ok.mp h
    obtain _ | ⟨_, hleft, hr⟩ := hb
    obtain _ | ⟨_, hstack, hl⟩ := hleft
    have hnode := hstack.cons x.plain (.binary op hl hr)
    rwa [Tree.labels, ← List.append_assoc, ← List.append_assoc] at hnode

theorem built_of_foldlM {tokens stack : List Text} (h : tokens.foldlM (step c) [] = .ok stack) :
    Built tokens stack :=
  holds_foldlM .nil (fun _ _ _ _ hb hs => built_step hb hs) h

/-- A sequence with a result is the post-order of a tree that can be evaluated. -/
theorem exists_tree_of_run {tokens : List Text} {a : Decimal} (h : run precision tokens = .ok a) :
    ∃ t : Tree, t.WellFormed ∧ t.postOrder = tokens := by
  obtain ⟨c, text, hs⟩ := foldlM_of_run_eq_ok h
  obtain _ | ⟨_, hnil, ht⟩ := built_of_foldlM hs
  cases hnil
  exact ⟨_, ht, Tree.postOrder_eq _⟩

/-! ## What can stop it -/

/-- On the post-order of a tree that can be evaluated, the machine only fails at its numbers. -/
theorem cause_of_wellFormed {t : Tree} (ht : t.WellFormed) {f : Failure}
    (h : run precision t.postOrder = .error (.failure f)) :
    f.cause = .divisionByZero ∨ f.cause = .arithmetic .overflow := by
  obtain ⟨e, rfl, he⟩ := ht.exists_expression
  cases hp : Context.ofPrecision? precision with
  | none =>
    rw [run, hp] at h
    cases h
  | some c =>
    obtain ⟨rfl, hc⟩ := Context.eq_precision_of_ofPrecision? hp
    rw [run_eq_evaluate c hc e fun l hl => ofText?_of_isLiteral (he l hl)] at h
    rcases bind_eq_error.mp h with h | ⟨text, ht, h⟩
    · cases Calculator.numeric_evaluate he h with
      | division => exact .inl rfl
      | overflow op => exact .inr rfl
    · obtain ⟨a, ha⟩ := Option.isSome_iff_exists.mp (isLiteral_evaluate c ht)
      rw [result_singleton ha] at h
      cases h

/-- **The sequences that the machine accepts.** If it yields a number from a sequence of tokens,
then the sequence is the post-order of exactly one tree that can be evaluated. On the post-order of
such a tree, no operator lacks an operand or meets one that is no number, every token is recognized,
and one value is left. -/
theorem existsUnique_tree (precision : Int) :
    (∀ tokens a, run precision tokens = .ok a →
      ∃! t : Tree, t.WellFormed ∧ t.postOrder = tokens) ∧
    ∀ t : Tree, t.WellFormed → ∀ failure,
      run precision t.postOrder = .error (.failure failure) →
        failure.cause.message ≠ "Missing operand" ∧
          failure.cause.message ≠ "Unrecognized token" ∧
          failure.cause.message ≠ "Operand is not a number" ∧
          ∀ n : Nat, failure.cause.message ≠
            "Expected one value after evaluation, found " ++ toString n := by
  refine ⟨fun tokens a h => ?_, fun t ht failure h => ?_⟩
  · obtain ⟨t, ht, rfl⟩ := exists_tree_of_run h
    exact ⟨t, ⟨ht, rfl⟩, fun u ⟨hu, he⟩ => hu.postOrder_inj ht he⟩
  · have hcause := cause_of_wellFormed ht h
    -- the wordings are those of causes that differ from these two
    have hother (cause : Cause) (hne : ¬ (cause = .divisionByZero ∨ cause = .arithmetic .overflow)) :
        failure.cause.message ≠ cause.message := fun hm =>
      hne (Cause.message_inj.mp hm ▸ hcause)
    exact ⟨hother .missingOperand (by simp), hother .unrecognized (by simp),
      hother .notANumber (by simp), fun n => hother (.leftover n) (by simp)⟩

/-- A product of a literal with a minus and a negation is accepted; a quotient by zero is no
sequence that lacks anything. -/
theorem existsUnique_tree_product :
    let tokens : List Text := [['-', '5'], ['2'], ['_'], ['*']]
    let quotient : Tree := .binary ['/'] (.leaf ['1']) (.leaf ['0'])
    let failure : Failure := ⟨.divisionByZero, [], some ['/']⟩
    (run 3 tokens = .ok ⟨false, 10, 0⟩ ∧ quotient.WellFormed ∧
        run 3 quotient.postOrder = .error (.failure failure)) ∧
      (∃! t : Tree, t.WellFormed ∧ t.postOrder = tokens) ∧
      failure.cause.message ≠ "Missing operand" ∧
      failure.cause.message ≠ "Unrecognized token" := by
  intro tokens quotient failure
  have hrun : run 3 tokens = .ok ⟨false, 10, 0⟩ := by cbv
  have hquotient : quotient.WellFormed :=
    .binary .divide (.leaf (by decide)) (.leaf (by decide))
  have hfailure : run 3 quotient.postOrder = .error (.failure failure) := by cbv
  obtain ⟨haccepts, hfails⟩ := existsUnique_tree 3
  obtain ⟨hmissing, hunrecognized, -⟩ := hfails quotient hquotient failure hfailure
  exact ⟨⟨hrun, hquotient, hfailure⟩, haccepts tokens _ hrun, hmissing, hunrecognized⟩

end Machine

end Reckon

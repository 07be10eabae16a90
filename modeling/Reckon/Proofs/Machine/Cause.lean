import Reckon.Proofs.Machine.Operation
import Reckon.Proofs.Machine.Success

/-!
# The causes of failures of a run

Every text on the stack is a literal, because what is pushed is one: a token that has been checked,
or a result in plain notation. So no operand is unreadable. Whether an operator finds its operands
is a matter of the height of the stack, and the tokens of a grown tree never let it sink too low;
only a negation that stands between two operands leaves a text too many.

## Main definitions

* `Machine.Blame stack token cause`: the causes for which a token can fail on a stack
* `Machine.Readable stack`: every text on the stack is a literal

## Main results

* `blame_of_step`: a token that fails is to blame
* `readable_of_foldlM`: what a run leaves is readable
* `cause_of_run`: the causes for which a run can fail, whatever the tokens
* `cause_ne_missingOperand`, `leftover_of_run`: the same for the tokens of a grown tree
-/

namespace Reckon

open Decimal

namespace Machine

variable {c : Context}

/-! ## One token -/

/-- The causes for which a token can fail on a stack. -/
inductive Blame (stack : List Text) (token : Text) : Cause → Prop where
  | unrecognized (operator : Operator.ofText? token = none) (literal : isLiteral token = false) :
      Blame stack token .unrecognized
  | missing {o : Operator} (operator : Operator.ofText? token = some o)
      (short : stack.length < o.arity) : Blame stack token .missingOperand
  | unreadable {operand : Text} (mem : operand ∈ stack) (literal : isLiteral operand = false) :
      Blame stack token .notANumber
  | division : Blame stack token .divisionByZero
  | arithmetic (s : Signal) : Blame stack token (.arithmetic s)

/-- A token that fails is to blame. -/
theorem blame_of_step {stack : List Text} {token : Text} {f : Failure}
    (h : step c stack token = .error (.failure f)) : Blame stack token f.cause := by
  have hrule := rule_step (c := c) stack token
  generalize step c stack token = outcome at h hrule
  cases hrule with
  | push => cases h
  | unrecognized operator literal =>
    cases h
    exact .unrecognized operator literal
  | missing operator short =>
    cases h
    exact .missing operator short
  | unreadable mem literal =>
    cases h
    exact .unreadable mem literal
  | negation =>
    obtain ⟨-, hf⟩ := opposite_eq_error (map_eq_error.mp h)
    cases hf
  | binary =>
    rcases operate_eq_error (map_eq_error.mp h) with ⟨-, hf⟩ | ⟨-, -, hf⟩
    · cases hf
      exact .division
    · cases hf
      exact .arithmetic _

/-! ## What is on the stack -/

/-- Every text on the stack is a literal. -/
def Readable (stack : List Text) : Prop := ∀ t ∈ stack, isLiteral t = true

theorem readable_nil : Readable [] := List.forall_mem_nil _

theorem readable_cons {t : Text} {stack : List Text} :
    Readable (t :: stack) ↔ isLiteral t = true ∧ Readable stack := List.forall_mem_cons

/-- A token leaves a readable stack readable. -/
theorem readable_step {stack stack' : List Text} {token : Text} (hr : Readable stack)
    (h : step c stack token = .ok stack') : Readable stack' := by
  have hrule := rule_step (c := c) stack token
  generalize step c stack token = outcome at h hrule
  cases hrule with
  | push _ literal =>
    cases h
    exact readable_cons.mpr ⟨literal, hr⟩
  | unrecognized | missing | unreadable => cases h
  | negation =>
    obtain ⟨r, -, rfl⟩ := map_eq_ok.mp h
    exact readable_cons.mpr ⟨isLiteral_plain r, (readable_cons.mp hr).2⟩
  | binary =>
    obtain ⟨r, -, rfl⟩ := map_eq_ok.mp h
    exact readable_cons.mpr ⟨isLiteral_plain r, (readable_cons.mp (readable_cons.mp hr).2).2⟩

/-- A run leaves a readable stack. -/
theorem readable_of_foldlM {tokens stack : List Text}
    (h : tokens.foldlM (step c) [] = .ok stack) : Readable stack :=
  holds_foldlM (P := fun _ stack => Readable stack) readable_nil
    (fun _ _ _ _ hr hs => readable_step hr hs) h

/-- A readable stack without a result does not hold one text. -/
theorem eq_leftover_of_result {stack : List Text} (hr : Readable stack) {f : Failure}
    (h : result stack = .error (.failure f)) :
    f.cause = .leftover stack.length ∧ stack.length ≠ 1 := by
  unfold result at h
  split at h
  · obtain ⟨a, ha⟩ := Option.isSome_iff_exists.mp (readable_cons.mp hr).1
    rw [ha] at h
    cases h
  · rename_i hne
    cases h
    refine ⟨rfl, fun hlen => ?_⟩
    obtain ⟨t, rfl⟩ := List.length_eq_one_iff.mp hlen
    exact hne t rfl

/-! ## Runs -/

variable {precision : Int} {tokens : List Text} {f : Failure}

/-- A run fails at a token or at its end. -/
theorem foldlM_of_run (h : run precision tokens = .error (.failure f)) :
    ∃ c, tokens.foldlM (step c) [] = .error (.failure f) ∨
      ∃ stack, tokens.foldlM (step c) [] = .ok stack ∧
        f.cause = .leftover stack.length ∧ stack.length ≠ 1 := by
  unfold run at h
  split at h
  · rename_i c _
    refine ⟨c, ?_⟩
    rcases bind_eq_error.mp h with hs | ⟨stack, hs, hr⟩
    · exact .inl hs
    · exact .inr ⟨stack, hs, eq_leftover_of_result (readable_of_foldlM hs) hr⟩
  · cases h

/-- A token that a run fails at is to blame on a readable stack. -/
theorem blame_of_foldlM (h : tokens.foldlM (step c) [] = .error (.failure f)) :
    ∃ stack token, Readable stack ∧ Blame stack token f.cause := by
  obtain ⟨stack, token, ⟨before, -, -, hbefore⟩, hs⟩ := foldlM_eq_error_iff.mp h
  exact ⟨stack, token, readable_of_foldlM hbefore, blame_of_step hs⟩

/-- No run fails on an operand that is no number, or for a cause that is found before it starts. -/
theorem cause_of_run (h : run precision tokens = .error (.failure f)) :
    f.cause ≠ .notANumber ∧ f.cause ≠ .empty ∧ f.cause ≠ .unbalanced := by
  obtain ⟨c, hs | ⟨stack, -, hcause, -⟩⟩ := foldlM_of_run h
  · obtain ⟨stack, token, hr, hb⟩ := blame_of_foldlM hs
    generalize f.cause = cause at hb
    cases hb with
    | unreadable mem literal => simp [hr _ mem] at literal
    | unrecognized | missing | division | arithmetic => simp
  · simp [hcause]

/-! ## The tokens of a grown tree -/

/-- A token finds too few operands only if it is an operator of more operands than there are. -/
theorem short_of_step {stack : List Text} {token : Text}
    (h : step c stack token = .error (.failure f)) (hcause : f.cause = .missingOperand) :
    ∃ o, Operator.ofText? token = some o ∧ stack.length < o.arity := by
  have hb := blame_of_step h
  rw [hcause] at hb
  cases hb with
  | missing operator short => exact ⟨_, operator, short⟩

theorem cause_ne_missingOperand_of_arity {o : Operator} {stack : List Text}
    (hlen : o.arity ≤ stack.length) (h : step c stack [o.symbol] = .error (.failure f)) :
    f.cause ≠ .missingOperand := by
  intro hcause
  obtain ⟨o', ho, hshort⟩ := short_of_step h hcause
  obtain rfl : o = o' := by simpa [Operator.ofText?] using ho
  omega

/-- The tokens of a grown tree find their operands, whatever stack they start on. -/
theorem cause_ne_missingOperand {t : Tree} (ht : t.Grown) {stack : List Text}
    (h : t.labels.foldlM (step c) stack = .error (.failure f)) : f.cause ≠ .missingOperand := by
  induction ht generalizing stack with
  | @leaf l hne hw =>
    rw [Tree.labels, foldlM_singleton] at h
    intro hcause
    obtain ⟨o, ho, -⟩ := short_of_step h hcause
    rw [Tree.ofText?_of_whole hw] at ho
    cases ho
  | @negation t ht ih =>
    rw [Tree.labels, List.foldlM_append] at h
    rcases bind_eq_error.mp h with h | ⟨s, hs, h⟩
    · exact ih h
    · rw [foldlM_singleton] at h
      have hlen := (length_of_foldlM ht hs).1
      have harity : Operator.negation.arity = 1 := rfl
      exact cause_ne_missingOperand_of_arity (o := .negation) (by omega) h
  | @binary o l r hl hr ihl ihr =>
    rw [Tree.labels, List.foldlM_append] at h
    rcases bind_eq_error.mp h with h | ⟨s, hs, h⟩
    · exact ihl h
    · rw [List.foldlM_append] at h
      rcases bind_eq_error.mp h with h | ⟨s', hs', h⟩
      · exact ihr h
      · rw [foldlM_singleton] at h
        have hlen := (length_of_foldlM hl hs).1
        have hlen' := (length_of_foldlM hr hs').1
        have harity : o.arity ≤ 2 := by cases o <;> simp [Operator.arity]
        exact cause_ne_missingOperand_of_arity (by omega) h

theorem cause_ne_missingOperand_of_run {t : Tree} (ht : t.Grown)
    (h : run precision t.postOrder = .error (.failure f)) : f.cause ≠ .missingOperand := by
  obtain ⟨c, hs | ⟨stack, -, hcause, -⟩⟩ := foldlM_of_run h
  · rw [Tree.postOrder_eq] at hs
    exact cause_ne_missingOperand ht hs
  · simp [hcause]

/-- What the tokens of a grown tree leave is one text, and another one for every negation of two
operands. -/
theorem leftover_of_run {t : Tree} (ht : t.Grown) {n : Nat}
    (h : run precision t.postOrder = .error (.failure f)) (hcause : f.cause = .leftover n) :
    n = 1 + t.excess ∧ t.excess ≠ 0 := by
  obtain ⟨c, hs | ⟨stack, hs, hstack, hne⟩⟩ := foldlM_of_run h
  · obtain ⟨stack, token, -, hb⟩ := blame_of_foldlM hs
    rw [hcause] at hb
    cases hb
  · rw [Tree.postOrder_eq] at hs
    have hlen := (length_of_foldlM ht hs).1
    rw [hcause] at hstack
    cases hstack
    rw [List.length_nil] at hlen
    omega

end Machine

end Reckon

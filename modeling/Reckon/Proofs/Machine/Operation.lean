import Reckon.Proofs.Decimal.Arithmetic
import Reckon.Proofs.Machine.Refinement

/-!
# The operations of a run

A run reads its tokens one after another, each on the stack that the tokens before it have left.
What one token can do is said once, by the rules of the machine: it pushes a literal, it carries out
an operation on numbers that are read from the stack, or it stops the run. A run that is stopped is
stopped by the first token that no rule lets pass.

## Main definitions

* `Operator.arity`: the number of operands of an operator
* `Machine.operate`, `Machine.opposite`: the operations on numbers, and how they can fail
* `Machine.Rule`: what a token can do to a stack
* `Machine.Stops`: what stops a run at a token
* `Machine.Reaches c tokens stack token`: a run comes to read `token` on `stack`
* `Machine.Performs c tokens x o`: in a run, an operation of the exact value `x` has the outcome `o`

## Main results

* `rule_step`: every step obeys a rule
* `stops_of_step`: every step that stops a run is stopped by the formula or by a signal
* `foldlM_eq_error_iff`, `stops_of_run`: a run is stopped by a token that it comes to read
* `holds_foldlM`: what every token keeps is kept by a run
-/

namespace Reckon

open Decimal

/-- The number of operands that an operator takes from the stack. -/
def Operator.arity : Operator → Nat
  | binary _ => 2
  | negation => 1

namespace Machine

variable {c : Context}

/-! ## Operations on numbers -/

/-- A binary operator on two numbers. A division by zero and an overflow are failures. -/
def operate (c : Context) (op : BinaryOp) (a b : Decimal) : Except Stop Decimal :=
  if op = .divide ∧ b.isZero = true then fail .divisionByZero (some [op.symbol])
  else (op.apply c a b).mapError fun s => .failure ⟨.arithmetic s, [], some [op.symbol]⟩

/-- The negation of a number. An overflow is a fault. -/
def opposite (c : Context) (a : Decimal) : Except Stop Decimal :=
  (a.negate c).mapError fun s => .fault (.signal s)

theorem combine_eq_map_operate {op : BinaryOp} {left right : Text} {a b : Decimal}
    (hl : ofLiteral? left = some a) (hr : ofLiteral? right = some b) :
    combine c op left right = (operate c op a b).map plain := by
  simp only [combine, hl, hr, operate]
  split
  · rfl
  · rename_i hz
    cases ha : op.apply c a b with
    | ok r => rfl
    | error s =>
      -- a division by zero has been answered before
      obtain rfl := BinaryOp.apply_eq_error ha hz
      rfl

/-- An expression with an operator at its root, on the numbers of its operands. -/
theorem evaluate_binary {op : BinaryOp} {x y : Expression} {left right : Text} {a b : Decimal}
    (hx : x.evaluate c = .ok left) (hy : y.evaluate c = .ok right)
    (hl : ofLiteral? left = some a) (hr : ofLiteral? right = some b) :
    (Expression.binary op x y).evaluate c = (operate c op a b).map plain := by
  rw [Expression.evaluate, hx, hy]
  exact combine_eq_map_operate hl hr

/-- The number of the text that an expression of literals yields. -/
theorem run_of_literals (hc : c.precision ≤ Context.maxPrecision) {e : Expression}
    (he : ∀ l ∈ e.leaves, isLiteral l = true) :
    run c.precision e.toTree.postOrder = (e.evaluate c).bind fun text => result [text] := by
  apply run_eq_evaluate c hc
  intro l hl
  exact ofText?_of_isLiteral (he l hl)

theorem negated_eq_map_opposite {operand : Text} {a : Decimal} (h : ofLiteral? operand = some a) :
    negated c operand = (opposite c a).map plain := by
  simp only [negated, h, opposite]
  cases a.negate c with
  | ok r => rfl
  | error s => rfl

theorem operate_eq_ok {op : BinaryOp} {a b r : Decimal} :
    operate c op a b = .ok r ↔
      ¬ (op = .divide ∧ b.isZero = true) ∧ op.apply c a b = .ok r := by
  unfold operate
  split
  · rename_i h
    exact ⟨fun h' => (by cases h'), fun h' => absurd h h'.1⟩
  · rename_i h
    rw [mapError_eq_ok]
    exact ⟨fun h' => ⟨h, h'⟩, And.right⟩

theorem opposite_eq_ok {a r : Decimal} : opposite c a = .ok r ↔ a.negate c = .ok r :=
  mapError_eq_ok

/-- A binary operator fails at a division by zero, or where its result cannot be represented. -/
theorem operate_eq_error {op : BinaryOp} {a b : Decimal} {s : Stop}
    (h : operate c op a b = .error s) :
    op = .divide ∧ s = .failure ⟨.divisionByZero, [], some [op.symbol]⟩ ∨
      ¬ (op = .divide ∧ b.isZero = true) ∧ op.apply c a b = .error .overflow ∧
        s = .failure ⟨.arithmetic .overflow, [], some [op.symbol]⟩ := by
  unfold operate at h
  split at h
  · rename_i hz
    cases h
    exact .inl ⟨hz.1, rfl⟩
  · rename_i hz
    obtain ⟨signal, hs, rfl⟩ := mapError_eq_error.mp h
    obtain rfl := BinaryOp.apply_eq_error hs hz
    exact .inr ⟨hz, hs, rfl⟩

/-- A negation fails where it cannot be represented. -/
theorem opposite_eq_error {a : Decimal} {s : Stop} (h : opposite c a = .error s) :
    a.negate c = .error .overflow ∧ s = .fault (.signal .overflow) := by
  obtain ⟨signal, hs, rfl⟩ := mapError_eq_error.mp h
  obtain ⟨rfl, -⟩ := negate_eq_error_iff.mp hs
  exact ⟨hs, rfl⟩

/-- The value of a result, and what keeps it from being one, are given by the operands' values. -/
theorem operate_congr (op : BinaryOp) {a a' b b' : Decimal} (ha : a.toRat = a'.toRat)
    (hb : b.toRat = b'.toRat) :
    (operate c op a b).map toRat = (operate c op a' b').map toRat := by
  have hz : b.isZero = b'.isZero := by rw [isZero_eq_decide, isZero_eq_decide, hb]
  unfold operate
  rw [hz]
  split
  · rfl
  · rename_i h
    rw [map_mapError, map_mapError, BinaryOp.map_toRat_apply c op a b (by rwa [hz]),
      BinaryOp.map_toRat_apply c op a' b' h, ha, hb]

theorem opposite_congr {a a' : Decimal} (h : a.toRat = a'.toRat) :
    (opposite c a).map toRat = (opposite c a').map toRat := by
  rw [opposite, opposite, map_mapError, map_mapError, map_toRat_negate, map_toRat_negate, h]

/-! ## One token -/

/-- The rules of the machine: what a token does to a stack. -/
inductive Rule (c : Context) : List Text → Text → Except Stop (List Text) → Prop where
  | push {stack : List Text} {token : Text} (operator : Operator.ofText? token = none)
      (literal : isLiteral token = true) : Rule c stack token (.ok (token :: stack))
  | unrecognized {stack : List Text} {token : Text} (operator : Operator.ofText? token = none)
      (literal : isLiteral token = false) : Rule c stack token (fail .unrecognized (some token))
  | missing {stack : List Text} {token : Text} {o : Operator}
      (operator : Operator.ofText? token = some o) (short : stack.length < o.arity) :
      Rule c stack token (fail .missingOperand (some token))
  | unreadable {stack : List Text} {token operand : Text} (mem : operand ∈ stack)
      (literal : isLiteral operand = false) : Rule c stack token (fail .notANumber (some token))
  | negation {stack : List Text} {operand : Text} {a : Decimal}
      (read : ofLiteral? operand = some a) :
      Rule c (operand :: stack) Tree.negationLabel ((opposite c a).map fun r => r.plain :: stack)
  | binary {stack : List Text} {op : BinaryOp} {left right : Text} {a b : Decimal}
      (readLeft : ofLiteral? left = some a) (readRight : ofLiteral? right = some b) :
      Rule c (right :: left :: stack) [op.symbol]
        ((operate c op a b).map fun r => r.plain :: stack)

theorem rule_negation (operand : Text) (stack : List Text) :
    Rule c (operand :: stack) Tree.negationLabel
      ((negated c operand).map (· :: stack)) := by
  cases ha : ofLiteral? operand with
  | none =>
    have hn : negated c operand = fail .notANumber (some Tree.negationLabel) := by
      simp only [negated, ha]
      rfl
    rw [hn]
    exact .unreadable (List.mem_cons_self ..) (by simp [isLiteral, ha])
  | some a =>
    have h : Rule c (operand :: stack) Tree.negationLabel
        ((opposite c a).map fun r => r.plain :: stack) := .negation ha
    rw [negated_eq_map_opposite ha]
    cases ho : opposite c a with
    | ok r => rwa [ho] at h
    | error s => rwa [ho] at h

theorem rule_binary (op : BinaryOp) (left right : Text) (stack : List Text) :
    Rule c (right :: left :: stack) [op.symbol]
      ((combine c op left right).map (· :: stack)) := by
  have hunread (h : ofLiteral? left = none ∨ ofLiteral? right = none) :
      Rule c (right :: left :: stack) [op.symbol] ((combine c op left right).map (· :: stack)) := by
    have hn : combine c op left right = fail .notANumber (some [op.symbol]) := by
      unfold combine
      split
      · rename_i hl hr
        simp [hl, hr] at h
      · rfl
    rw [hn]
    rcases h with h | h
    · have hmem : left ∈ right :: left :: stack := by simp
      exact .unreadable hmem (by simp [isLiteral, h])
    · have hmem : right ∈ right :: left :: stack := by simp
      exact .unreadable hmem (by simp [isLiteral, h])
  cases hl : ofLiteral? left with
  | none => exact hunread (.inl hl)
  | some a =>
    cases hr : ofLiteral? right with
    | none => exact hunread (.inr hr)
    | some b =>
      have h : Rule c (right :: left :: stack) [op.symbol]
          ((operate c op a b).map fun r => r.plain :: stack) := .binary hl hr
      rw [combine_eq_map_operate hl hr]
      cases ho : operate c op a b with
      | ok r => rwa [ho] at h
      | error s => rwa [ho] at h

/-- The text of an operator is its character. -/
theorem eq_of_ofText? {token : Text} {o : Operator} (h : Operator.ofText? token = some o) :
    token = [o.symbol] := by
  match token with
  | [] => cases h
  | [d] => rw [Operator.symbol_of_ofSymbol? h]
  | _ :: _ :: _ => cases h

/-- Every step obeys a rule. -/
theorem rule_step (stack : List Text) (token : Text) : Rule c stack token (step c stack token) := by
  cases ho : Operator.ofText? token with
  | none =>
    rw [step_leaf c ho]
    split
    · exact .push ho ‹_›
    · exact .unrecognized ho (by simpa using ‹¬ isLiteral token = true›)
  | some o =>
    obtain rfl := eq_of_ofText? ho
    match o, stack with
    | .negation, [] => exact .missing ho Nat.one_pos
    | .negation, operand :: stack => exact rule_negation operand stack
    | .binary op, [] =>
      simp only [step, ho]
      exact .missing ho Nat.two_pos
    | .binary op, [_] =>
      simp only [step, ho]
      exact .missing ho Nat.one_lt_two
    | .binary op, right :: left :: stack =>
      have h := rule_binary (c := c) op left right stack
      rwa [← step_binary] at h

/-- What stops a run at a token. -/
inductive Stops (c : Context) : List Text → Text → Stop → Prop where
  /-- the formula: there is no number to be operated on, or none to divide by -/
  | formula {stack : List Text} {token : Text} {cause : Cause}
      (not_arithmetic : ∀ s, cause ≠ .arithmetic s) :
      Stops c stack token (.failure ⟨cause, [], some token⟩)
  /-- a negation that cannot be represented -/
  | negation {stack : List Text} {operand : Text} {a : Decimal}
      (read : ofLiteral? operand = some a) (overflows : a.negate c = .error .overflow) :
      Stops c (operand :: stack) Tree.negationLabel (.fault (.signal .overflow))
  /-- a result of a binary operator that cannot be represented -/
  | binary {stack : List Text} {op : BinaryOp} {left right : Text} {a b : Decimal}
      (readLeft : ofLiteral? left = some a) (readRight : ofLiteral? right = some b)
      (defined : ¬ (op = .divide ∧ b.isZero = true))
      (overflows : op.apply c a b = .error .overflow) :
      Stops c (right :: left :: stack) [op.symbol]
        (.failure ⟨.arithmetic .overflow, [], some [op.symbol]⟩)

/-- Every step that stops a run is stopped in one of these ways. -/
theorem stops_of_step {stack : List Text} {token : Text} {s : Stop}
    (h : step c stack token = .error s) : Stops c stack token s := by
  have hrule := rule_step (c := c) stack token
  generalize step c stack token = outcome at h hrule
  cases hrule with
  | push => cases h
  | unrecognized | missing | unreadable =>
    cases h
    exact .formula (by simp)
  | negation read =>
    obtain ⟨hs, rfl⟩ := opposite_eq_error (map_eq_error.mp h)
    exact .negation read hs
  | binary readLeft readRight =>
    rcases operate_eq_error (map_eq_error.mp h) with ⟨-, rfl⟩ | ⟨hz, hs, rfl⟩
    · exact .formula (by simp)
    · exact .binary readLeft readRight hz hs

/-! ## A run -/

/-- A run over `tokens` comes to read `token` on `stack`. -/
def Reaches (c : Context) (tokens : List Text) (stack : List Text) (token : Text) : Prop :=
  ∃ before after, tokens = before ++ token :: after ∧ before.foldlM (step c) [] = .ok stack

/-- In a run over the tokens, an operation whose exact value is `x` has the outcome `o`. -/
inductive Performs (c : Context) (tokens : List Text) : ℚ → Except Signal Decimal → Prop where
  | negation {operand : Text} {stack : List Text} {a : Decimal}
      (reaches : Reaches c tokens (operand :: stack) Tree.negationLabel)
      (read : ofLiteral? operand = some a) : Performs c tokens (-a.toRat) (a.negate c)
  | binary {op : BinaryOp} {left right : Text} {stack : List Text} {a b : Decimal}
      (reaches : Reaches c tokens (right :: left :: stack) [op.symbol])
      (readLeft : ofLiteral? left = some a) (readRight : ofLiteral? right = some b)
      (defined : ¬ (op = .divide ∧ b.isZero = true)) :
      Performs c tokens (op.exact a.toRat b.toRat) (op.apply c a b)

/-- The value of an outcome is the exact value, rounded once. -/
theorem Performs.map_toRat {tokens : List Text} {x : ℚ} {o : Except Signal Decimal}
    (h : Performs c tokens x o) : o.map toRat = c.rounded x := by
  cases h with
  | negation => exact map_toRat_negate c _
  | binary _ _ _ defined => exact BinaryOp.map_toRat_apply c _ _ _ defined

theorem foldlM_concat (tokens : List Text) (last : Text) (stack : List Text) :
    (tokens ++ [last]).foldlM (step c) stack =
      (tokens.foldlM (step c) stack).bind fun stack => step c stack last := by
  rw [List.foldlM_append]
  exact congrArg _ (funext fun stack => foldlM_singleton c stack last)

/-- A run over one token more comes to read the same tokens, and the last one at its end. -/
theorem reaches_concat {tokens : List Text} {last : Text} {stack : List Text} {token : Text} :
    Reaches c (tokens ++ [last]) stack token ↔
      Reaches c tokens stack token ∨ token = last ∧ tokens.foldlM (step c) [] = .ok stack := by
  constructor
  · rintro ⟨before, after, h, hs⟩
    rcases List.eq_nil_or_concat after with rfl | ⟨after, x, rfl⟩
    · obtain ⟨rfl, hlast⟩ := List.append_inj' h rfl
      exact .inr ⟨(List.singleton_inj.mp hlast).symm, hs⟩
    · rw [List.concat_eq_append, ← List.cons_append, ← List.append_assoc] at h
      obtain ⟨rfl, -⟩ := List.append_inj' h rfl
      exact .inl ⟨before, after, rfl, hs⟩
  · rintro (⟨before, after, rfl, hs⟩ | ⟨rfl, hs⟩)
    · exact ⟨before, after ++ [last], by simp, hs⟩
    · exact ⟨tokens, [], rfl, hs⟩

/-- A run is stopped by a token that it comes to read. -/
theorem foldlM_eq_error_iff {tokens : List Text} {s : Stop} :
    tokens.foldlM (step c) [] = .error s ↔
      ∃ stack token, Reaches c tokens stack token ∧ step c stack token = .error s := by
  induction tokens using List.reverseRecOn with
  | nil => simp [Reaches, pure, Except.pure]
  | append_singleton tokens last ih =>
    rw [foldlM_concat, bind_eq_error, ih]
    constructor
    · rintro (⟨stack, token, hr, hs⟩ | ⟨stack, hr, hs⟩)
      · exact ⟨stack, token, reaches_concat.mpr (.inl hr), hs⟩
      · exact ⟨stack, last, reaches_concat.mpr (.inr ⟨rfl, hr⟩), hs⟩
    · rintro ⟨stack, token, hr, hs⟩
      rcases reaches_concat.mp hr with hr' | ⟨rfl, hr'⟩
      · exact .inl ⟨stack, token, hr', hs⟩
      · exact .inr ⟨stack, hr', hs⟩

/-- What ends a run that is not stopped. -/
theorem cause_of_result {stack : List Text} {s : Stop} (h : result stack = .error s) :
    ∃ cause, s = .failure ⟨cause, [], none⟩ ∧ ∀ signal, cause ≠ .arithmetic signal := by
  unfold result at h
  split at h
  · split at h
    · cases h
    · cases h
      exact ⟨.notANumber, rfl, by simp⟩
  · cases h
    exact ⟨.leftover _, rfl, by simp⟩

/-- A run without a result has come to a token that stopped it, or to its end. -/
theorem stops_of_run (hc : c.precision ≤ Context.maxPrecision) {tokens : List Text} {s : Stop}
    (h : run c.precision tokens = .error s) :
    (∃ stack token, Reaches c tokens stack token ∧ Stops c stack token s) ∨
      ∃ cause, s = .failure ⟨cause, [], none⟩ ∧ ∀ signal, cause ≠ .arithmetic signal := by
  rw [run_eq_reduce c hc] at h
  rcases bind_eq_error.mp h with hs | ⟨stack, -, hr⟩
  · obtain ⟨stack, token, hr, hs⟩ := foldlM_eq_error_iff.mp hs
    exact .inl ⟨stack, token, hr, stops_of_step hs⟩
  · exact .inr (cause_of_result hr)

/-- What every token keeps is kept by a run. -/
theorem holds_foldlM {P : List Text → List Text → Prop} {tokens stack : List Text} (h0 : P [] [])
    (hstep : ∀ before stack token stack', P before stack → step c stack token = .ok stack' →
      P (before ++ [token]) stack')
    (h : tokens.foldlM (step c) [] = .ok stack) : P tokens stack := by
  induction tokens using List.reverseRecOn generalizing stack with
  | nil =>
    cases h
    exact h0
  | append_singleton tokens last ih =>
    rw [foldlM_concat] at h
    obtain ⟨stack', hs, h⟩ := bind_eq_ok.mp h
    exact hstep tokens stack' last stack (ih hs) h

end Machine

end Reckon

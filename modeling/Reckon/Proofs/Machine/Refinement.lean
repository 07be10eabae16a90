import Reckon.Proofs.Decimal.Plain
import Reckon.Proofs.Expression
import Reckon.Proofs.Outcome

/-!
# The stack machine evaluates expressions

On the post-order of an expression the machine does what the recursion does: whatever lies on the
stack, the tokens of a subexpression put its text on top, or stop the machine where the recursion
stops.

## Main results

* `foldlM_postOrder`: the tokens of an expression, on any stack
* `run_postOrder`: the machine agrees with the recursive evaluation
-/

namespace Reckon

namespace Context

theorem ofPrecision?_precision {c : Context} (h : c.precision ≤ maxPrecision) :
    ofPrecision? c.precision = some c := by
  have := c.precision_pos
  simp [ofPrecision?, this, h]

theorem eq_precision_of_ofPrecision? {precision : Int} {c : Context}
    (h : ofPrecision? precision = some c) :
    precision = c.precision ∧ c.precision ≤ maxPrecision := by
  unfold ofPrecision? at h
  split at h
  · split at h
    · cases h
      exact ⟨by simp only; omega, ‹_›⟩
    · cases h
  · cases h

end Context

namespace Machine

variable (c : Context)

/-! ## One token -/

theorem step_leaf {l : Text} (h : Operator.ofText? l = none) (stack : List Text) :
    step c stack l =
      if Decimal.isLiteral l then .ok (l :: stack) else fail .unrecognized (some l) := by
  simp [step, h]

theorem step_negation (operand : Text) (stack : List Text) :
    step c (operand :: stack) Tree.negationLabel = (negated c operand).map (· :: stack) := rfl

theorem ofText?_symbol (op : BinaryOp) : Operator.ofText? [op.symbol] = some (.binary op) :=
  Operator.ofSymbol?_symbol (.binary op)

theorem step_binary (op : BinaryOp) (left right : Text) (stack : List Text) :
    step c (right :: left :: stack) [op.symbol] =
      (combine c op left right).map (· :: stack) := by
  simp [step, ofText?_symbol]

theorem foldlM_singleton (stack : List Text) (token : Text) :
    [token].foldlM (step c) stack = step c stack token := bind_pure (step c stack token)

/-! ## The tokens of an expression -/

/-- On any stack, the tokens of an expression put its text on top or stop as its evaluation
does. -/
theorem foldlM_postOrder (e : Expression) (he : ∀ l ∈ e.leaves, Operator.ofText? l = none)
    (stack : List Text) :
    e.postOrder.foldlM (step c) stack = (e.evaluate c).map (· :: stack) := by
  induction e generalizing stack with
  | leaf l =>
    have hl := he l (List.mem_singleton_self l)
    rw [Expression.postOrder, List.foldlM_cons, step_leaf c hl, Expression.evaluate]
    split <;> rfl
  | negation x ih =>
    rw [Expression.postOrder, List.foldlM_append, ih he, Expression.evaluate]
    cases x.evaluate c with
    | error s => rfl
    | ok t =>
      show [Tree.negationLabel].foldlM (step c) (t :: stack) = _
      rw [foldlM_singleton, step_negation]
      rfl
  | binary op x y ihx ihy =>
    have hx : ∀ l ∈ x.leaves, Operator.ofText? l = none := fun l hl =>
      he l (List.mem_append_left _ hl)
    have hy : ∀ l ∈ y.leaves, Operator.ofText? l = none := fun l hl =>
      he l (List.mem_append_right _ hl)
    rw [Expression.postOrder, List.foldlM_append, ihx hx, Expression.evaluate]
    cases x.evaluate c with
    | error s => rfl
    | ok left =>
      -- the left text lies below whatever the right operand does
      show (y.postOrder ++ [[op.symbol]]).foldlM (step c) (left :: stack) = _
      rw [List.foldlM_append, ihy hy]
      cases y.evaluate c with
      | error s => rfl
      | ok right =>
        show [[op.symbol]].foldlM (step c) (right :: left :: stack) = _
        rw [foldlM_singleton, step_binary]
        rfl

/-! ## The result -/

/-- What a negation yields is the result on the number that is read, in plain notation. -/
theorem exists_of_negated {operand text : Text} (h : negated c operand = .ok text) :
    ∃ a r : Decimal, a.negate c = .ok r ∧ text = r.plain := by
  unfold negated at h
  split at h
  · rename_i a _
    split at h
    · rename_i r hr
      cases h
      exact ⟨a, r, hr, rfl⟩
    · cases h
  · cases h

/-- What a binary operator yields is the result on the numbers that are read, in plain notation. -/
theorem exists_of_combine {op : BinaryOp} {left right text : Text}
    (h : combine c op left right = .ok text) :
    ∃ a b r, op.apply c a b = .ok r ∧ text = r.plain := by
  unfold combine at h
  split at h
  · rename_i a b _ _
    split at h
    · cases h
    · split at h
      · rename_i r hr
        cases h
        exact ⟨a, b, r, hr, rfl⟩
      · cases h
      · cases h
  · cases h

/-- Whatever an expression yields is a literal. -/
theorem isLiteral_evaluate {e : Expression} {text : Text} (h : e.evaluate c = .ok text) :
    Decimal.isLiteral text = true := by
  cases e with
  | leaf l =>
    rw [Expression.evaluate] at h
    split at h
    · cases h
      assumption
    · cases h
  | negation x =>
    obtain ⟨t, -, h⟩ := bind_eq_ok.mp h
    obtain ⟨a, r, -, rfl⟩ := exists_of_negated c h
    exact Decimal.isLiteral_plain r
  | binary op x y =>
    obtain ⟨left, -, h⟩ := bind_eq_ok.mp h
    obtain ⟨right, -, h⟩ := bind_eq_ok.mp h
    obtain ⟨a, b, r, -, rfl⟩ := exists_of_combine c h
    exact Decimal.isLiteral_plain r

theorem run_eq_reduce (hc : c.precision ≤ Context.maxPrecision) (tokens : List Text) :
    run c.precision tokens = (tokens.foldlM (step c) []).bind result := by
  simp only [run, Context.ofPrecision?_precision hc, reduce]
  rfl

/-- The number of the text that an expression yields. -/
theorem run_eq_evaluate (hc : c.precision ≤ Context.maxPrecision) (e : Expression)
    (he : ∀ l ∈ e.leaves, Operator.ofText? l = none) :
    run c.precision e.toTree.postOrder = (e.evaluate c).bind fun text => result [text] := by
  rw [run_eq_reduce c hc, Expression.postOrder_toTree, foldlM_postOrder c e he]
  cases e.evaluate c <;> rfl

theorem result_singleton {text : Text} {a : Decimal} (h : Decimal.ofLiteral? text = some a) :
    result [text] = .ok a := by
  simp [result, h]

/-- **The machine refines recursive evaluation**: on the post-order of an expression whose leaves
are no operators, at any precision that settings may ask for, it yields the number of the text that
the expression yields, and stops as the evaluation stops. -/
theorem run_postOrder (e : Expression) (hc : c.precision ≤ 999)
    (he : ∀ l ∈ e.leaves, Operator.ofText? l = none) :
    (∀ text, e.evaluate c = .ok text →
      ∃ a, Decimal.ofLiteral? text = some a ∧ run c.precision e.toTree.postOrder = .ok a) ∧
    ∀ stop, e.evaluate c = .error stop → run c.precision e.toTree.postOrder = .error stop := by
  have hrun := run_eq_evaluate c (Nat.le_trans hc (by decide)) e he
  constructor
  · intro text ht
    obtain ⟨a, ha⟩ := Option.isSome_iff_exists.mp (isLiteral_evaluate c ht)
    refine ⟨a, ha, ?_⟩
    rw [hrun, ht]
    exact result_singleton ha
  · intro stop hs
    rw [hrun, hs]
    rfl

/-- Of two faults in one expression, the one in the left operand is met first. -/
theorem run_postOrder_left_fault :
    let e : Expression := .binary .add (.binary .divide (.leaf ['1']) (.leaf ['0'])) (.leaf ['x'])
    (3 ≤ 999 ∧ ∀ l ∈ e.leaves, Operator.ofText? l = none) ∧
      run 3 e.toTree.postOrder = .error (.failure ⟨.divisionByZero, [], some ['/']⟩) :=
  ⟨by decide, (run_postOrder ⟨3, by decide⟩ _ (by decide) (by decide)).2 _ (by decide)⟩

end Machine

end Reckon

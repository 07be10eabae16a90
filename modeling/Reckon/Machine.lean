import Reckon.Decimal.Arithmetic
import Reckon.Decimal.Literal
import Reckon.Failure

/-!
# The stack machine

A machine that reduces a post-order sequence of tokens to one number. A token is an operator or a
literal. Literals are pushed as they are; an operator takes its operands from the stack, the right
one first, and pushes its result in plain notation. Every operand is thus read from text again.

## Main definitions

* `Machine.step`: what one token does to the stack
* `Machine.reduce`: the number that a sequence leaves on the stack
* `Machine.run`: the same at any precision, with a fault for one that is out of range
-/

namespace Reckon

namespace Machine

/-- The failure of a token. -/
def fail {α : Type} (cause : Cause) (token : Option Text) : Except Stop α :=
  .error (.failure ⟨cause, [], token⟩)

/-- The text of the result of a binary operator on two operands. -/
def combine (c : Context) (op : BinaryOp) (left right : Text) : Except Stop Text :=
  match Decimal.ofLiteral? left, Decimal.ofLiteral? right with
  | some a, some b =>
    if op = .divide ∧ b.isZero then fail .divisionByZero (some [op.symbol])
    else
      match op.apply c a b with
      | .ok result => .ok result.plain
      | .error .divisionByZero => .error (.fault (.signal .divisionByZero))
      | .error signal => fail (.arithmetic signal) (some [op.symbol])
  | _, _ => fail .notANumber (some [op.symbol])

/-- The text of the negation of an operand. -/
def negated (c : Context) (operand : Text) : Except Stop Text :=
  match Decimal.ofLiteral? operand with
  | some a =>
    match a.negate c with
    | .ok result => .ok result.plain
    | .error signal => .error (.fault (.signal signal))
  | none => fail .notANumber (some [Operator.negationSymbol])

/-- What a token does to the stack, whose top comes first. -/
def step (c : Context) (stack : List Text) (token : Text) : Except Stop (List Text) :=
  match Operator.ofText? token, stack with
  | some (.binary op), right :: left :: stack => (combine c op left right).map (· :: stack)
  | some .negation, operand :: stack => (negated c operand).map (· :: stack)
  | some _, _ => fail .missingOperand (some token)
  | none, stack =>
    if Decimal.isLiteral token then .ok (token :: stack) else fail .unrecognized (some token)

/-- The number that the stack holds at the end. -/
def result : (stack : List Text) → Except Stop Decimal
  | [t] =>
    match Decimal.ofLiteral? t with
    | some a => .ok a
    | none => fail .notANumber none
  | stack => fail (.leftover stack.length) none

/-- The number that a sequence of tokens leaves on the stack. -/
def reduce (c : Context) (tokens : List Text) : Except Stop Decimal := do
  result (← tokens.foldlM (step c) [])

/-- The number that a sequence of tokens leaves on the stack, at a precision that need not be in
range. -/
def run (precision : Int) (tokens : List Text) : Except Stop Decimal :=
  match Context.ofPrecision? precision with
  | some c => reduce c tokens
  | none => .error (.fault (.ofPrecision precision))

end Machine

end Reckon

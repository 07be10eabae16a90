import Reckon.Decimal.Basic
import Reckon.Text

/-!
# Failures and faults

A failure is what is wrong with a formula: it has a cause, the formula it was found in and, if it
is due to one token of the sequence, that token. A fault is what the calculation itself cannot do.
A formula's failure becomes an answer; a fault has none.

## Main definitions

* `Cause`, with `Cause.kind` and `Cause.message`: what can be wrong with a formula
* `Failure`: a cause with its place
* `Fault`, with `Fault.ofPrecision` and `Fault.message`: what ends a calculation without an answer
* `Stop`: a failure or a fault
-/

namespace Reckon

-- Powers are those of the core library, whatever else is imported.
attribute [local instance (high)] instPowNat

/-- The kinds of failure, each of which has an answer text in the settings. -/
inductive FailureKind where
  | unbalancedParentheses
  | malformedFormat
  | insufficientOperands
  | divisionByZero
  deriving DecidableEq, Repr

/-- What can be wrong with a formula. -/
inductive Cause where
  /-- the brackets of the formula do not match -/
  | unbalanced
  /-- the formula or an operand is empty -/
  | empty
  /-- an operator finds too few operands -/
  | missingOperand
  /-- an operand is no number -/
  | notANumber
  /-- the divisor is zero -/
  | divisionByZero
  /-- the result of a binary operator cannot be represented -/
  | arithmetic (signal : Signal)
  /-- a token is neither a number nor an operator -/
  | unrecognized
  /-- `count` values are left at the end instead of one -/
  | leftover (count : Nat)
  deriving DecidableEq, Repr

namespace Cause

/-- The kind of failure that a cause makes. -/
def kind : Cause → FailureKind
  | unbalanced => .unbalancedParentheses
  | missingOperand => .insufficientOperands
  | divisionByZero => .divisionByZero
  | empty | notANumber | arithmetic _ | unrecognized | leftover _ => .malformedFormat

/-- The wording of a cause. -/
def message : Cause → String
  | unbalanced => "Unbalanced parentheses"
  | empty => "Empty formula"
  | missingOperand => "Missing operand"
  | notANumber => "Operand is not a number"
  | divisionByZero => "Division by zero"
  | arithmetic s => "Arithmetic error: " ++ s.name ++ "(" ++ s.listing ++ ")"
  | unrecognized => "Unrecognized token"
  | leftover count => "Expected one value after evaluation, found " ++ toString count

end Cause

/-- A failure: its cause, the formula it was found in and the token it is due to. -/
structure Failure where
  cause : Cause
  formula : Text
  token : Option Text
  deriving DecidableEq, Repr

/-- What ends a calculation without an answer. -/
inductive Fault where
  /-- the precision is out of range -/
  | precision
  /-- the precision is out of range and of any machine word -/
  | word
  /-- an arithmetic signal that is not answered as a failure -/
  | signal (s : Signal)
  deriving DecidableEq, Repr

namespace Fault

/-- The fault of a precision that is out of range. It is first taken as a signed word of 64 bits. -/
def ofPrecision (precision : Int) : Fault :=
  if -2 ^ (63 : Nat) ≤ precision ∧ precision < 2 ^ (63 : Nat) then .precision else .word

/-- The wording of a fault. -/
def message : Fault → String
  | precision => "valid range for prec is [1, MAX_PREC]"
  | word => "Python int too large to convert to C ssize_t"
  | signal s => s.listing

end Fault

/-- Why a calculation yields no number: a failure of the formula, or a fault. -/
inductive Stop where
  | failure (f : Failure)
  | fault (f : Fault)
  deriving DecidableEq, Repr

/-- Outcomes can be compared when values and reasons can. -/
instance instDecidableEqExcept {ε α : Type} [DecidableEq ε] [DecidableEq α] :
    DecidableEq (Except ε α)
  | .ok a, .ok b => if h : a = b then isTrue (by rw [h]) else isFalse (by simp [h])
  | .error a, .error b => if h : a = b then isTrue (by rw [h]) else isFalse (by simp [h])
  | .ok _, .error _ => isFalse (by simp)
  | .error _, .ok _ => isFalse (by simp)

end Reckon

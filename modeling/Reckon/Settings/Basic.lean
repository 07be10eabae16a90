import Reckon.Failure

/-!
# Settings

The settings of a calculator: the precision of its arithmetic, and for each kind of failure the
text that it answers instead of a number.

## Main definitions

* `Messages`, with `Messages.forKind` and `Messages.set`: the answer texts, read and overwritten
  kind by kind
* `Settings`: precision and answer texts, with the defaults
-/

namespace Reckon

/-- The default answer to a formula that is not well formed. -/
def formatErrorText : Text := "A format does wrong.".toList

/-- The default answer to a division by zero. -/
def divisionByZeroText : Text := "Division by zero.".toList

/-- The text that is answered for each kind of failure. -/
structure Messages where
  malformedFormat : Text := formatErrorText
  unbalancedParentheses : Text := formatErrorText
  insufficientOperands : Text := formatErrorText
  divisionByZero : Text := divisionByZeroText
  deriving DecidableEq, Repr

namespace Messages

/-- The answer to a kind of failure. -/
def forKind (m : Messages) : FailureKind → Text
  | .malformedFormat => m.malformedFormat
  | .unbalancedParentheses => m.unbalancedParentheses
  | .insufficientOperands => m.insufficientOperands
  | .divisionByZero => m.divisionByZero

/-- The texts with another answer to a kind of failure. -/
def set (m : Messages) (kind : FailureKind) (text : Text) : Messages :=
  match kind with
  | .malformedFormat => { m with malformedFormat := text }
  | .unbalancedParentheses => { m with unbalancedParentheses := text }
  | .insufficientOperands => { m with insufficientOperands := text }
  | .divisionByZero => { m with divisionByZero := text }

@[simp] theorem forKind_set (m : Messages) (kind kind' : FailureKind) (text : Text) :
    (m.set kind text).forKind kind' = if kind' = kind then text else m.forKind kind' := by
  cases kind <;> cases kind' <;> rfl

/-- The texts that a function gives, kind by kind. -/
def ofForKind (text : FailureKind → Text) : Messages where
  malformedFormat := text .malformedFormat
  unbalancedParentheses := text .unbalancedParentheses
  insufficientOperands := text .insufficientOperands
  divisionByZero := text .divisionByZero

@[simp] theorem forKind_ofForKind (text : FailureKind → Text) (kind : FailureKind) :
    (ofForKind text).forKind kind = text kind := by
  cases kind <;> rfl

theorem ext_forKind {m m' : Messages} (h : ∀ kind, m.forKind kind = m'.forKind kind) : m = m' := by
  obtain ⟨malformed, unbalanced, insufficient, division⟩ := m
  exact (Messages.mk.injEq ..).mpr
    ⟨h .malformedFormat, h .unbalancedParentheses, h .insufficientOperands, h .divisionByZero⟩

end Messages

/-- The settings of a calculator. -/
structure Settings where
  precision : Int := 28
  messages : Messages := {}
  deriving DecidableEq, Repr

namespace Settings

/-- The least precision that settings may ask for. -/
def minPrecision : Int := 1

/-- The largest precision that settings may ask for. -/
def maxPrecision : Int := 999

/-- Whether the precision is in the range that settings may ask for. -/
def Valid (s : Settings) : Prop := minPrecision ≤ s.precision ∧ s.precision ≤ maxPrecision

instance (s : Settings) : Decidable s.Valid := by unfold Valid; infer_instance

theorem valid_default : ({} : Settings).Valid := by decide

end Settings

end Reckon

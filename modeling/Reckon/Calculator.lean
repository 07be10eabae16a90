import Reckon.Machine
import Reckon.Settings.Basic
import Reckon.Tree.Growth

/-!
# The calculator

A formula is checked for balance, grown into a tree, written in post-order and reduced by the stack
machine. A single literal is its own value, whatever the precision; so is a literal with a plus,
which has no tree.

## Main definitions

* `Calculator.detailed`: the value of a formula in plain notation, or what stopped its calculation
* `Calculator.report`: the value or the failure, with the formula they belong to
* `Calculator.answer`: the value, or the answer text of the failure
-/

namespace Reckon

namespace Calculator

/-- What stopped a reduction, with the formula named as the place of a failure. -/
def placed (formula : Text) : Stop → Stop
  | .failure f => .failure { f with formula }
  | .fault f => .fault f

/-- The value of a tree in plain notation. A leaf that is a literal is its own value. -/
def ofTree (precision : Int) (t : Tree) : Except Stop Text :=
  let machine := (Machine.run precision t.postOrder).map Decimal.plain
  match t with
  | .leaf label => (Decimal.canonical? label).elim machine .ok
  | _ => machine

/-- The value of a formula in plain notation, at a precision. -/
def detailed (precision : Int) (formula : Text) : Except Stop Text :=
  if Nesting.balanced formula then
    match Tree.ofFormula formula with
    | .ok t => (ofTree precision t).mapError (placed formula)
    | .error f =>
      (Decimal.canonical? (Brackets.normalize formula)).elim (.error (.failure f)) .ok
  else .error (.failure ⟨.unbalanced, formula, none⟩)

/-- What is told of a calculation that came to an end: whether there is a value, the value, the
failure, and the formula as it was given. -/
structure Report where
  success : Bool
  value : Option Text
  failure : Option Failure
  formula : Text
  deriving DecidableEq, Repr

/-- An outcome as a report on a formula; there is none on a fault. -/
def toReport (formula : Text) : Except Stop Text → Except Fault Report
  | .ok value => .ok ⟨true, some value, none, formula⟩
  | .error (.failure f) => .ok ⟨false, none, some f, formula⟩
  | .error (.fault f) => .error f

/-- The report on a formula at a precision. -/
def report (precision : Int) (formula : Text) : Except Fault Report :=
  toReport formula (detailed precision formula)

/-- An outcome as an answer: a value is answered as it is, a failure by the text for its kind. -/
def toAnswer (messages : Messages) : Except Stop Text → Except Fault Text
  | .ok value => .ok value
  | .error (.failure f) => .ok (messages.forKind f.cause.kind)
  | .error (.fault f) => .error f

/-- The answer to a formula under given settings. -/
def answer (settings : Settings) (formula : Text) : Except Fault Text :=
  toAnswer settings.messages (detailed settings.precision formula)

end Calculator

end Reckon

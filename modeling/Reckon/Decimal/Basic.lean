/-!
# Decimal numbers

A finite decimal number keeps its sign, its coefficient and its exponent apart: `1.5` and `1.50`
are equal in value and differ in exponent, and zero has either sign. An operation on decimal numbers
ends without a result where a signal is raised; rounding, underflow and subnormal results raise
none.

## Main definitions

* `Decimal`: sign, coefficient and exponent
* `Decimal.compare`: the order of the values
* `Signal`: the exceptional conditions of arithmetic
-/

namespace Reckon

-- Powers are those of the core library, whatever else is imported.
attribute [local instance (high)] instPowNat

/-- The number `(-1)^negative * coefficient * 10^exponent`. -/
structure Decimal where
  negative : Bool
  coefficient : Nat
  exponent : Int
  deriving DecidableEq, Repr

namespace Decimal

/-- The signed coefficient of a number in units of `10^e`, for `e` at most its exponent. -/
def units (e : Int) (a : Decimal) : Int :=
  let n : Nat := a.coefficient * 10 ^ (a.exponent - e).toNat
  if a.negative then -n else n

/-- Whether the value is zero. -/
def isZero (a : Decimal) : Bool := a.coefficient == 0

/-- The order of the values of two numbers, exactly. -/
def compare (a b : Decimal) : Ordering :=
  let e := min a.exponent b.exponent
  Ord.compare (a.units e) (b.units e)

/-- The number that stands for a truth value. -/
def truth (b : Bool) : Decimal := ⟨false, if b then 1 else 0, 0⟩

end Decimal

/-- The exceptional conditions of decimal arithmetic. -/
inductive Signal where
  /-- the rounded result is too large -/
  | overflow
  /-- a number other than zero was divided by zero -/
  | divisionByZero
  /-- zero was divided by zero -/
  | invalidOperation
  deriving DecidableEq, Repr

namespace Signal

/-- The name of a signal. -/
def name : Signal → String
  | overflow => "Overflow"
  | divisionByZero => "DivisionByZero"
  | invalidOperation => "InvalidOperation"

/-- The list of raised signals, as it is shown. -/
def listing (s : Signal) : String := "[<class 'decimal." ++ s.name ++ "'>]"

end Signal

end Reckon

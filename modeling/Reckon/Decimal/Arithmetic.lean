import Reckon.Decimal.Rounding
import Reckon.Operator

/-!
# Decimal arithmetic

The operators on decimal numbers. Sums, differences, products, quotients and negations are the
exact results rounded to the context; comparisons and connectives are exact and give one or zero.

## Main definitions

* `Decimal.add`, `Decimal.subtract`, `Decimal.multiply`, `Decimal.divide`, `Decimal.negate`
* `BinaryOp.apply`: a binary operator on two numbers
-/

namespace Reckon

namespace Decimal

/-- The sum. A sum of zero is negative only if both terms are. -/
def add (c : Context) (a b : Decimal) : Except Signal Decimal :=
  let e := min a.exponent b.exponent
  let sum := a.units e + b.units e
  let negative := if sum = 0 then a.negative && b.negative else decide (sum < 0)
  c.round negative sum.natAbs 1 e

/-- The number with the other sign, as it is. -/
def opposite (a : Decimal) : Decimal := { a with negative := !a.negative }

/-- The difference. -/
def subtract (c : Context) (a b : Decimal) : Except Signal Decimal := add c a b.opposite

/-- The product. -/
def multiply (c : Context) (a b : Decimal) : Except Signal Decimal :=
  c.round (a.negative != b.negative) (a.coefficient * b.coefficient) 1 (a.exponent + b.exponent)

/-- The quotient. -/
def divide (c : Context) (a b : Decimal) : Except Signal Decimal :=
  if b.isZero then .error (if a.isZero then .invalidOperation else .divisionByZero)
  else
    c.round (a.negative != b.negative) a.coefficient b.coefficient (a.exponent - b.exponent)

/-- The number with the other sign, rounded; zero becomes positive. -/
def negate (c : Context) (a : Decimal) : Except Signal Decimal :=
  c.round (!a.isZero && !a.negative) a.coefficient 1 a.exponent

end Decimal

open Decimal in
/-- The result of a binary operator. -/
def BinaryOp.apply (c : Context) (op : BinaryOp) (a b : Decimal) : Except Signal Decimal :=
  match op with
  | .multiply => a.multiply c b
  | .divide => a.divide c b
  | .add => a.add c b
  | .subtract => a.subtract c b
  | .atLeast => .ok (truth (a.compare b != .lt))
  | .atMost => .ok (truth (a.compare b != .gt))
  | .less => .ok (truth (a.compare b == .lt))
  | .greater => .ok (truth (a.compare b == .gt))
  | .both => .ok (truth (!a.isZero && !b.isZero))
  | .either => .ok (truth (!a.isZero || !b.isZero))
  | .equal => .ok (truth (a.compare b == .eq))
  | .differ => .ok (truth (a.compare b != .eq))

end Reckon

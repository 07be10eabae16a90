import Reckon.Decimal.Basic
import Reckon.Numeral

/-!
# Rounding to a precision

The result of an operation is a fraction of natural numbers times a power of ten. A context rounds
it to a number with at most `precision` digits: half to even, not below the smallest exponent, and
with a signal if the result is too large. An exact result keeps the exponent it would have without
rounding, as far as the digits allow.

## Main definitions

* `divideHalfEven num den`: a quotient, rounded to the nearest natural number and half to even
* `Context`: a precision
* `Context.round`: the rounded value of a fraction
-/

namespace Reckon

-- Powers are those of the core library, whatever else is imported.
attribute [local instance (high)] instPowNat

/-- The quotient of `num` by `den`, rounded to the nearest natural number and half to even. -/
def divideHalfEven (num den : Nat) : Nat :=
  let q := num / den
  let r := num % den
  if 2 * r < den then q
  else if den < 2 * r then q + 1
  else if q % 2 = 0 then q else q + 1

/-- The precision of decimal arithmetic, in digits. -/
structure Context where
  precision : Nat
  precision_pos : 0 < precision
  deriving DecidableEq, Repr

namespace Context

/-- The largest exponent that the highest digit of a number may have. -/
def maxExponent : Int := 999999

/-- The smallest exponent that the highest digit of a number of full precision may have. -/
def minExponent : Int := -999999

/-- The largest precision. -/
def maxPrecision : Nat := 999999999999999999

/-- The context of a precision, if the precision is in range. -/
def ofPrecision? (precision : Int) : Option Context :=
  if h : 0 < precision.toNat then
    if precision.toNat ≤ maxPrecision then some ⟨precision.toNat, h⟩ else none
  else none

/-- The smallest exponent that the lowest digit of a number may have. -/
def leastExponent (c : Context) : Int := minExponent - c.precision + 1

/-- The fraction `num / den * 10^shift`. -/
def shifted (num den : Nat) (shift : Int) : Nat × Nat :=
  if 0 ≤ shift then (num * 10 ^ shift.toNat, den) else (num, den * 10 ^ (-shift).toNat)

/-- The exponent of the highest power of ten not above the fraction `num / den`. -/
def leadExponent (num den : Nat) : Int :=
  let guess : Int := (Numeral.log10 num : Int) - Numeral.log10 den
  let (n, d) := shifted num den (-guess)
  if d ≤ n then guess else guess - 1

/-- A number, unless its highest digit is too high. -/
def bounded (negative : Bool) (coefficient : Nat) (exponent : Int) : Except Signal Decimal :=
  if coefficient ≠ 0 ∧ maxExponent < exponent + Numeral.log10 coefficient then .error .overflow
  else .ok ⟨negative, coefficient, exponent⟩

/-- The exponent of the lowest digit that is kept of a value whose highest digit has the exponent
`lead`. -/
def quantum (c : Context) (lead : Int) : Int := max (lead - c.precision + 1) c.leastExponent

/-- A coefficient without the zeros at its end, at most `limit` of them, and as much higher an
exponent. -/
def withoutZeros (negative : Bool) (coefficient : Nat) (exponent : Int) (limit : Nat) :
    Except Signal Decimal :=
  let zeros := Numeral.trailingZeros limit coefficient
  bounded negative (coefficient / 10 ^ zeros) (exponent + zeros)

/-- Rounds a value of `num / den` units of `10^exponent` at that exponent. A carry into one digit
more than the precision has is taken back. -/
def roundAt (c : Context) (negative : Bool) (num den : Nat) (exponent : Int) :
    Except Signal Decimal :=
  let q := divideHalfEven num den
  if q = 10 ^ c.precision then bounded negative (10 ^ (c.precision - 1)) (exponent + 1)
  else bounded negative q exponent

/-- The value `num / den * 10^ideal`, rounded to the context, with the exponent `ideal` where that
is exact. -/
def round (c : Context) (negative : Bool) (num den : Nat) (ideal : Int) : Except Signal Decimal :=
  if num = 0 then .ok ⟨negative, 0, max c.leastExponent (min ideal maxExponent)⟩
  else
    let quantum := c.quantum (leadExponent num den + ideal)
    if den = 1 ∧ quantum ≤ ideal then bounded negative num ideal
    else
      let (n, d) := shifted num den (ideal - quantum)
      if n % d = 0 then withoutZeros negative (n / d) quantum (ideal - quantum).toNat
      else c.roundAt negative n d quantum

end Context

end Reckon

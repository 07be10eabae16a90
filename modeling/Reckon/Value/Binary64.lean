import Reckon.Decimal.Rounding

/-!
# Binary floating-point numbers

A decimal fraction in a document stands for the nearest number with 53 binary digits and a binary
exponent of at least -1074; ties go to the even one, and a magnitude that rounds to `2^1024` or more
is infinite.

## Main definitions

* `Binary64`: not a number, an infinity, or a signed integer times a power of two
* `Binary64.ofDecimal`: the nearest floating-point number
* `Binary64.toInt?`: the integer that a floating-point number is
-/

namespace Reckon

-- Powers are those of the core library, whatever else is imported.
attribute [local instance (high)] instPowNat

/-- A floating-point number. -/
inductive Binary64 where
  | notANumber
  | infinite (negative : Bool)
  /-- the number `(-1)^negative * mantissa * 2^exponent` -/
  | finite (negative : Bool) (mantissa : Nat) (exponent : Int)
  deriving DecidableEq, Repr

namespace Binary64

/-- The number of binary digits of a mantissa. -/
def width : Nat := 53

/-- The least exponent of a mantissa. -/
def minExponent : Int := -1074

/-- The fraction `num / den * 2^(-e)`. -/
def inUnits (num den : Nat) (e : Int) : Nat × Nat :=
  if 0 ≤ e then (num, den * 2 ^ e.toNat) else (num * 2 ^ (-e).toNat, den)

/-- The exponent of the mantissa of a positive fraction: the quotient in its units has `width`
binary digits, or fewer at the least exponent. -/
def mantissaExponent (num den : Nat) : Int :=
  let guess : Int := (Nat.log2 num : Int) - Nat.log2 den - width + 1
  let (n, d) := inUnits num den guess
  let e := if n / d < 2 ^ (width - 1) then guess - 1 else guess
  max e minExponent

/-- The floating-point number nearest to a fraction. -/
def ofFraction (negative : Bool) (num den : Nat) : Binary64 :=
  if num = 0 then finite negative 0 minExponent
  else
    let e := mantissaExponent num den
    let (n, d) := inUnits num den e
    let rounded := divideHalfEven n d
    let (m, e) := if rounded = 2 ^ width then (2 ^ (width - 1), e + 1) else (rounded, e)
    if m * 2 ^ (e - minExponent).toNat < 2 ^ (1024 - minExponent).toNat then finite negative m e
    else infinite negative

/-- The floating-point number nearest to a decimal number. -/
def ofDecimal (a : Decimal) : Binary64 :=
  let lead := (Numeral.log10 a.coefficient : Int) + a.exponent
  if a.isZero ∨ lead < -400 then finite a.negative 0 minExponent
  else if 400 < lead then infinite a.negative
  else if 0 ≤ a.exponent then
    ofFraction a.negative (a.coefficient * 10 ^ a.exponent.toNat) 1
  else ofFraction a.negative a.coefficient (10 ^ (-a.exponent).toNat)

/-- The floating-point number nearest to an integer times a power of two. -/
def ofScaled (n : Int) (e : Int) : Binary64 :=
  if 0 ≤ e then ofFraction (n < 0) (n.natAbs * 2 ^ e.toNat) 1
  else ofFraction (n < 0) n.natAbs (2 ^ (-e).toNat)

/-- The mantissa with its sign. -/
def signed (negative : Bool) (m : Nat) : Int := if negative then -m else m

/-- The sum of two floating-point numbers. -/
def add : Binary64 → Binary64 → Binary64
  | finite a m e, finite b n f =>
    let least := min e f
    let units (negative : Bool) (m : Nat) (e : Int) : Int :=
      signed negative m * 2 ^ (e - least).toNat
    ofScaled (units a m e + units b n f) least
  | finite .., x | x, finite .. => x
  | infinite a, infinite b => if a = b then infinite a else notANumber
  | _, _ => notANumber

/-- A floating-point number times a positive integer. -/
def times (factor : Nat) : Binary64 → Binary64
  | finite a m e => ofScaled (signed a m * factor) e
  | x => x

/-- A floating-point number with the opposite sign. -/
def negated : Binary64 → Binary64
  | notANumber => notANumber
  | infinite a => infinite !a
  | finite a m e => finite (!a) m e

/-- The integer that a floating-point number is. -/
def toInt? : Binary64 → Option Int
  | finite negative m e =>
    let (n, d) := if 0 ≤ e then (m * 2 ^ e.toNat, 1) else (m, 2 ^ (-e).toNat)
    if n % d = 0 then
      let magnitude : Int := (n / d : Nat)
      some (if negative then -magnitude else magnitude)
    else none
  | _ => none

/-- Whether a floating-point number is zero, of either sign. -/
def isZero : Binary64 → Bool
  | finite _ 0 _ => true
  | _ => false

/-- Whether a floating-point number is neither infinite nor no number. -/
def isFinite : Binary64 → Bool
  | finite .. => true
  | _ => false

end Binary64

end Reckon

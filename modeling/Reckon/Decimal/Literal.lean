import Reckon.Decimal.Basic
import Reckon.Numeral

/-!
# Decimal literals and plain notation

A literal is an optional sign and digits with at most one point among them, of which at least one
digit; one line feed after it is ignored. Its value is exact, and its exponent is the number of
digits after the point, negated.

A number is written in plain notation, without an exponent: as many digits after the point as its
exponent tells, zeros for a positive exponent, and no sign for zero. This is the canonical text of a
value and its scale.

## Main definitions

* `Decimal.ofLiteral?`: the number that a text is a literal of
* `Decimal.plain`: a number in plain notation
* `Decimal.canonical?`: a literal in plain notation
-/

namespace Reckon

namespace Decimal

/-- A text without the line feed at its end, if there is one. -/
def withoutLineFeed (t : Text) : Text :=
  if t.getLast? = some '\n' then t.dropLast else t

/-- The sign of a literal, and the literal without it. -/
def readSign : Text → Bool × Text
  | '-' :: t => (true, t)
  | '+' :: t => (false, t)
  | t => (false, t)

/-- The number with given digits before and after the point. -/
def ofDigits (negative : Bool) (whole fraction : Text) : Decimal where
  negative := negative
  coefficient := Numeral.join ((whole ++ fraction).map DecimalDigit.value)
  exponent := -(fraction.length : Int)

/-- The number whose digits, after the sign, are a text. -/
def ofUnsigned? (negative : Bool) (t : Text) : Option Decimal :=
  let whole := t.takeWhile DecimalDigit.isDigit
  match t.dropWhile DecimalDigit.isDigit with
  | [] => if whole.isEmpty then none else some (ofDigits negative whole [])
  | '.' :: fraction =>
    if fraction.all DecimalDigit.isDigit && !(whole.isEmpty && fraction.isEmpty) then
      some (ofDigits negative whole fraction)
    else none
  | _ => none

/-- The number that a text is a literal of. -/
def ofLiteral? (t : Text) : Option Decimal :=
  let (negative, body) := readSign (withoutLineFeed t)
  ofUnsigned? negative body

/-- Whether a text is a literal. -/
def isLiteral (t : Text) : Bool := (ofLiteral? t).isSome

/-- Digits with a point before the last `places` of them, led by zeros where they are too few. -/
def pointed (ds : Text) (places : Nat) : Text :=
  let padded := List.replicate (places + 1 - ds.length) '0' ++ ds
  let whole := padded.length - places
  padded.take whole ++ '.' :: padded.drop whole

/-- The absolute value of a number in plain notation. -/
def plainMagnitude (a : Decimal) : Text :=
  if 0 ≤ a.exponent then
    if a.coefficient = 0 then ['0']
    else Numeral.toText a.coefficient ++ List.replicate a.exponent.toNat '0'
  else pointed (Numeral.toText a.coefficient) (-a.exponent).toNat

/-- A number in plain notation; zero has no sign. -/
def plain (a : Decimal) : Text :=
  if a.negative && !a.isZero then '-' :: plainMagnitude a else plainMagnitude a

/-- A literal in plain notation. -/
def canonical? (t : Text) : Option Text := (ofLiteral? t).map plain

end Decimal

end Reckon

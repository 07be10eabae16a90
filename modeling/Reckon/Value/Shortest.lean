import Reckon.Value.Binary64

/-!
# Floating-point numbers in decimal digits

A floating-point number is written with the fewest decimal digits that are read back as the same
number; of several such decimals the nearest one is taken. The digits are written with a point where
the highest one stands for at least `10^(-4)` and less than `10^16`, and with an exponent otherwise.

## Main definitions

* `Binary64.shortest`: the digits of a positive number and the exponent of the last one
* `Binary64.written`: a floating-point number as a text
-/

namespace Reckon

-- Powers are those of the core library, whatever else is imported.
attribute [local instance (high)] instPowNat

namespace Binary64

/-- The number of decimal digits that are always enough. -/
def enoughDigits : Nat := 17

/-- A fraction in units of `10^e`, rounded down, and whether the unit above is nearer. Of two
equally near ones the even one counts as nearer. -/
def inPowers (num den : Nat) (e : Int) : Nat × Bool :=
  let (n, d) := if 0 ≤ e then (num, den * 10 ^ e.toNat) else (num * 10 ^ (-e).toNat, den)
  (n / d, divideHalfEven n d != n / d)

/-- The least power of ten above a positive fraction. -/
def leastAbove (num den : Nat) : Int :=
  let guess : Int := (Numeral.log10 num : Int) - Numeral.log10 den
  if (inPowers num den guess).1 = 0 then guess else guess + 1

/-- The neighbour of a fraction among the multiples of `10^e` that is read back as `x`; the nearer
one, if both are. -/
def readingBack? (x : Binary64) (num den : Nat) (e : Int) : Option Nat :=
  let (low, above) := inPowers num den e
  (if above then [low + 1, low] else [low, low + 1]).find? fun n => ofDecimal ⟨false, n, e⟩ == x

/-- The fewest digits that are read back as a positive number, and the exponent of the last one. -/
def shortest (m : Nat) (e : Int) : Nat × Int :=
  let (num, den) := if 0 ≤ e then (m * 2 ^ e.toNat, 1) else (m, 2 ^ (-e).toNat)
  let top := leastAbove num den
  let found := (List.range' 1 enoughDigits).findSome? fun (count : Nat) =>
    (readingBack? (finite false m e) num den (top - count)).map fun n => (n, top - count)
  found.getD (0, 0)

/-- The least exponent of a number that is written with a point only. -/
def leastPlain : Int := -4

/-- The least exponent of a number above one that is written with an exponent. -/
def leastScientific : Int := 16

/-- A positive number that is written in some digits, of which the last one has a given exponent. -/
def layOut (n : Nat) (e : Int) : Text :=
  let ds := Numeral.toText (n / 10 ^ Numeral.trailingZeros enoughDigits n)
  let lead := e + Numeral.log10 n
  let whole := (lead + 1).toNat
  if lead < leastPlain || leastScientific ≤ lead then
    let fraction := if ds.length = 1 then [] else '.' :: ds.drop 1
    let exponent := Numeral.toText lead.natAbs
    ds.take 1 ++ fraction ++ ['e', if lead < 0 then '-' else '+'] ++
      List.replicate (2 - exponent.length) '0' ++ exponent
  else if lead < 0 then ['0', '.'] ++ List.replicate (-lead - 1).toNat '0' ++ ds
  else if ds.length ≤ whole then ds ++ List.replicate (whole - ds.length) '0' ++ ['.', '0']
  else ds.take whole ++ '.' :: ds.drop whole

/-- A floating-point number as a text. -/
def written : Binary64 → Text
  | notANumber => ['n', 'a', 'n']
  | infinite negative => if negative then ['-', 'i', 'n', 'f'] else ['i', 'n', 'f']
  | finite negative m e =>
    let t := if m = 0 then ['0', '.', '0'] else layOut (shortest m e).1 (shortest m e).2
    if negative then '-' :: t else t

end Binary64

end Reckon

import Reckon.Text

/-!
# Numerals

A natural number and its digits, in base ten and without leading zeros. Numbers of a million digits
are usual here, so the work is halved instead of being done digit by digit: neighbouring digits are
joined into digits of the squared base, and a number is parted by powers of ten whose exponents are
powers of two.

The characters that are read as digits are those of the general category Nd. They come in runs of
ten with the values from zero to nine, so that the zeros determine all of them.

## Main definitions

* `Numeral.value base ds`: the number whose digits, the lowest first, are `ds`
* `Numeral.join`: the number with given digits, the highest first
* `Numeral.digits`: the digits of a number, the highest first
* `Numeral.log10`: the exponent of the highest power of ten not above a number
* `Numeral.trailingZeros limit n`: the number of zeros at the end of `n`, at most `limit`
* `Numeral.toText`: a number in decimal digits
* `DecimalDigit.value?`: the value of a character that is a digit
-/

namespace Reckon

-- Powers are those of the core library, whatever else is imported.
attribute [local instance (high)] instPowNat

namespace Numeral

/-! ## From digits to a number -/

/-- The number whose digits in a base, the lowest first, are given. -/
def value (base : Nat) : List Nat → Nat
  | [] => 0
  | d :: ds => d + base * value base ds

/-- Joins neighbouring digits to digits of the squared base; `done` holds the joined ones,
backwards. -/
def joinPairs (base : Nat) : List Nat → (done : List Nat) → List Nat
  | d :: e :: ds, done => joinPairs base ds ((d + base * e) :: done)
  | [d], done => (d :: done).reverse
  | [], done => done.reverse

/-- The number whose digits, the lowest first, are given, by at most `rounds` squarings of the
base. -/
def joinFrom : (rounds : Nat) → (base : Nat) → List Nat → Nat
  | rounds + 1, base, d :: e :: ds =>
    joinFrom rounds (base * base) (joinPairs base (d :: e :: ds) [])
  | _, base, ds => value base ds

/-- The number whose decimal digits, the highest first, are given. -/
def join (ds : List Nat) : Nat := joinFrom ds.length 10 ds.reverse

/-! ## From a number to digits -/

/-- The work of `squares`: the powers still to come begin with `p`, and `done` holds those
before. -/
def squaresFrom (n : Nat) : (rounds : Nat) → (p : Nat) → (done : List Nat) → List Nat
  | 0, _, done => done
  | rounds + 1, p, done => if p ≤ n then squaresFrom n rounds (p * p) (p :: done) else done

/-- The powers of ten up to `n` whose exponents are powers of two, the highest first. -/
def squares (n : Nat) : List Nat := squaresFrom n (Nat.log2 n + 1) 10 []

/-- Writes in front of `done` the digits of `n`, parted by each of the powers in turn. -/
def part : (powers : List Nat) → (n : Nat) → (done : List Nat) → List Nat
  | [], n, done => n :: done
  | p :: ps, n, done => part ps (n / p) (part ps (n % p) done)

/-- The decimal digits of a number, the highest first and without leading zeros; none for zero. -/
def digits (n : Nat) : List Nat := (part (squares n) n []).dropWhile (· == 0)

/-- The exponent of the highest power of ten not above `n`, found by the given powers. -/
def logFrom : (powers : List Nat) → (n : Nat) → Nat
  | [], _ => 0
  | p :: ps, n => if p ≤ n then 2 ^ ps.length + logFrom ps (n / p) else logFrom ps n

/-- The exponent of the highest power of ten not above `n`; zero for zero. -/
def log10 (n : Nat) : Nat := logFrom (squares n) n

/-- The number of zeros, at most `limit`, that end the digits of `n`, found by the given powers. -/
def zerosFrom : (powers : List Nat) → (limit : Nat) → (n : Nat) → Nat
  | [], _, _ => 0
  | p :: ps, limit, n =>
    if 2 ^ ps.length ≤ limit ∧ n % p = 0 then
      2 ^ ps.length + zerosFrom ps (limit - 2 ^ ps.length) (n / p)
    else zerosFrom ps limit n

/-- The number of zeros, at most `limit`, that end the digits of `n`. -/
def trailingZeros (limit n : Nat) : Nat := zerosFrom (squares n) limit n

/-! ## Digits as characters -/

/-- The character of a digit. -/
def digitChar (d : Nat) : Char := Char.ofNat (48 + d)

/-- A number in decimal digits. -/
def toText (n : Nat) : Text := if n = 0 then ['0'] else (digits n).map digitChar

end Numeral

namespace DecimalDigit

/-- The code points of the decimal digits of value zero. -/
def zeros : List Nat :=
  [0x30, 0x660, 0x6F0, 0x7C0, 0x966, 0x9E6, 0xA66, 0xAE6, 0xB66, 0xBE6, 0xC66, 0xCE6, 0xD66, 0xDE6,
   0xE50, 0xED0, 0xF20, 0x1040, 0x1090, 0x17E0, 0x1810, 0x1946, 0x19D0, 0x1A80, 0x1A90, 0x1B50,
   0x1BB0, 0x1C40, 0x1C50, 0xA620, 0xA8D0, 0xA900, 0xA9D0, 0xA9F0, 0xAA50, 0xABF0, 0xFF10, 0x104A0,
   0x10D30, 0x11066, 0x110F0, 0x11136, 0x111D0, 0x112F0, 0x11450, 0x114D0, 0x11650, 0x116C0,
   0x11730, 0x118E0, 0x11950, 0x11C50, 0x11D50, 0x11DA0, 0x16A60, 0x16AC0, 0x16B50, 0x1D7CE,
   0x1D7D8, 0x1D7E2, 0x1D7EC, 0x1D7F6, 0x1E140, 0x1E2F0, 0x1E950, 0x1FBF0]

/-- The value of a decimal digit, found by the zero of its run. -/
def value? (c : Char) : Option Nat :=
  (zeros.find? fun z => z ≤ c.toNat && c.toNat < z + 10).map (c.toNat - ·)

/-- Whether a character is a decimal digit. -/
def isDigit (c : Char) : Bool := (value? c).isSome

/-- The value of a decimal digit, and zero for any other character. -/
def value (c : Char) : Nat := (value? c).getD 0

end DecimalDigit

end Reckon

import Reckon.Text.Printable

/-!
# Texts between quotes

A text as it stands in a message: between quotes, with escapes for backslashes, quotes and
characters that are not printable.

## Main definitions

* `Text.quoted`: a text between quotes
* `Text.quotedBytes`: bytes between quotes
-/

namespace Reckon

namespace Text

/-- A number in base sixteen, with at least `width` digits. -/
def hexadecimal (width n : Nat) : Text :=
  let digits := Nat.toDigits 16 n
  List.replicate (width - digits.length) '0' ++ digits

/-- A code point as an escape of the shortest form that has room for it. -/
def codeEscape (n : Nat) : Text :=
  if n < 0x100 then '\\' :: 'x' :: hexadecimal 2 n
  else if n < 0x10000 then '\\' :: 'u' :: hexadecimal 4 n
  else '\\' :: 'U' :: hexadecimal 8 n

/-- A character between quotes of a given kind. -/
def escaped (quote c : Char) : Text :=
  if c = quote || c = '\\' then ['\\', c]
  else if c = '\t' then ['\\', 't']
  else if c = '\n' then ['\\', 'n']
  else if c = '\x0d' then ['\\', 'r']
  else if isPrintable c then [c]
  else codeEscape c.toNat

/-- The quote for a text: a single one, unless the text holds single ones but no double ones. -/
def quoteFor (t : Text) : Char := if t.contains '\'' && !t.contains '"' then '"' else '\''

/-- A text between quotes. -/
def quoted (t : Text) : Text :=
  let quote := quoteFor t
  quote :: t.flatMap (escaped quote) ++ [quote]

/-- Bytes between quotes, after a mark: those of printable characters below 128 as characters, the
others as escapes. -/
def quotedBytes (bytes : List UInt8) : Text :=
  let t := bytes.map fun b => Char.ofNat b.toNat
  let quote := quoteFor t
  let byte (c : Char) := if c.toNat < 128 then escaped quote c else codeEscape c.toNat
  'b' :: quote :: t.flatMap byte ++ [quote]

end Text

end Reckon

import Reckon.Decimal.Literal

/-!
# Integers written as texts

A setting that wants an integer takes a text that holds one: digits after an optional minus and
without leading zeros. Where that fails, the text is tidied once and read again: blanks around it, a
plus, leading zeros, a fraction of zeros and single underscores between digits are removed. A text
that begins with too long a number is refused for that before anything else.

## Main definitions

* `IntegerText.ofDigits?`: the integer of a text that needs no tidying
* `IntegerText.tidy?`: the text with all that may stand around an integer removed
* `IntegerText.read`: the integer of a text
-/

namespace Reckon

namespace IntegerText

/-- Why a text yields no integer. -/
inductive Refusal where
  | notAnInteger
  | tooLong
  deriving DecidableEq, Repr

/-- The most characters that an integer may have, its minus included. -/
def maxLength : Nat := 4300

/-- The length of the number at the head of a text, with its minus. A number begins with a digit
other than zero. -/
def headLength (t : Text) : Nat :=
  let (signLength, t) := match t with
    | '-' :: t => (1, t)
    | t => (0, t)
  if t.head? == some '0' then 0 else signLength + (t.takeWhile Char.isDigit).length

/-- Whether a text begins with too long a number. -/
def isLong (t : Text) : Bool := maxLength < headLength t

/-- An integer written in digits, after an optional minus and without leading zeros. -/
def ofDigits? (t : Text) : Option Int :=
  let (negative, digits) := match t with
    | '-' :: t => (true, t)
    | t => (false, t)
  if digits.isEmpty || !digits.all Char.isDigit || (digits.head? == some '0' && digits.length != 1)
  then none
  else
    let n : Int := Numeral.join (digits.map DecimalDigit.value)
    some (if negative then -n else n)

/-- The sign of a text, of which a plus is dropped, and the text after it. -/
def splitSign : Text → Text × Text
  | '+' :: t => ([], t)
  | '-' :: t => (['-'], t)
  | t => ([], t)

/-- What remains of a text after a zero, `last`, when zeros and underscores are passed over. A minus
counts as the beginning of a number. -/
def afterZeros (last : Char) : Text → Option Text
  | [] => some [last]
  | c :: t =>
    if c == '0' || c == '_' then afterZeros c t
    else if c.isDigit || c == '-' then some (c :: t)
    else if c == '.' then some (last :: c :: t)
    else none

/-- A text without leading zeros, of which one remains if nothing but a fraction follows. -/
def withoutZeros? : Text → Option Text
  | '0' :: t => afterZeros '0' t
  | c :: t => if c.isDigit then some (c :: t) else none
  | [] => none

/-- A text without a fraction of zeros. A point alone is no fraction. -/
def withoutFraction (t : Text) : Text :=
  match t.dropWhile (· != '.') with
  | '.' :: fraction =>
    if !fraction.isEmpty && fraction.all (· == '0') then t.takeWhile (· != '.') else t
  | _ => t

/-- Whether two underscores follow one another. -/
def doubled : Text → Bool
  | '_' :: '_' :: _ => true
  | _ :: t => doubled t
  | [] => false

/-- A text without its underscores, if they are single ones and only inside. -/
def withoutUnderscores (t : Text) : Text :=
  if t.head? == some '_' || t.getLast? == some '_' || doubled t then t
  else t.filter (· != '_')

/-- A text with all that may stand around an integer removed, if it begins like one. -/
def tidy? (t : Text) : Option Text := do
  let (sign, t) := splitSign (Text.trim t)
  some (sign ++ withoutUnderscores (withoutFraction (← withoutZeros? t)))

/-- The integer of a text. -/
def read (t : Text) : Except Refusal Int :=
  if isLong t then .error .tooLong
  else
    match ofDigits? t <|> ((tidy? t).filter (!isLong ·)).bind ofDigits? with
    | some n => .ok n
    | none => .error .notAnInteger

end IntegerText

end Reckon

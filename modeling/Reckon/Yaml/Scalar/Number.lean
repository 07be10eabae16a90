import Reckon.Numeral
import Reckon.Yaml.Fault

/-!
# Numbers in texts

Readers of integers and of real numbers that a text holds alone. Blanks may stand around the number,
a sign in front of it, and its digits may be those of any script.

## Main definitions

* `Yaml.Number.integer`: the integer of a text in a base
* `Yaml.Number.real`: the real number of a text
-/

namespace Reckon

namespace Yaml

namespace Number

/-- A text with spaces for the blanks and digits of any script in their plain form. Characters below
128 stay as they are. -/
def plainForm (t : Text) : Text :=
  t.map fun c =>
    if c.toNat < 128 then c
    else if Text.isBlank c then ' '
    else ((DecimalDigit.value? c).map Numeral.digitChar).getD c

/-- Whether a text begins with a minus. -/
def isNegative (t : Text) : Bool := t.head? == some '-'

/-- A text without its sign. -/
def unsigned : Text → Text
  | '-' :: t | '+' :: t => t
  | t => t

/-- The value of a digit in a base up to sixteen. -/
def digit? (base : Nat) (c : Char) : Option Nat :=
  let d :=
    if c.isDigit then c.toNat - 48
    else if 'a' ≤ c && c ≤ 'f' then c.toNat - 87
    else if 'A' ≤ c && c ≤ 'F' then c.toNat - 55
    else base
  if d < base then some d else none

/-- A text without the mark of its base: a zero and a letter. -/
def withoutMark (base : Nat) : Text → Text
  | '0' :: c :: t =>
    if (base = 2 ∧ (c = 'b' ∨ c = 'B')) ∨ (base = 8 ∧ (c = 'o' ∨ c = 'O')) ∨
      (base = 16 ∧ (c = 'x' ∨ c = 'X'))
    then t
    else '0' :: c :: t
  | t => t

/-- The number that digits of a base write, the highest first. -/
def ofDigits (base : Nat) (digits : List Nat) : Nat :=
  if base = 10 then Numeral.join digits else digits.foldl (fun n d => n * base + d) 0

/-- The integer that a text holds in a base. In base ten the number of digits is limited. -/
def integer (base : Nat) (t : Text) : Except Unreadable Int :=
  let signed := Text.trim (plainForm t)
  let body := withoutMark base (unsigned signed)
  let digits := (body.takeWhile fun c => (digit? base c).isSome).filterMap (digit? base)
  if base = 10 ∧ Unreadable.maxDigits < digits.length then .error (.tooManyDigits digits.length)
  else if digits.isEmpty ∨ digits.length ≠ body.length then .error (.notInteger base t)
  else
    let n : Int := ofDigits base digits
    .ok (if isNegative signed then -n else n)

/-- The exponent that a text writes after its mark; zero if there is none. -/
def exponent? : Text → Option Int
  | [] => some 0
  | 'e' :: t =>
    let digits := unsigned t
    if digits.isEmpty || !digits.all Char.isDigit then none
    else
      let n : Int := Numeral.join (digits.map DecimalDigit.value)
      some (if isNegative t then -n else n)
  | _ => none

/-- The decimal number that a text without sign writes, with a point or an exponent or both. -/
def decimal? (negative : Bool) (t : Text) : Option Decimal :=
  let whole := t.takeWhile Char.isDigit
  let (fraction, rest) := match t.dropWhile Char.isDigit with
    | '.' :: r => (r.takeWhile Char.isDigit, r.dropWhile Char.isDigit)
    | r => ([], r)
  if whole.isEmpty && fraction.isEmpty then none
  else
    (exponent? rest).map fun e =>
      ⟨negative, Numeral.join ((whole ++ fraction).map DecimalDigit.value), e - fraction.length⟩

/-- The words for an infinite number. -/
def infinityWords : List Text := ["inf".toList, "infinity".toList]

/-- The word for what is no number. -/
def nanWord : Text := "nan".toList

/-- The real number that a text in lower case holds. -/
def real (t : Text) : Except Unreadable Binary64 :=
  let signed := Text.trim (plainForm t)
  let body := unsigned signed
  if infinityWords.contains body then .ok (.infinite (isNegative signed))
  else if body = nanWord then .ok .notANumber
  else
    match decimal? (isNegative signed) body with
    | some a => .ok (Binary64.ofDecimal a)
    | none => .error (.notReal t)

end Number

end Yaml

end Reckon

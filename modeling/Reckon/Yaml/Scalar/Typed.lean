import Reckon.Encoding.Base64
import Reckon.Text.LowerCase
import Reckon.Yaml.Scalar.Number
import Reckon.Yaml.Tag

/-!
# Scalars with a type

The value of a scalar whose type is known. A type that stands in the document need not fit the text;
a text that does not write a value of its type is unreadable.

## Main definitions

* `Yaml.Typed.value`: the value of a scalar
-/

namespace Reckon

namespace Yaml

namespace Typed

/-- A text without its underscores. -/
def withoutUnderscores (t : Text) : Text := t.filter (· != '_')

/-- The parts of a text between colons. -/
def colonParts (t : Text) : List Text := t.splitOn ':'

/-- The integer that the text of an integer without its first sign writes. -/
def magnitude : Text → Except Unreadable Int
  | [] => .error .nothing
  | ['0'] => .ok 0
  | '0' :: 'b' :: t => Number.integer 2 t
  | '0' :: 'x' :: t => Number.integer 16 t
  | '0' :: t => Number.integer 8 ('0' :: t)
  | t => (colonParts t).foldlM (fun n part => (Number.integer 10 part).map (n * 60 + ·)) 0

/-- The integer that a text writes. -/
def integer (t : Text) : Except Unreadable Int :=
  let t := withoutUnderscores t
  (magnitude (Number.unsigned t)).map fun n => if Number.isNegative t then -n else n

/-- The real number that parts in base sixty write. It is summed up from the last part on, and
rounded at every step. -/
def sixties (parts : List Text) : Except Unreadable Binary64 := do
  let numbers ← parts.mapM Number.real
  let (sum, _) := numbers.reverse.foldl
    (fun (sum, factor) x => (sum.add (x.times factor), factor * 60))
    (Binary64.finite false 0 Binary64.minExponent, 1)
  return sum

/-- The real number that a text writes. -/
def real (t : Text) : Except Unreadable Binary64 :=
  let t := Text.lower (withoutUnderscores t)
  let u := Number.unsigned t
  let positive :=
    if t.isEmpty then .error .nothing
    else if Tag.infinityTexts.contains u then .ok (.infinite false)
    else if Tag.nanTexts.contains u then .ok .notANumber
    else if u.contains ':' then sixties (colonParts u)
    else Number.real u
  positive.map fun x => if Number.isNegative t then x.negated else x

/-- The truth value that a text writes, in any case. -/
def boolean (t : Text) : Except Unreadable Bool :=
  let t := Text.lower t
  if Tag.trueTexts.contains t then .ok true
  else if Tag.falseTexts.contains t then .ok false
  else .error (.notBoolean t)

/-- The value of a scalar of a type. -/
def value : Tag → Text → Except Fault Value
  | .null, _ => .ok .null
  | .text, t => .ok (.text t)
  | .boolean, t => ((boolean t).map .boolean).mapError .unreadable
  | .integer, t => ((integer t).map .integer).mapError .unreadable
  | .real, t => ((real t).map .real).mapError .unreadable
  | .timestamp, t => (Timestamp.value (Tag.withoutLastBreak t)).mapError .unreadable
  | .bytes, t =>
    (orMalformed (if t.all (·.toNat < 128) then Base64.decode? t else none)).map .bytes
  | _, _ => .error .malformed

end Typed

end Yaml

end Reckon

import Reckon.Value.Written

/-!
# Faults of a document

A document without a value is malformed, or something in it is unreadable: the text of a scalar does
not write a value of the type that its tag or its form gives it, or an escape names no character. A
token that is not complete may be so because only a part of the document can be read.

## Main definitions

* `Yaml.Unreadable`, with `Yaml.Unreadable.message`: why something has no value
* `Yaml.Fault`: why a document has no value
-/

namespace Reckon

namespace Yaml

/-- Why something in a document does not write a value. -/
inductive Unreadable where
  /-- no text where a number should be -/
  | nothing
  /-- the text is no integer in a base -/
  | notInteger (base : Nat) (text : Text)
  /-- the integer has too many decimal digits -/
  | tooManyDigits (count : Nat)
  | notReal (text : Text)
  | notBoolean (text : Text)
  | notTimestamp
  | year (year : Nat)
  | month
  | day
  | hour
  | minute
  | second
  /-- the distance of the time zone, in minutes, is a day or more -/
  | zone (minutes : Int)
  /-- an escape is beyond the last character -/
  | notCharacter
  deriving DecidableEq, Repr

namespace Unreadable

/-- The most decimal digits that an integer may have. -/
def maxDigits : Nat := 4300

/-- A text between quotes, as a part of a wording. -/
def quote (t : Text) : String := String.ofList (Text.quoted t)

/-- The wording of the reason. -/
def message : Unreadable → String
  | nothing => "string index out of range"
  | notInteger base t =>
    "invalid literal for int() with base " ++ toString base ++ ": " ++ quote t
  | tooManyDigits count =>
    "Exceeds the limit (" ++ toString maxDigits ++
      " digits) for integer string conversion: value has " ++ toString count ++
      " digits; use sys.set_int_max_str_digits() to increase the limit"
  | notReal t => "could not convert string to float: " ++ quote t
  | notBoolean t => quote t
  | notTimestamp => "'NoneType' object has no attribute 'groupdict'"
  | year n => "year " ++ toString n ++ " is out of range"
  | month => "month must be in 1..12"
  | day => "day is out of range for month"
  | hour => "hour must be in 0..23"
  | minute => "minute must be in 0..59"
  | second => "second must be in 0..59"
  | zone minutes =>
    "offset must be a timedelta strictly between -timedelta(hours=24) and timedelta(hours=24), " ++
      "not " ++ String.ofList (spanText minutes) ++ "."
  | notCharacter => "chr() arg not in range(0x110000)"

end Unreadable

/-- Why a document has no value. -/
inductive Fault where
  /-- the document is not well formed, or a node does not fit its tag -/
  | malformed
  /-- something in the document does not write a value -/
  | unreadable (reason : Unreadable)
  /-- what is read of the document ends inside a token -/
  | ended
  deriving DecidableEq, Repr

/-- A part of a document that is malformed if it is missing. -/
def orMalformed {α : Type} : Option α → Except Fault α
  | some a => .ok a
  | none => .error .malformed

end Yaml

end Reckon

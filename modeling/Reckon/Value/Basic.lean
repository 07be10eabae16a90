import Reckon.Text
import Reckon.Value.Binary64
import Reckon.Value.Calendar

/-!
# Untyped data

The data that settings are read from: what a document holds before anything is known about its
shape. Mappings keep the order in which their keys first came; a later entry for the same key
replaces the value.

## Main definitions

* `Value`: untyped ordered data
* `Value.put`: an entry added to a mapping
* `Value.find?`: the value under a text
* `Value.isEmpty`: whether a value counts as nothing
-/

namespace Reckon

/-- Untyped ordered data. -/
inductive Value where
  | null
  | boolean (b : Bool)
  | integer (n : Int)
  | real (x : Binary64)
  | text (t : Text)
  | bytes (bs : List UInt8)
  | date (d : Date)
  | moment (m : Moment)
  | sequence (items : List Value)
  | mapping (entries : List (Value × Value))
  /-- a set; its members are the keys of the entries -/
  | set (entries : List (Value × Value))
  deriving Inhabited, Repr

namespace Value

/-- What a value without parts is as a key: truth values, integers and integral reals are the same
key when they are the same number, and points in time with a zone when they are the same instant. -/
inductive Key where
  | null
  | number (n : Int)
  | real (x : Binary64)
  | text (t : Text)
  | bytes (bs : List UInt8)
  | date (d : Date)
  | moment (m : Moment)
  | instant (microseconds : Int)
  deriving DecidableEq, Repr

/-- The key that a value is, unless it has parts. -/
def key? : Value → Option Key
  | null => some .null
  | boolean b => some (.number (if b then 1 else 0))
  | integer n => some (.number n)
  | real x => some (x.toInt?.elim (.real x) .number)
  | text t => some (.text t)
  | bytes bs => some (.bytes bs)
  | date d => some (.date d)
  | moment m => some (m.instant?.elim (.moment m) .instant)
  | sequence _ | mapping _ | set _ => none

/-- Whether two values are the same key. What is no number is not even the same as itself. -/
def isSameKey (a b : Value) : Bool :=
  a.key? == b.key? && a.key? != some (.real .notANumber)

/-- The entries of a mapping with one more: it replaces the value under the same key, or comes
last. -/
def put (entries : List (Value × Value)) (key value : Value) : List (Value × Value) :=
  if entries.any (isSameKey ·.1 key) then
    entries.map fun e => if isSameKey e.1 key then (e.1, value) else e
  else entries ++ [(key, value)]

/-- The value of the entry whose key is a given text. -/
def find? (name : Text) : List (Value × Value) → Option Value
  | [] => none
  | (text t, v) :: entries => if t = name then some v else find? name entries
  | _ :: entries => find? name entries

/-- Whether a value counts as nothing: null, false, zero, or something without content. -/
def isEmpty : Value → Bool
  | null => true
  | boolean b => !b
  | integer n => n == 0
  | real x => x.isZero
  | text t => t.isEmpty
  | bytes bs => bs.isEmpty
  | sequence items => items.isEmpty
  | mapping entries | set entries => entries.isEmpty
  | date _ | moment _ => false

/-- The word for the type of a value. -/
def typeName : Value → String
  | null => "NoneType"
  | boolean _ => "bool"
  | integer _ => "int"
  | real _ => "float"
  | text _ => "str"
  | bytes _ => "bytes"
  | date _ => "date"
  | moment _ => "datetime"
  | sequence _ => "list"
  | mapping _ => "dict"
  | set _ => "set"

end Value

end Reckon

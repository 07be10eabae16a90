/-!
# Base 64

Bytes written in an alphabet of 64 characters, four characters for three bytes. Other characters are
passed over, and a padding that completes four characters ends the text.

## Main definitions

* `Base64.decode?`: the bytes of a text, if it ends with a complete group
-/

namespace Reckon

namespace Base64

/-- The value of a character of the alphabet. -/
def value? (c : Char) : Option Nat :=
  if 'A' ≤ c && c ≤ 'Z' then some (c.toNat - 65)
  else if 'a' ≤ c && c ≤ 'z' then some (c.toNat - 71)
  else if '0' ≤ c && c ≤ '9' then some (c.toNat + 4)
  else if c == '+' then some 62
  else if c == '/' then some 63
  else none

/-- The bytes of a group of values that is not yet complete. -/
def groupBytes : (group : List Nat) → List UInt8
  | [a, b, c, d] =>
    [(a * 4 + b / 16).toUInt8, (b % 16 * 16 + c / 4).toUInt8, (c % 4 * 64 + d).toUInt8]
  | [a, b, c] => [(a * 4 + b / 16).toUInt8, (b % 16 * 16 + c / 4).toUInt8]
  | [a, b] => [(a * 4 + b / 16).toUInt8]
  | _ => []

/-- Decodes a text; `group` holds the values of the group that is not yet complete, and `pads` is
the number of padding characters since the last of them. -/
def decodeFrom : List Char → (group : List Nat) → (pads : Nat) → (done : List UInt8) →
    Option (List UInt8)
  | [], group, _, done => if group.isEmpty then some done else none
  | c :: t, group, pads, done =>
    if c = '=' then
      if 2 ≤ group.length && 4 ≤ group.length + pads + 1 then some (done ++ groupBytes group)
      else decodeFrom t group (if 2 ≤ group.length then pads + 1 else pads) done
    else
      match value? c with
      | none => decodeFrom t group pads done
      | some v =>
        if group.length = 3 then decodeFrom t [] 0 (done ++ groupBytes (group ++ [v]))
        else decodeFrom t (group ++ [v]) 0 done

/-- The bytes of a text, if it ends with a complete group. -/
def decode? (t : List Char) : Option (List UInt8) := decodeFrom t [] 0 []

end Base64

end Reckon

/-!
# UTF-8

The characters of a sequence of bytes in UTF-8. A character takes one to four bytes; no character is
written longer than needed, and surrogates and numbers above 0x10FFFF are none. Where the bytes are
no such sequence, the fault names the bytes at which decoding ends and says what is wrong with them.

## Main definitions

* `Utf8.decode`: the characters of a sequence of bytes
* `Utf8.Fault`, `Utf8.Fault.message`: where and why decoding ends
-/

namespace Reckon

-- Powers are those of the core library, whatever else is imported.
attribute [local instance (high)] instPowNat

namespace Utf8

/-- What is wrong with the bytes at which decoding ends. -/
inductive Reason where
  | invalidStart
  | invalidContinuation
  | endOfData
  deriving DecidableEq, Repr

/-- The wording of a reason. -/
def Reason.message : Reason → String
  | invalidStart => "invalid start byte"
  | invalidContinuation => "invalid continuation byte"
  | endOfData => "unexpected end of data"

/-- The bytes at which decoding ends: the place of the first, the first, their number, and what is
wrong with them. -/
structure Fault where
  position : Nat
  byte : UInt8
  count : Nat
  reason : Reason
  deriving DecidableEq, Repr

/-- A byte in two hexadecimal digits. -/
def hexByte (b : UInt8) : String :=
  let digits := Nat.toDigits 16 b.toNat
  String.ofList (List.replicate (2 - digits.length) '0' ++ digits)

/-- The wording of a fault. -/
def Fault.message (f : Fault) : String :=
  let place :=
    if f.count = 1 then "byte 0x" ++ hexByte f.byte ++ " in position " ++ toString f.position
    else
      "bytes in position " ++ toString f.position ++ "-" ++ toString (f.position + f.count - 1)
  "'utf-8' codec can't decode " ++ place ++ ": " ++ f.reason.message

/-- The number of bytes that follow a first byte, and the range of the second one. -/
def tail? (b : Nat) : Option (Nat × Nat × Nat) :=
  if 0xC2 ≤ b && b ≤ 0xDF then some (1, 0x80, 0xBF)
  else if b == 0xE0 then some (2, 0xA0, 0xBF)
  else if b == 0xED then some (2, 0x80, 0x9F)
  else if 0xE1 ≤ b && b ≤ 0xEF then some (2, 0x80, 0xBF)
  else if b == 0xF0 then some (3, 0x90, 0xBF)
  else if 0xF1 ≤ b && b ≤ 0xF3 then some (3, 0x80, 0xBF)
  else if b == 0xF4 then some (3, 0x80, 0x8F)
  else none

/-- How many of the bytes at the head, at most `count`, continue a character: the first of them in
the range from `low` to `high`, the others from 0x80 to 0xBF. -/
def continuations : (count : Nat) → (low high : Nat) → List UInt8 → Nat
  | count + 1, low, high, b :: bs =>
    if low ≤ b.toNat && b.toNat ≤ high then continuations count 0x80 0xBF bs + 1 else 0
  | _, _, _, _ => 0

/-- The number of the character that a first byte and those after it write. -/
def codePoint (count first : Nat) (rest : List UInt8) : Nat :=
  rest.foldl (fun n b => n * 64 + b.toNat % 64) (first % 2 ^ (6 - count))

/-- The number of bytes that are decoded at a time. -/
def blockSize : Nat := 8192

/-- Whether two places lie in the same block. -/
def sameBlock (p q : Nat) : Bool := p / blockSize == q / blockSize

/-- The place from which the places of faults are counted, for a character at `position` after one
at `before`: the beginning of the block, or of the character that the block before cuts off. -/
def originAt (origin before position : Nat) : Nat :=
  if sameBlock before position then origin
  else if position % blockSize = 0 then position
  else before

/-- Whether the bytes from a place on begin a surrogate that its block or the end cuts off. Such
bytes are kept for the next block, although they begin no character. -/
def cutsSurrogate (position : Nat) : List UInt8 → Bool
  | [b, c] => b == 0xED && 0xA0 ≤ c && c ≤ 0xBF
  | b :: c :: _ => b == 0xED && 0xA0 ≤ c && c ≤ 0xBF && (position + 2) % blockSize == 0
  | _ => false

/-- The place of a fault that the first `read` bytes from `position` on show. -/
def faultPlace (origin position read : Nat) (bs : List UInt8) : Nat :=
  if sameBlock position (position + read - 1) && !cutsSurrogate position bs then position - origin
  else 0

/-- Decodes the bytes from `position` on; `skip` of them belong to the character at `before`, places
are counted from `origin`, and `done` holds the characters so far, backwards. -/
def decodeFrom : (skip : Nat) → (position before origin : Nat) → List UInt8 →
    (done : List Char) → Except Fault (List Char)
  | _, _, _, _, [], done => .ok done.reverse
  | skip + 1, position, before, origin, _ :: bs, done =>
    decodeFrom skip (position + 1) before origin bs done
  | 0, position, before, origin, b :: bs, done =>
    let origin := originAt origin before position
    if b < 0x80 then
      decodeFrom 0 (position + 1) position origin bs (Char.ofNat b.toNat :: done)
    else
      match tail? b.toNat with
      | none => .error ⟨position - origin, b, 1, .invalidStart⟩
      | some (count, low, high) =>
        let found := continuations count low high bs
        if found = count then
          decodeFrom count (position + 1) position origin bs
            (Char.ofNat (codePoint count b.toNat (bs.take count)) :: done)
        else if found = bs.length then .error ⟨0, b, found + 1, .endOfData⟩
        else
          let place := faultPlace origin position (found + 2) (b :: bs)
          .error ⟨place, b, found + 1, .invalidContinuation⟩

/-- The characters of a sequence of bytes, which are decoded in blocks. The place of a fault is
counted from the beginning of its block, to which the bytes of a character belong that the block
before, or the end, cuts off. -/
def decode (bs : List UInt8) : Except Fault (List Char) := decodeFrom 0 0 0 0 bs []

end Utf8

end Reckon

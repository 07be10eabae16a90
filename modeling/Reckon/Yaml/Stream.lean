import Reckon.Encoding.Utf8
import Reckon.Yaml.Cursor
import Reckon.Yaml.Fault

/-!
# Files as streams of characters

A document is read from a file in UTF-8, whose line breaks are turned into line feeds. The file is
read only as far as the document is looked at: bytes are decoded block by block, and characters are
asked for portion by portion. A byte that is not in UTF-8 and a character that is not printable are
faults when their portion is asked for, and a document with a fault of its own before that never
meets them.

## Main definitions

* `DocumentFault`: why a file holds no document
* `Yaml.Stream`: what can be read of a file, and the fault behind it
* `Yaml.Stream.ofText`, `Yaml.Stream.ofBytes`: a text and the bytes of a file as streams
-/

namespace Reckon

/-- Why a file holds no document. -/
inductive DocumentFault where
  /-- a byte that is not in UTF-8 -/
  | encoding (f : Utf8.Fault)
  /-- a fault that concerns the form of the document -/
  | malformed
  /-- the text of a scalar does not write a value -/
  | unreadable (reason : Yaml.Unreadable)
  deriving DecidableEq, Repr

namespace Yaml

/-- The work of `withLineFeeds`; `done` holds the result so far, backwards. -/
def lineFeedsFrom : Text → (done : Text) → Text
  | '\x0d' :: '\n' :: t, done => lineFeedsFrom t ('\n' :: done)
  | '\x0d' :: t, done => lineFeedsFrom t ('\n' :: done)
  | c :: t, done => lineFeedsFrom t (c :: done)
  | [], done => done.reverse

/-- A text with a line feed for every carriage return, alone or before a line feed. -/
def withLineFeeds (t : Text) : Text := lineFeedsFrom t []

/-- What can be read of a file, and the fault that is met behind it; there is none at its end. -/
structure Stream where
  text : Text
  fault? : Option DocumentFault

namespace Stream

/-- The number of characters that are asked for at a time. -/
def portion : Nat := 4096

/-- How many characters can be read if there is a fault behind the first `length`: whole portions,
of which the first two are asked for together. -/
def readable (length : Nat) : Nat :=
  if length < 2 * portion then 0 else length / portion * portion

/-- A text up to the portion with the first character that may not occur in a document. -/
def ofText (t : Text) : Stream :=
  match t.findIdx? (!isPrintable ·) with
  | none => ⟨t, none⟩
  | some n => ⟨t.take (readable n), some .malformed⟩

/-- The characters of the first `count` blocks of bytes, or of as many as there are before a fault.
The last character may be cut off. -/
def decodeBlocks (bytes : List UInt8) : (count : Nat) → Text
  | 0 => []
  | count + 1 =>
    let bs := bytes.take ((count + 1) * Utf8.blockSize)
    match Utf8.decode bs with
    | .ok t => t
    | .error f =>
      if f.reason = .endOfData then
        (Utf8.decode (bs.take (bs.length - f.count))).toOption.getD []
      else decodeBlocks bytes count

/-- The bytes of a file, up to what cannot be decoded. -/
def ofBytes (bytes : List UInt8) : Stream :=
  match Utf8.decode bytes with
  | .ok t => ofText (withLineFeeds t)
  | .error f =>
    let t := withLineFeeds (decodeBlocks bytes (bytes.length / Utf8.blockSize + 1))
    let s := ofText (t.take (readable t.length))
    { s with fault? := s.fault? <|> some (.encoding f) }

theorem ofBytes_of_decode {bytes : List UInt8} {t : Text} (h : Utf8.decode bytes = .ok t) :
    ofBytes bytes = ofText (withLineFeeds t) := by
  rw [ofBytes, h]

/-- A fault of the document: inside a token at its end, the fault behind it is met. -/
def faultOf (s : Stream) : Fault → DocumentFault
  | .malformed => .malformed
  | .unreadable reason => .unreadable reason
  | .ended => s.fault?.getD .malformed

end Stream

end Yaml

end Reckon

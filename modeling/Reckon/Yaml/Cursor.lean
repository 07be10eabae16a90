import Reckon.Text

/-!
# A place in a document

What remains of a document, and where it begins: the number of characters before it, the line and
the column. Line breaks are line feed, next line, line separator and paragraph separator; a document
is read after its other breaks have been turned into line feeds.

## Main definitions

* `Yaml.isBreak`, `Yaml.isBlank`, `Yaml.isPrintable`: classes of characters
* `Yaml.Cursor`: what remains, and where
* `Yaml.Cursor.skip`, `Yaml.Cursor.takeWhile`: moving on
* `Yaml.Cursor.lineBreak?`, `Yaml.Cursor.atMarker`: what stands at a place
-/

namespace Reckon

namespace Yaml

/-- Whether a character ends a line. -/
def isBreak (c : Char) : Bool := c == '\n' || c == '\x85' || c == '\u2028' || c == '\u2029'

/-- Whether a character is a space or a tab. -/
def isBlank (c : Char) : Bool := c == ' ' || c == '\t'

/-- Whether a character may occur in a document. -/
def isPrintable (c : Char) : Bool :=
  c == '\t' || c == '\n' || c == '\x0d' || (' ' ≤ c && c ≤ '~') || c == '\x85' ||
  ('\xa0' ≤ c && c ≤ '\ud7ff') || ('\ue000' ≤ c && c ≤ '\ufffd') || 0x10000 ≤ c.toNat

/-- Whether a character may stand in the name of an anchor, a handle or a directive. -/
def isWord (c : Char) : Bool := c.isAlphanum || c == '-' || c == '_'

/-- Whether a text ends or goes on with a blank or a break. -/
def endsWord : Text → Bool
  | [] => true
  | c :: _ => isBlank c || isBreak c

/-- Whether a text ends or goes on with a space or a break. -/
def endsTag : Text → Bool
  | [] => true
  | c :: _ => c == ' ' || isBreak c

/-- Whether a text ends or goes on with a break. -/
def endsLine : Text → Bool
  | [] => true
  | c :: _ => isBreak c

/-- What remains of a document, and where it begins. -/
structure Cursor where
  rest : Text
  index : Nat
  line : Nat
  column : Nat

namespace Cursor

/-- The beginning of a document. -/
def start (t : Text) : Cursor := ⟨t, 0, 0, 0⟩

/-- The place some characters further on. A byte order mark takes no column. -/
def skip : (count : Nat) → Cursor → Cursor
  | count + 1, ⟨c :: rest, index, line, column⟩ =>
    skip count
      (if isBreak c then ⟨rest, index + 1, line + 1, 0⟩
      else ⟨rest, index + 1, line, if c = '\ufeff' then column else column + 1⟩)
  | _, cursor => cursor

/-- The characters from a place on that have a property, and the place after them. -/
def takeWhile (p : Char → Bool) (c : Cursor) : Text × Cursor :=
  let taken := c.rest.takeWhile p
  (taken, c.skip taken.length)

/-- The place after the characters that have a property. -/
def dropWhile (p : Char → Bool) (c : Cursor) : Cursor := (c.takeWhile p).2

/-- The place after spaces. -/
def dropSpaces (c : Cursor) : Cursor := c.dropWhile (· == ' ')

/-- The place after spaces, at most up to a column. -/
def dropIndent (column : Nat) (c : Cursor) : Cursor :=
  c.skip ((c.rest.takeWhile (· == ' ')).take (column - c.column)).length

/-- The place after a comment, if there is one. -/
def dropComment (c : Cursor) : Cursor :=
  match c.rest with
  | '#' :: _ => c.dropWhile fun d => !isBreak d
  | _ => c

/-- The break at a place, if there is one, and the place after it. Next line counts as a line
feed. -/
def lineBreak? (c : Cursor) : Option (Char × Cursor) :=
  match c.rest with
  | b :: _ => if isBreak b then some (if b = '\x85' then '\n' else b, c.skip 1) else none
  | [] => none

/-- The place after what may end a line: spaces, a comment and the break. -/
def endLine? (c : Cursor) : Option Cursor :=
  let c := c.dropSpaces.dropComment
  if endsLine c.rest then some (c.skip 1) else none

/-- Whether a given marker of three characters stands at a place. -/
def atWord (marker : Text) (c : Cursor) : Bool :=
  marker.isPrefixOf c.rest && endsWord (c.rest.drop 3)

/-- Whether the marker of the start or of the end of a document stands at a place. -/
def atMarker (c : Cursor) : Bool := c.atWord ['-', '-', '-'] || c.atWord ['.', '.', '.']

end Cursor

end Yaml

end Reckon

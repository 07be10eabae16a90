import Reckon.Encoding.Utf8
import Reckon.Yaml.Scalar.Quoted
import Reckon.Yaml.Token.Basic

/-!
# Names, tags and directives

The tokens that carry a name: anchors and aliases, tags, and the directives at the head of a
document.

## Main definitions

* `Yaml.Property.name`: the name of an anchor or an alias
* `Yaml.Property.tag`: a tag
* `Yaml.Property.directive`: a directive
-/

namespace Reckon

namespace Yaml

namespace Property

/-- Whether a text ends or goes on with a character that ends the name of an anchor. -/
def endsName (t : Text) : Bool :=
  endsWord t || t.head?.any (['?', ':', ',', ']', '}', '%', '@', '\x60'].contains ·)

/-- The name of an anchor or an alias, from its mark on. -/
def name (c : Cursor) : Option (Text × Cursor) :=
  let (word, c) := (c.skip 1).takeWhile isWord
  if !word.isEmpty && endsName c.rest then some (word, c) else none

/-- Whether a character may stand in a tag without an escape. -/
def isTagCharacter (c : Char) : Bool :=
  c.isAlphanum || ['-', ';', '/', '?', ':', '@', '&', '=', '+', '$', ',', '_', '.', '!', '~', '*',
    '\'', '(', ')', '[', ']'].contains c

/-- The bytes of the escapes from a place on. -/
def escapedBytes :
    (steps : Nat) → Cursor → (done : List UInt8) → Option (List UInt8 × Cursor)
  | 0, _, _ => none
  | steps + 1, c, done =>
    match c.rest with
    | '%' :: rest => do
      let n ← Quoted.hexNumber? 2 rest
      escapedBytes steps (c.skip 3) (n.toUInt8 :: done)
    | _ => some (done.reverse, c)

/-- The characters of a tag from a place on; `done` holds those so far. -/
def tagCharacters : (steps : Nat) → Cursor → (done : Text) → Option (Text × Cursor)
  | 0, _, _ => none
  | steps + 1, c, done => do
    let (plain, c) := c.takeWhile isTagCharacter
    match c.rest with
    | '%' :: rest =>
      let (bytes, c) ← escapedBytes (rest.length + 1) c []
      let decoded ← (Utf8.decode bytes).toOption
      tagCharacters steps c (done ++ plain ++ decoded)
    | _ => some (done ++ plain, c)

/-- The characters of a tag, of which there must be some. -/
def tagText (c : Cursor) : Option (Text × Cursor) := do
  let (t, c) ← tagCharacters (c.rest.length + 1) c []
  if t.isEmpty then none else some (t, c)

/-- The handle of a tag: one exclamation mark alone, or a word between two of them. -/
def handle (c : Cursor) : Option (Text × Cursor) :=
  match c.rest with
  | '!' :: ' ' :: _ => some (['!'], c.skip 1)
  | '!' :: rest =>
    let word := rest.takeWhile isWord
    if rest[word.length]? == some '!' then some ('!' :: word ++ ['!'], c.skip (word.length + 2))
    else none
  | _ => none

/-- The tag at a place. -/
def tag (c : Cursor) : Option (RawTag × Cursor) := do
  let (t, c) ← match c.rest.drop 1 with
    | '<' :: _ => do
      let (suffix, c) ← tagText (c.skip 2)
      if c.rest.head? == some '>' then some (RawTag.mk none suffix, c.skip 1) else none
    | rest =>
      if endsWord rest then some (RawTag.mk none ['!'], c.skip 1)
      else if (rest.takeWhile fun d => d != ' ' && !isBreak d).contains '!' then do
        let (handle, c) ← handle c
        let (suffix, c) ← tagText c
        some (RawTag.mk (some handle) suffix, c)
      else do
        let (suffix, c) ← tagText (c.skip 1)
        some (RawTag.mk (some ['!']) suffix, c)
  if endsTag c.rest then some (t, c) else none

/-- A number in decimal digits. -/
def number (c : Cursor) : Option (Nat × Cursor) :=
  let (digits, c) := c.takeWhile Char.isDigit
  if digits.isEmpty then none
  else some (digits.foldl (fun n d => n * 10 + (d.toNat - 48)) 0, c)

/-- What follows the name of a version directive. -/
def version (c : Cursor) : Option (Token × Cursor) := do
  let (major, c) ← number c.dropSpaces
  if c.rest.head? != some '.' then none
  let (_, c) ← number (c.skip 1)
  if endsTag c.rest then some (.versionDirective major, c) else none

/-- What follows the name of a tag directive. -/
def tagDirective (c : Cursor) : Option (Token × Cursor) := do
  let (handle, c) ← handle c.dropSpaces
  if c.rest.head? != some ' ' then none
  let (tagStart, c) ← tagText c.dropSpaces
  if endsTag c.rest then some (.tagDirective handle tagStart, c) else none

/-- The directive at a place, up to the end of its line. -/
def directive (c : Cursor) : Option (Token × Cursor) := do
  let (name, c) := (c.skip 1).takeWhile isWord
  if name.isEmpty || !endsTag c.rest then none
  let (token, c) ←
    if name = ['Y', 'A', 'M', 'L'] then version c
    else if name = ['T', 'A', 'G'] then tagDirective c
    else some (.otherDirective, c.dropWhile fun d => !isBreak d)
  some (token, ← c.endLine?)

end Property

end Yaml

end Reckon

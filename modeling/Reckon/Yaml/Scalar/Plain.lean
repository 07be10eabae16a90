import Reckon.Yaml.Scalar.Quoted

/-!
# Plain scalars

A scalar without quotes. It ends before a comment, before a colon that is followed by a blank, in a
collection in brackets also before one of its marks, and, outside of such a collection, before a
line that is not indented deeply enough. Breaks inside it are folded.

## Main definitions

* `Yaml.Plain.begins`: whether a plain scalar begins at a place
* `Yaml.Plain.scan`: the content of a plain scalar, and the place after it
-/

namespace Reckon

namespace Yaml

namespace Plain

/-- The characters that mean something at the start of a token. -/
def indicators : Text :=
  ['-', '?', ':', ',', '[', ']', '{', '}', '#', '&', '*', '!', '|', '>', '\'', '"', '%', '@',
    '\x60']

/-- The marks of a collection in brackets. -/
def flowMarks : Text := [',', '[', ']', '{', '}']

/-- Whether a plain scalar begins at a place, inside brackets (`flow`) or not. -/
def begins (flow : Bool) : Text → Bool
  | [] => false
  | c :: rest =>
    !(isBlank c || isBreak c || indicators.contains c) ||
      (!endsWord rest && (c == '-' || (!flow && (c == '?' || c == ':'))))

/-- Whether a colon with what follows it ends a plain scalar. -/
def colonEnds (flow : Bool) (rest : Text) : Bool :=
  endsWord rest || (flow && rest.head?.any flowMarks.contains)

/-- The number of characters up to a blank, a break or the end of the scalar. -/
def chunkLength (flow : Bool) : Text → Nat
  | [] => 0
  | c :: rest =>
    if isBlank c || isBreak c || (c == ':' && colonEnds flow rest) ||
      (flow && (c == '?' || flowMarks.contains c))
    then 0
    else chunkLength flow rest + 1

/-- The breaks among the spaces from a place on; none if a document marker begins a line. -/
def breaks : (steps : Nat) → Cursor → (done : Text) → Option Text × Cursor
  | 0, c, _ => (none, c)
  | steps + 1, c, done =>
    let c := c.dropSpaces
    match c.lineBreak? with
    | some (b, c) => if c.atMarker then (none, c) else breaks steps c (b :: done)
    | none => (some done.reverse, c)

/-- What stands between two chunks of a plain scalar, the place after it, and whether it holds a
break. Nothing may follow where it is empty. -/
def separation (steps : Nat) (c : Cursor) : Text × Cursor × Bool :=
  let (spaces, c) := c.takeWhile (· == ' ')
  match c.lineBreak? with
  | some (b, c) =>
    if c.atMarker then ([], c, true)
    else
      match breaks steps c [] with
      | (some others, c) => (Quoted.folded b others, c, true)
      | (none, c) => ([], c, true)
  | none => (spaces, c, false)

/-- A plain scalar: its content, the place after it, and whether a break stands before that
place. -/
structure Scan where
  content : Text
  after : Cursor
  broken : Bool

/-- The chunks of a plain scalar from a place on; `done` holds the content so far and `between` what
separates it from the next chunk, both backwards. -/
def chunks (flow : Bool) (indent : Int) :
    (steps : Nat) → Cursor → (between done : Text) → (broken : Bool) → Scan
  | 0, c, _, done, broken => ⟨done.reverse, c, broken⟩
  | steps + 1, c, between, done, broken =>
    let length := chunkLength flow c.rest
    if c.rest.head? == some '#' || length == 0 then ⟨done.reverse, c, broken⟩
    else
      let done := (c.rest.take length).reverseAux (between ++ done)
      let (separator, after, broken) := separation steps (c.skip length)
      if separator.isEmpty || (!flow && after.column < indent) then
        ⟨done.reverse, after, broken⟩
      else chunks flow indent steps after separator.reverse done broken

/-- The plain scalar at a place, inside brackets or not, in a collection of a given indentation. -/
def scan (flow : Bool) (indent : Int) (c : Cursor) : Scan :=
  chunks flow (indent + 1) (c.rest.length + 1) c [] [] false

end Plain

end Yaml

end Reckon

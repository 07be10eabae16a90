import Reckon.Yaml.Cursor

/-!
# Block scalars

A scalar written in indented lines. A literal one keeps its breaks; in a folded one a break between
two lines that begin without a blank becomes a space. An indicator tells how deeply the lines are
indented, else the first line does; another one tells what becomes of the breaks at the end.

## Main definitions

* `Yaml.Block.scan`: the content of a block scalar, and the place after it
-/

namespace Reckon

namespace Yaml

namespace Block

/-- What becomes of the breaks at the end: all but one are dropped, all are, or none is. -/
inductive Chomping where
  | clip
  | strip
  | keep
  deriving DecidableEq, Repr

/-- The chomping that a character asks for. -/
def chomping? : Char → Option Chomping
  | '+' => some .keep
  | '-' => some .strip
  | _ => none

/-- The indentation that a character asks for; zero is none. -/
def increment? (c : Char) : Option Nat :=
  if '1' ≤ c && c ≤ '9' then some (c.toNat - 48) else none

/-- The chomping and the indentation at the head of a text, in either order, and the number of
characters that they take. -/
def indicators : Text → Chomping × Option Nat × Nat
  | c :: d :: _ =>
    match chomping? c, increment? c, chomping? d, increment? d with
    | some chomping, _, _, some n => (chomping, some n, 2)
    | some chomping, _, _, none => (chomping, none, 1)
    | none, some n, some chomping, _ => (chomping, some n, 2)
    | none, some n, none, _ => (.clip, some n, 1)
    | none, none, _, _ => (.clip, none, 0)
  | [c] =>
    match chomping? c, increment? c with
    | some chomping, _ => (chomping, none, 1)
    | none, some n => (.clip, some n, 1)
    | none, none => (.clip, none, 0)
  | [] => (.clip, none, 0)

/-- The breaks before the first line, the place after them, and the deepest column that spaces reach
before it. -/
def lead : (steps : Nat) → Cursor → (deepest : Nat) → (done : Text) → Text × Cursor × Nat
  | 0, c, deepest, done => (done.reverse, c, deepest)
  | steps + 1, c, deepest, done =>
    let c := c.dropSpaces
    let deepest := max deepest c.column
    match c.lineBreak? with
    | some (b, c) => lead steps c deepest (b :: done)
    | none => (done.reverse, c, deepest)

/-- The breaks of empty lines, and the place after them and after an indentation. -/
def breaks (indent : Nat) : (steps : Nat) → Cursor → (done : Text) → Text × Cursor
  | 0, c, done => (done.reverse, c)
  | steps + 1, c, done =>
    let c := c.dropIndent indent
    match c.lineBreak? with
    | some (b, c) => breaks indent steps c (b :: done)
    | none => (done.reverse, c)

/-- Whether a text goes on with neither a space nor a tab. -/
def beginsFull (t : Text) : Bool := !(t.head?.any isBlank)

/-- The lines of a scalar from a place on. `before` are the breaks in front of the place, and `done`
holds the content so far, backwards. The result is the content, backwards, the break of the last
line and those after it, and the place after them. -/
def lines (fold : Bool) (indent : Nat) :
    (steps : Nat) → Cursor → (before done : Text) → Text × Text × Text × Cursor
  | 0, c, before, done => (done, [], before, c)
  | steps + 1, c, before, done =>
    if c.column ≠ indent || c.rest.isEmpty then (done, [], before, c)
    else
      let full := beginsFull c.rest
      let (line, c) := c.takeWhile fun d => !isBreak d
      let done := line.reverseAux (before.reverseAux done)
      let (last, c) := match c.lineBreak? with
        | some (b, c) => ([b], c)
        | none => ([], c)
      let (others, c) := breaks indent steps c []
      if c.column ≠ indent || c.rest.isEmpty then (done, last, others, c)
      else if fold && last == ['\n'] && full && beginsFull c.rest then
        lines fold indent steps c others (if others.isEmpty then ' ' :: done else done)
      else lines fold indent steps c others (last.reverseAux done)

/-- The content of a block scalar whose indicator stands at a place, in a collection of a given
indentation, and the place after it. -/
def scan (fold : Bool) (parent : Int) (c : Cursor) : Option (Text × Cursor) := do
  let c := c.skip 1
  let steps := c.rest.length + 1
  let (chomping, increment, width) := indicators c.rest
  let c := c.skip width
  if !endsTag c.rest then none
  let c ← c.endLine?
  let least := max (parent + 1) 1
  let (before, c, indent) := match increment with
    | some n =>
      let indent := (least + n - 1).toNat
      let (before, c) := breaks indent steps c []
      (before, c, indent)
    | none =>
      let (before, c, deepest) := lead steps c 0 []
      (before, c, max least.toNat deepest)
  let (done, last, others, c) := lines fold indent steps c before []
  let tail := match chomping with
    | .strip => []
    | .clip => last
    | .keep => last ++ others
  some (done.reverse ++ tail, c)

end Block

end Yaml

end Reckon

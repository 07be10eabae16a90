import Reckon.Yaml.Cursor
import Reckon.Yaml.Fault

/-!
# Quoted scalars

A scalar between quotes. Between single quotes a quote is written twice; between double quotes a
backslash begins an escape. A break, with the blanks around it, is folded: one break is a space, and
of more breaks all but the first are kept.

## Main definitions

* `Yaml.Quoted.scan`: the content of a quoted scalar, and the place after it
-/

namespace Reckon

namespace Yaml

namespace Quoted

/-- The character that a backslash and one more character stand for. -/
def escape? : Char → Option Char
  | '0' => some '\x00'
  | 'a' => some '\x07'
  | 'b' => some '\x08'
  | 't' => some '\t'
  | '\t' => some '\t'
  | 'n' => some '\n'
  | 'v' => some '\x0b'
  | 'f' => some '\x0c'
  | 'r' => some '\x0d'
  | 'e' => some '\x1b'
  | ' ' => some ' '
  | '"' => some '"'
  | '\\' => some '\\'
  | '/' => some '/'
  | 'N' => some '\x85'
  | '_' => some '\xa0'
  | 'L' => some '\u2028'
  | 'P' => some '\u2029'
  | _ => none

/-- The number of hexadecimal digits that follow a backslash and one more character. -/
def escapeWidth? : Char → Option Nat
  | 'x' => some 2
  | 'u' => some 4
  | 'U' => some 8
  | _ => none

/-- The value of a hexadecimal digit. -/
def hexDigit? (c : Char) : Option Nat :=
  if '0' ≤ c && c ≤ '9' then some (c.toNat - 48)
  else if 'a' ≤ c && c ≤ 'f' then some (c.toNat - 87)
  else if 'A' ≤ c && c ≤ 'F' then some (c.toNat - 55)
  else none

/-- The number that the first `count` characters of a text write in base sixteen. -/
def hexNumber? (count : Nat) (t : Text) : Option Nat :=
  if t.length < count then none
  else (t.take count).foldlM (fun n c => (hexDigit? c).map (n * 16 + ·)) 0

/-- The number that an escape of a given width writes at the head of a text. -/
def escapedNumber (width : Nat) (t : Text) : Except Fault Nat :=
  match hexNumber? width t with
  | some n => .ok n
  | none =>
    let isCut := t.length < width && t.all fun c => (hexDigit? c).isSome
    .error (if isCut then .ended else .malformed)

/-- The breaks that follow a break, with blanks between them. A document marker must not begin a
line. -/
def breaks : (steps : Nat) → Cursor → (done : Text) → Except Fault (Text × Cursor)
  | 0, _, _ => .error .malformed
  | steps + 1, c, done =>
    if c.atMarker then .error .malformed
    else
      let c := c.dropWhile isBlank
      match c.lineBreak? with
      | some (b, c) => breaks steps c (b :: done)
      | none => .ok (done.reverse, c)

/-- What a break and the breaks after it are folded to. -/
def folded (first : Char) (others : Text) : Text :=
  if first ≠ '\n' then first :: others
  else if others.isEmpty then [' '] else others

/-- The character that stands for a code point that is none: half of a pair. -/
def replacement : Char := '\ufffd'

/-- The character with a given code point. -/
def character (n : Nat) : Except Fault Char :=
  if n.isValidChar then .ok (Char.ofNat n)
  else if n < 0x110000 then .ok replacement
  else .error (.unreadable .notCharacter)

/-- The character or the breaks that an escape stands for, from the place after the backslash. -/
def escaped (steps : Nat) (c : Cursor) : Except Fault (Text × Cursor) := do
  let e ← c.rest.head?.elim (.error .ended) .ok
  match escape? e, escapeWidth? e with
  | some d, _ => return ([d], c.skip 1)
  | none, some width =>
    let d ← character (← escapedNumber width (c.rest.drop 1))
    return ([d], c.skip (width + 1))
  | none, none =>
    let (_, c) ← orMalformed c.lineBreak?
    breaks steps c []

/-- The content of a scalar from a place behind its first quote on; `done` holds the content so far,
backwards. -/
def content (quote : Char) :
    (steps : Nat) → Cursor → (done : Text) → Except Fault (Text × Cursor)
  | 0, _, _ => .error .malformed
  | steps + 1, c, done =>
    match c.rest with
    | [] => .error .ended
    | d :: rest =>
      if d = quote then
        if quote = '\'' && rest.head? == some quote then
          content quote steps (c.skip 2) (d :: done)
        else .ok (done.reverse, c.skip 1)
      else if quote = '"' && d == '\\' then do
        let (t, c) ← escaped steps (c.skip 1)
        content quote steps c (t.reverseAux done)
      else if isBlank d || isBreak d then do
        let (blanks, c) := c.takeWhile isBlank
        match c.lineBreak? with
        | some (b, c) =>
          let (others, c) ← breaks steps c []
          content quote steps c ((folded b others).reverseAux done)
        | none => content quote steps c (blanks.reverseAux done)
      else content quote steps (c.skip 1) (d :: done)

/-- The content of a scalar whose first quote stands at a place, and the place after its last
one. -/
def scan (quote : Char) (c : Cursor) : Except Fault (Text × Cursor) :=
  content quote (c.rest.length + 1) (c.skip 1) []

end Quoted

end Yaml

end Reckon

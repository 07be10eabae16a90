import Reckon.Yaml.Scalar.Block
import Reckon.Yaml.Scalar.Plain
import Reckon.Yaml.Token.Property

/-!
# From a document to its tokens

Two things make the tokens of a document depend on what stands around them. Indentation: a line
that is indented more deeply than the collection around it may begin another one, and one that is
indented less ends collections. And keys: that a scalar or a collection is a key shows only in the
colon after it, so that its place is remembered until then, as long as the key is on the same line.

## Main definitions

* `Yaml.Lexer`: the state of reading tokens
* `Yaml.Lexer.step`: the next token
* `Yaml.Lexer.settled`: the tokens that are known whatever follows
* `Yaml.Token.ofText`: the tokens of a document, up to its first lexical fault
-/

namespace Reckon

namespace Yaml

/-- A place at which a key may have begun: the number of tokens before it, where it is, and whether
a key must stand there. -/
structure KeyStart where
  tokens : Nat
  index : Nat
  line : Nat
  column : Nat
  required : Bool

/-- The state of reading tokens: the place in the document, the tokens so far, the number of
brackets around the place, the indentation of the collection around it and of those around that,
whether a key may begin, and for each level of brackets where one may have begun. -/
structure Lexer where
  cursor : Cursor
  tokens : Array Token
  flow : Nat
  indent : Int
  indents : List Int
  keyAllowed : Bool
  keys : List (Option KeyStart)

namespace Lexer

/-- The longest key, in characters. -/
def maxKeyLength : Nat := 1024

/-- The state at the beginning of a document. -/
def start (t : Text) : Lexer where
  cursor := Cursor.start t
  tokens := #[]
  flow := 0
  indent := -1
  indents := []
  keyAllowed := true
  keys := [none]

/-- The state with one more token. -/
def push (s : Lexer) (t : Token) : Lexer := { s with tokens := s.tokens.push t }

/-- The column of the place. -/
def column (s : Lexer) : Int := s.cursor.column

/-- Whether a key that may have begun is given up: it must end on its line, and soon. -/
def isStale (c : Cursor) (k : KeyStart) : Bool :=
  k.line != c.line || maxKeyLength < c.index - k.index

/-- Gives up the keys that are too long. A key that must stand is not to be given up. -/
def dropStale (s : Lexer) : Except Fault Lexer := do
  let keys ← s.keys.mapM fun
    | some k =>
      if isStale s.cursor k then if k.required then .error .malformed else .ok none
      else .ok (some k)
    | none => .ok none
  return { s with keys }

/-- Gives up the key that may have begun in the innermost brackets. -/
def dropKey (s : Lexer) : Except Fault Lexer :=
  match s.keys with
  | some k :: keys =>
    if k.required then .error .malformed else .ok { s with keys := none :: keys }
  | _ => .ok s

/-- Remembers that a key may begin at the place. -/
def saveKey (s : Lexer) : Except Fault Lexer :=
  if s.keyAllowed then do
    let s ← s.dropKey
    let key : KeyStart :=
      { tokens := s.tokens.size, index := s.cursor.index, line := s.cursor.line,
        column := s.cursor.column, required := s.flow == 0 && s.indent == s.column }
    return { s with keys := some key :: s.keys.tail }
  else .ok s

/-- Ends the collections that are indented more deeply than `column`. -/
def unwind (column : Int) : (indents : List Int) → Lexer → Lexer
  | outer :: indents, s =>
    if column < s.indent then
      unwind column indents { s.push .blockEnd with indent := outer, indents }
    else s
  | [], s => s

/-- Ends the collections that a place outside of brackets is not indented deeply enough for. -/
def unindent (column : Int) (s : Lexer) : Lexer :=
  if s.flow = 0 then unwind column s.indents s else s

/-- Begins a collection at a column, unless the one around it is indented as deeply. -/
def indentTo (column : Int) (position : Nat) (t : Token) (s : Lexer) : Lexer :=
  if s.indent < column then
    { s with
      tokens := s.tokens.insertIdxIfInBounds position t
      indent := column
      indents := s.indent :: s.indents }
  else s

/-- Moves on by a number of characters. -/
def skip (count : Nat) (s : Lexer) : Lexer := { s with cursor := s.cursor.skip count }

/-- Moves on to the next token: over spaces, comments and, outside of brackets with the permission
for a key, breaks. -/
def toNext : (steps : Nat) → Lexer → Lexer
  | 0, s => s
  | steps + 1, s =>
    let c := s.cursor.dropSpaces.dropComment
    match c.lineBreak? with
    | some (_, c) =>
      toNext steps { s with cursor := c, keyAllowed := s.keyAllowed || s.flow == 0 }
    | none => { s with cursor := c }

/-- A token that ends all block collections and stands for itself: a marker or a directive. -/
def single (t : Token) (after : Cursor) (s : Lexer) : Except Fault Lexer := do
  let s ← (s.unindent (-1)).dropKey
  return { s.push t with cursor := after, keyAllowed := false }

/-- An opening bracket. -/
def opened (t : Token) (s : Lexer) : Except Fault Lexer := do
  let s ← s.saveKey
  return { (s.push t).skip 1 with flow := s.flow + 1, keyAllowed := true, keys := none :: s.keys }

/-- A closing bracket. -/
def closed (t : Token) (s : Lexer) : Except Fault Lexer := do
  if s.flow = 0 then .error .malformed
  let s ← s.dropKey
  return { (s.push t).skip 1 with flow := s.flow - 1, keyAllowed := false, keys := s.keys.tail }

/-- A comma. -/
def separated (s : Lexer) : Except Fault Lexer := do
  let s ← s.dropKey
  return { (s.push .flowEntry).skip 1 with keyAllowed := true }

/-- The start of a collection that is shown by an indicator outside of brackets, where one may
stand. -/
def indicated (t : Token) (s : Lexer) : Except Fault Lexer :=
  if s.flow ≠ 0 then .ok s
  else if s.keyAllowed then .ok (s.indentTo s.column s.tokens.size t)
  else .error .malformed

/-- The hyphen of an entry. -/
def entry (s : Lexer) : Except Fault Lexer := do
  let s ← (← s.indicated .blockSequenceStart).dropKey
  return { (s.push .blockEntry).skip 1 with keyAllowed := true }

/-- The question mark of a key. -/
def explicitKey (s : Lexer) : Except Fault Lexer := do
  let s ← (← s.indicated .blockMappingStart).dropKey
  return { (s.push .key).skip 1 with keyAllowed := s.flow == 0 }

/-- The colon of a value. If a key may have begun, it has. -/
def value (s : Lexer) : Except Fault Lexer :=
  match s.keys with
  | some k :: keys =>
    let s := { s with tokens := s.tokens.insertIdxIfInBounds k.tokens .key, keys := none :: keys }
    let s := if s.flow = 0 then s.indentTo k.column k.tokens .blockMappingStart else s
    .ok { (s.push .value).skip 1 with keyAllowed := false }
  | _ => do
    let s ← s.indicated .blockMappingStart
    return { (s.push .value).skip 1 with keyAllowed := s.flow == 0 }

/-- What is read of a token that must end on its line. Where the line reaches the end of what can be
read, the token may go on behind it. -/
def onLine {α : Type} (c : Cursor) : Option α → Except Fault α
  | some a => .ok a
  | none => .error (if c.rest.any isBreak then .malformed else .ended)

/-- A token that may be, or begin, a key. -/
def node (read : Cursor → Except Fault (Token × Cursor)) (s : Lexer) : Except Fault Lexer := do
  let s ← s.saveKey
  let (t, c) ← read s.cursor
  return { s.push t with cursor := c, keyAllowed := false }

/-- A token that carries a name, and may be or begin a key. -/
def named {α : Type} (token : α → Token) (read : Cursor → Option (α × Cursor)) (s : Lexer) :
    Except Fault Lexer :=
  s.node fun c => (onLine c (read c)).map fun r => (token r.1, r.2)

/-- A quoted scalar. -/
def quoted (quote : Char) (s : Lexer) : Except Fault Lexer :=
  s.node fun c => (Quoted.scan quote c).map fun r => (.scalar false r.1, r.2)

/-- A block scalar. -/
def block (fold : Bool) (s : Lexer) : Except Fault Lexer := do
  let s ← s.dropKey
  let (t, c) ← onLine s.cursor (Block.scan fold s.indent s.cursor)
  return { s.push (.scalar false t) with cursor := c, keyAllowed := true }

/-- A plain scalar. -/
def plain (s : Lexer) : Except Fault Lexer := do
  let s ← s.saveKey
  let scan := Plain.scan (s.flow != 0) s.indent s.cursor
  let s := s.push (.scalar true scan.content)
  return { s with cursor := scan.after, keyAllowed := scan.broken }

/-- Reads the token at a place at which one begins. -/
def token (s : Lexer) : Except Fault Lexer :=
  let inFlow := s.flow != 0
  let c := s.cursor
  let marks := endsWord (c.rest.drop 1)
  let other := if Plain.begins inFlow c.rest then s.plain else .error .malformed
  if c.column = 0 && c.rest.head? == some '%' then do
    let (t, after) ← onLine c (Property.directive c)
    s.single t after
  else if c.column = 0 && c.atWord ['-', '-', '-'] then s.single .documentStart (c.skip 3)
  else if c.column = 0 && c.atWord ['.', '.', '.'] then s.single .documentEnd (c.skip 3)
  else
    match c.rest.head? with
    | none => .error .malformed
    | some '[' => s.opened .flowSequenceStart
    | some '{' => s.opened .flowMappingStart
    | some ']' => s.closed .flowSequenceEnd
    | some '}' => s.closed .flowMappingEnd
    | some ',' => s.separated
    | some '-' => if marks then s.entry else other
    | some '?' => if inFlow || marks then s.explicitKey else other
    | some ':' => if inFlow || marks then s.value else other
    | some '*' => s.named .reference Property.name
    | some '&' => s.named .anchor Property.name
    | some '!' => s.named .tag Property.tag
    | some '|' => if inFlow then other else s.block false
    | some '>' => if inFlow then other else s.block true
    | some '\'' => s.quoted '\''
    | some '"' => s.quoted '"'
    | some _ => other

/-- The number of characters from a place on that are looked at to read what ends there. -/
def lookahead : Nat := 4

/-- Makes sure that the characters at the place can be looked at, if the document is `cut` off. -/
def within (cut : Bool) (s : Lexer) : Except Fault Lexer :=
  if cut && s.cursor.rest.length < lookahead then .error .ended else .ok s

/-- Moves to the next token and reads it; at the end of the document, ends all that is open. -/
def step (cut : Bool) (s : Lexer) : Except Fault (Bool × Lexer) := do
  let s ← (s.toNext (s.cursor.rest.length + 1)).within cut
  let s ← s.dropStale
  let s := s.unindent s.column
  if s.cursor.rest.isEmpty then return (false, ← (s.unindent (-1)).dropKey)
  else return (true, ← (← s.token).within cut)

/-- Reads tokens to the end of the document or to the first fault. -/
def run (cut : Bool) : (steps : Nat) → Lexer → Lexer × Option Fault
  | 0, s => (s, some .malformed)
  | steps + 1, s =>
    match s.dropStale with
    | .error f => (s, some f)
    | .ok s =>
      match s.step cut with
      | .error f => (s, some f)
      | .ok (more, s) => if more then run cut steps s else (s, none)

/-- The tokens that are known whatever follows: those before the first place at which a key may have
begun. -/
def settled (s : Lexer) : List Token :=
  s.tokens.toList.take (s.keys.foldl (fun n k => k.elim n (min n ·.tokens)) s.tokens.size)

end Lexer

/-- The tokens of a document, which may begin with a byte order mark. If it has a lexical fault or
is `cut` off, they are those that are known before that. -/
def Token.ofText (cut : Bool) (t : Text) : List Token × Option Fault :=
  let s := Lexer.start t
  let s := if t.head? == some '\ufeff' then s.skip 1 else s
  match s.run cut (t.length + 2) with
  | (s, none) => (s.tokens.toList, none)
  | (s, some f) => (s.settled, some f)

end Yaml

end Reckon

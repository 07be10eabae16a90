import Reckon.Yaml.Content
import Reckon.Yaml.Node.Reader
import Reckon.Yaml.Scalar.Typed
import Reckon.Yaml.Stream

/-!
# The value of a document

A document is read into tokens, the tokens into nodes, and the nodes, when their aliases and tags
are settled, into untyped data. A collection is filled only after everything that stands beside it
has been begun, so that of several faults the least deep one is met first.

Nodes are read as soon as their tokens are known. Where reading tokens ends in a fault, the tokens
before it may thus have met another one: they must begin a stream.

## Main definitions

* `Yaml.Content.load`: the value of the content of a document
* `Yaml.Node.beginsStream`: whether some tokens begin a stream
* `Yaml.load`, `Yaml.ofFile`: the value of a document, and of the document in a file
-/

namespace Reckon

namespace Yaml

/-- A fault of a part of a document, and how deep it lies. -/
structure DeepFault where
  depth : Nat
  fault : Fault
  deriving DecidableEq, Repr

namespace DeepFault

/-- Two outcomes, of which the first stands before the second: both values, or the fault that is met
first. -/
def both {α β : Type} :
    Except DeepFault α → Except DeepFault β → Except DeepFault (α × β)
  | .ok a, .ok b => .ok (a, b)
  | .error e, .error f => .error (if f.depth < e.depth then f else e)
  | .error e, .ok _ | .ok _, .error e => .error e

end DeepFault

namespace Content

/-- The value of a scalar at a depth. -/
def loadScalar (depth : Nat) (tag : Tag) (text : Text) : Except DeepFault Value :=
  (Typed.value tag text).mapError (⟨depth, ·⟩)

/-- The value of the key of a mapping: only scalars can be keys. -/
def loadKey (depth : Nat) : Content → Except DeepFault Value
  | scalar tag text => loadScalar depth tag text
  | _ => .error ⟨depth, .malformed⟩

/-- The entries of a mapping, in the order of their first appearance. -/
def inOrder (entries : List (Value × Value)) : List (Value × Value) :=
  entries.foldl (fun es e => Value.put es e.1 e.2) []

mutual

/-- The value of the content of a node at a depth. -/
def load (depth : Nat) : Content → Except DeepFault Value
  | scalar tag text => loadScalar depth tag text
  | sequence items => (loadItems (depth + 1) items).map .sequence
  | pairs entries =>
    (loadPairs (depth + 1) entries).map fun es => .sequence (es.map fun e => .sequence [e.1, e.2])
  | mapping entries => (loadEntries (depth + 1) entries).map (.mapping ∘ inOrder)
  | set entries => (loadEntries (depth + 1) entries).map (.set ∘ inOrder)
  | misfit late => .error ⟨if late then depth + 1 else depth, .malformed⟩

/-- The values of contents in order. -/
def loadItems (depth : Nat) : List Content → Except DeepFault (List Value)
  | [] => .ok []
  | c :: cs => (DeepFault.both (load depth c) (loadItems depth cs)).map fun r => r.1 :: r.2

/-- The values of pairs in order. -/
def loadPairs (depth : Nat) :
    List (Content × Content) → Except DeepFault (List (Value × Value))
  | [] => .ok []
  | (k, v) :: es =>
    (DeepFault.both (DeepFault.both (load depth k) (load depth v)) (loadPairs depth es)).map
      fun r => r.1 :: r.2

/-- The values of the entries of a mapping in order. -/
def loadEntries (depth : Nat) :
    List (Content × Content) → Except DeepFault (List (Value × Value))
  | [] => .ok []
  | (k, v) :: es =>
    (DeepFault.both (DeepFault.both (loadKey depth k) (load depth v)) (loadEntries depth es)).map
      fun r => r.1 :: r.2

end

end Content

namespace Node

/-- Whether a token belongs to the node that follows it. -/
def isProperty : Token → Bool
  | .anchor _ | .tag _ => true
  | _ => false

/-- Whether a token is a directive. -/
def isDirective : Token → Bool
  | .versionDirective _ | .tagDirective .. | .otherDirective => true
  | _ => false

/-- Whether some tokens begin a stream: with the ends of their collections they are well formed. An
anchor and a tag at their end show nothing yet, and a directive needs a marker after it. -/
def beginsStream (ts : List Token) : Bool :=
  let ts := (ts.reverse.dropWhile isProperty).reverse
  let marker := if ts.getLast?.any isDirective then [.documentStart] else []
  match ofTokens? (ts ++ marker ++ endsOf ts []) with
  | some n => n.all (·.resolve?.isSome)
  | none => false

end Node

/-- The value of a complete stream of tokens; null if it holds no document. -/
def ofTokens (ts : List Token) : Except Fault Value := do
  match ← orMalformed (Node.ofTokens? ts) with
  | none => return .null
  | some n =>
    let content := Content.ofNode (← orMalformed n.resolve?)
    (content.load 0).mapError DeepFault.fault

/-- The value of a document. -/
def load (s : Stream) : Except DocumentFault Value :=
  match Token.ofText s.fault?.isSome s.text with
  | (ts, none) => (ofTokens ts).mapError s.faultOf
  | (ts, some f) => .error (if Node.beginsStream ts then s.faultOf f else .malformed)

/-- The value of the document in a file. -/
def ofFile (bytes : List UInt8) : Except DocumentFault Value := load (.ofBytes bytes)

end Yaml

end Reckon

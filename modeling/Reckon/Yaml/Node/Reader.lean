import Reckon.Yaml.Node.Basic
import Reckon.Yaml.Token.Lexer

/-!
# From tokens to nodes

A document is a node, in front of it directives and a marker, behind it a marker. Where a node may
stand and no token begins one, there is an empty scalar. A stream has at most one document.

## Main definitions

* `Yaml.Node.ofTokens?`: the node of a stream, if it holds a document
* `Yaml.Node.endsOf`: what ends the collections that some tokens begin
-/

namespace Reckon

namespace Yaml

namespace Node

/-- The beginnings of tags that handles stand for. -/
abbrev Handles := List (Text × Text)

/-- What the handles stand for that no directive needs to name. -/
def defaultHandles : Handles :=
  [(['!'], ['!']), (['!', '!'], "tag:yaml.org,2002:".toList)]

/-- The complete tag, if its handle is known. -/
def completeTag? (handles : Handles) (t : RawTag) : Option Text :=
  match t.handle with
  | none => some t.suffix
  | some handle => (handles.lookup handle).map (· ++ t.suffix)

/-- The anchor and the tag at the head of some tokens, in either order, and the tokens after
them. -/
def properties (handles : Handles) : List Token → Option (Properties × List Token)
  | .anchor a :: .tag t :: ts | .tag t :: .anchor a :: ts => do
    some (⟨some a, some (← completeTag? handles t)⟩, ts)
  | .anchor a :: ts => some (⟨some a, none⟩, ts)
  | .tag t :: ts => do some (⟨none, some (← completeTag? handles t)⟩, ts)
  | ts => some ({}, ts)

/-- Whether the tokens begin with one of some marks. -/
def beginsWith (marks : List Token) (ts : List Token) : Bool := ts.head?.any marks.contains

mutual

/-- The node at the head of some tokens, and the tokens after it. Outside of brackets (`block`) it
may be a collection that is shown by indentation, and as a part of a mapping (`inMapping`) a
sequence that is not indented. -/
def read (handles : Handles) (block inMapping : Bool) :
    (steps : Nat) → List Token → Option (Node × List Token)
  | 0, _ => none
  | steps + 1, ts =>
    match ts with
    | .reference name :: ts => some (.reference name, ts)
    | ts => do
      let (p, ts) ← properties handles ts
      match ts with
      | .scalar plain content :: ts => some (.scalar p plain content, ts)
      | .flowSequenceStart :: ts => flowSequence handles p steps true ts []
      | .flowMappingStart :: ts => flowMapping handles p steps true ts []
      | .blockEntry :: ts' =>
        if inMapping then looseSequence handles p steps ts []
        else if p = {} then none else some (.scalar p true [], .blockEntry :: ts')
      | .blockSequenceStart :: ts' =>
        if block then blockSequence handles p steps ts' []
        else if p = {} then none else some (.scalar p true [], ts)
      | .blockMappingStart :: ts' =>
        if block then blockMapping handles p steps ts' []
        else if p = {} then none else some (.scalar p true [], ts)
      | ts => if p = {} then none else some (.scalar p true [], ts)

/-- The node at the head of some tokens, or an empty one before one of some marks. -/
def readUnless (marks : List Token) (handles : Handles) (block inMapping : Bool) :
    (steps : Nat) → List Token → Option (Node × List Token)
  | 0, _ => none
  | steps + 1, ts =>
    if beginsWith marks ts then some (empty, ts) else read handles block inMapping steps ts

/-- The entries of an indented sequence. -/
def blockSequence (handles : Handles) (p : Properties) :
    (steps : Nat) → List Token → (done : List Node) → Option (Node × List Token)
  | 0, _, _ => none
  | steps + 1, ts, done =>
    match ts with
    | .blockEntry :: ts => do
      let (n, ts) ← readUnless [.blockEntry, .blockEnd] handles true false steps ts
      blockSequence handles p steps ts (n :: done)
    | .blockEnd :: ts => some (.sequence p done.reverse, ts)
    | _ => none

/-- The entries of a sequence that is not indented. -/
def looseSequence (handles : Handles) (p : Properties) :
    (steps : Nat) → List Token → (done : List Node) → Option (Node × List Token)
  | 0, _, _ => none
  | steps + 1, ts, done =>
    match ts with
    | .blockEntry :: ts => do
      let (n, ts) ←
        readUnless [.blockEntry, .key, .value, .blockEnd] handles true false steps ts
      looseSequence handles p steps ts (n :: done)
    | ts => some (.sequence p done.reverse, ts)

/-- The value behind a key, and an empty one if there is none. -/
def valueUnless (marks : List Token) (handles : Handles) (block : Bool) :
    (steps : Nat) → List Token → Option (Node × List Token)
  | 0, _ => none
  | steps + 1, ts =>
    match ts with
    | .value :: ts => readUnless marks handles block block steps ts
    | ts => some (empty, ts)

/-- The entries of an indented mapping. -/
def blockMapping (handles : Handles) (p : Properties) :
    (steps : Nat) → List Token → (done : List (Node × Node)) → Option (Node × List Token)
  | 0, _, _ => none
  | steps + 1, ts, done =>
    match ts with
    | .key :: ts => do
      let marks := [.key, .value, .blockEnd]
      let (k, ts) ← readUnless marks handles true true steps ts
      let (v, ts) ← valueUnless marks handles true steps ts
      blockMapping handles p steps ts ((k, v) :: done)
    | .blockEnd :: ts => some (.mapping p done.reverse, ts)
    | _ => none

/-- The items of a sequence in brackets; all but the first follow a comma. -/
def flowSequence (handles : Handles) (p : Properties) :
    (steps : Nat) → (first : Bool) → List Token → (done : List Node) →
    Option (Node × List Token)
  | 0, _, _, _ => none
  | steps + 1, first, ts, done =>
    match ts, first with
    | .flowSequenceEnd :: ts, _ => some (.sequence p done.reverse, ts)
    | .flowEntry :: .flowSequenceEnd :: ts, false => some (.sequence p done.reverse, ts)
    | .flowEntry :: ts, false => do
      let (n, ts) ← flowItem handles steps ts
      flowSequence handles p steps false ts (n :: done)
    | ts, true => do
      let (n, ts) ← flowItem handles steps ts
      flowSequence handles p steps false ts (n :: done)
    | _, false => none

/-- An item of a sequence in brackets: a node, or a key with its value, which is a mapping of its
own. -/
def flowItem (handles : Handles) : (steps : Nat) → List Token → Option (Node × List Token)
  | 0, _ => none
  | steps + 1, ts =>
    match ts with
    | .key :: ts => do
      let (k, ts) ←
        readUnless [.value, .flowEntry, .flowSequenceEnd] handles false false steps ts
      let (v, ts) ← valueUnless [.flowEntry, .flowSequenceEnd] handles false steps ts
      some (.mapping {} [(k, v)], ts)
    | ts => read handles false false steps ts

/-- The entries of a mapping in brackets; all but the first follow a comma. -/
def flowMapping (handles : Handles) (p : Properties) :
    (steps : Nat) → (first : Bool) → List Token → (done : List (Node × Node)) →
    Option (Node × List Token)
  | 0, _, _, _ => none
  | steps + 1, first, ts, done =>
    match ts, first with
    | .flowMappingEnd :: ts, _ => some (.mapping p done.reverse, ts)
    | .flowEntry :: .flowMappingEnd :: ts, false => some (.mapping p done.reverse, ts)
    | .flowEntry :: ts, false => do
      let (e, ts) ← flowPair handles steps ts
      flowMapping handles p steps false ts (e :: done)
    | ts, true => do
      let (e, ts) ← flowPair handles steps ts
      flowMapping handles p steps false ts (e :: done)
    | _, false => none

/-- An entry of a mapping in brackets: a key with its value, or a node with an empty value. -/
def flowPair (handles : Handles) :
    (steps : Nat) → List Token → Option ((Node × Node) × List Token)
  | 0, _ => none
  | steps + 1, ts =>
    match ts with
    | .key :: ts => do
      let (k, ts) ←
        readUnless [.value, .flowEntry, .flowMappingEnd] handles false false steps ts
      let (v, ts) ← valueUnless [.flowEntry, .flowMappingEnd] handles false steps ts
      some ((k, v), ts)
    | ts => do
      let (k, ts) ← read handles false false steps ts
      some ((k, empty), ts)

end

/-- What the directives at the head of a document say about handles, and the tokens after them. A
directive must not be given twice, and a version must be the first one's. -/
def directives : List Token → (version : Bool) → Handles → Option (Handles × List Token)
  | .versionDirective major :: ts, version, handles =>
    if version || major != 1 then none else directives ts true handles
  | .tagDirective handle tagStart :: ts, version, handles =>
    if (handles.lookup handle).isSome then none
    else directives ts version (handles ++ [(handle, tagStart)])
  | .otherDirective :: ts, version, handles => directives ts version handles
  | ts, _, handles => some (handles ++ defaultHandles, ts)

/-- Whether the tokens begin with a directive or a marker, or end. -/
def endsDocument : List Token → Bool
  | [] => true
  | .versionDirective _ :: _ | .tagDirective .. :: _ | .otherDirective :: _ => true
  | .documentStart :: _ | .documentEnd :: _ => true
  | _ => false

/-- The tokens that end the collections which some tokens begin; `ends` are those that end the
collections around them. -/
def endsOf : List Token → (ends : List Token) → List Token
  | [], ends => ends
  | t :: ts, ends =>
    endsOf ts <|
      match t with
      | .blockSequenceStart | .blockMappingStart => .blockEnd :: ends
      | .flowSequenceStart => .flowSequenceEnd :: ends
      | .flowMappingStart => .flowMappingEnd :: ends
      | .blockEnd | .flowSequenceEnd | .flowMappingEnd => ends.tail
      | _ => ends

/-- The node of a stream of tokens; no node if the stream holds no document. Fails if the stream is
not well formed or holds more than one document. -/
def ofTokens? (ts : List Token) : Option (Option Node) :=
  let steps := 4 * ts.length + 8
  if ts.isEmpty then some none
  else do
    let (n, ts) ←
      if endsDocument ts && ts.head? != some .documentEnd then do
        match ← directives ts false [] with
        | (handles, .documentStart :: ts) =>
          if endsDocument ts then some (empty, ts) else read handles true false steps ts
        | _ => none
      else read defaultHandles true false steps ts
    if (ts.dropWhile (· == .documentEnd)).isEmpty then some (some n) else none

end Node

end Yaml

end Reckon

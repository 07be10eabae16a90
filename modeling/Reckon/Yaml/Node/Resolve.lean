import Reckon.Yaml.Node.Basic

/-!
# Aliases

An alias stands for the node of its anchor, which must be before it, and an anchor must not be given
twice. A collection may hold an alias of itself. Its node has no end then; it is unrolled once, with
a collection that is empty in the place of the alias, and put into itself.

## Main definitions

* `Yaml.Node.resolve?`: the node without aliases
-/

namespace Reckon

namespace Yaml

namespace Node

/-- The nodes that have anchors. -/
abbrev Anchors := List (Text × Node)

/-- The anchors with one more for a node, if the node has one. -/
def Anchors.bind (anchors : Anchors) (p : Properties) (n : Node) : Anchors :=
  match p.anchor with
  | some name => (name, n) :: anchors
  | none => anchors

/-- The anchors with one more for a node, if the node has one, which must be new. -/
def Anchors.declare? (anchors : Anchors) (p : Properties) (n : Node) : Option Anchors :=
  if (p.anchor.bind fun name => anchors.lookup name).isSome then none else some (anchors.bind p n)

mutual

/-- Whether an alias of a given name occurs in a node. -/
def refersTo (name : Text) : Node → Bool
  | reference other => other == name
  | scalar .. => false
  | sequence _ items => itemsReferTo name items
  | mapping _ entries => entriesReferTo name entries

/-- Whether an alias of a given name occurs in some nodes. -/
def itemsReferTo (name : Text) : List Node → Bool
  | [] => false
  | n :: ns => refersTo name n || itemsReferTo name ns

/-- Whether an alias of a given name occurs in some entries. -/
def entriesReferTo (name : Text) : List (Node × Node) → Bool
  | [] => false
  | (k, v) :: es => refersTo name k || refersTo name v || entriesReferTo name es

end

mutual

/-- The node without aliases, and the anchors after it. -/
def resolveFrom (anchors : Anchors) : Node → Option (Node × Anchors)
  | reference name => (anchors.lookup name).map fun n => (n, anchors)
  | scalar p plain content => do
    let n := scalar p plain content
    some (n, ← anchors.declare? p n)
  | sequence p items => do
    let (once, after) ← resolveItems (← anchors.declare? p (sequence p [])) items
    let (items, after) ←
      if p.anchor.any fun name => itemsReferTo name items then
        resolveItems (anchors.bind p (sequence p once)) items
      else some (once, after)
    some (sequence p items, after.bind p (sequence p items))
  | mapping p entries => do
    let (once, after) ← resolveEntries (← anchors.declare? p (mapping p [])) entries
    let (entries, after) ←
      if p.anchor.any fun name => entriesReferTo name entries then
        resolveEntries (anchors.bind p (mapping p once)) entries
      else some (once, after)
    some (mapping p entries, after.bind p (mapping p entries))

/-- Nodes without aliases, and the anchors after them. -/
def resolveItems (anchors : Anchors) : List Node → Option (List Node × Anchors)
  | [] => some ([], anchors)
  | n :: ns => do
    let (n, anchors) ← resolveFrom anchors n
    let (ns, anchors) ← resolveItems anchors ns
    some (n :: ns, anchors)

/-- Entries without aliases, and the anchors after them. -/
def resolveEntries (anchors : Anchors) :
    List (Node × Node) → Option (List (Node × Node) × Anchors)
  | [] => some ([], anchors)
  | (k, v) :: es => do
    let (k, anchors) ← resolveFrom anchors k
    let (v, anchors) ← resolveFrom anchors v
    let (es, anchors) ← resolveEntries anchors es
    some ((k, v) :: es, anchors)

end

/-- The node without aliases, if every alias has an anchor before it. -/
def resolve? (n : Node) : Option Node := (resolveFrom [] n).map (·.1)

end Node

end Yaml

end Reckon

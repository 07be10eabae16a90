import Reckon.Text

/-!
# Nodes of a document

The content of a document before its scalars are given a type: scalars, sequences and mappings, each
with the anchor and the tag that stand before it, and the aliases of anchors.

## Main definitions

* `Yaml.Node`: the nodes
-/

namespace Reckon

namespace Yaml

/-- The anchor and the tag of a node, if it has them. -/
structure Properties where
  anchor : Option Text := none
  tag : Option Text := none
  deriving DecidableEq, Repr, Inhabited

/-- A node of a document. -/
inductive Node where
  | reference (name : Text)
  /-- a scalar; `plain` tells whether it stands without quotes -/
  | scalar (properties : Properties) (plain : Bool) (content : Text)
  | sequence (properties : Properties) (items : List Node)
  | mapping (properties : Properties) (entries : List (Node × Node))
  deriving Inhabited, Repr

/-- The scalar that stands where nothing is written. -/
def Node.empty : Node := .scalar {} true []

end Yaml

end Reckon

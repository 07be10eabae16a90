import Reckon.Yaml.Node.Resolve
import Reckon.Yaml.Tag

/-!
# The content of a document

A document whose tags are settled: what each node is to be read as. A mapping takes over the entries
of others by merge keys; its own entries come last, so that they count more. A node that does not
fit its tag is a misfit.

## Main definitions

* `Yaml.Content`: scalars with their types, and collections
* `Yaml.Content.ofNode`: the content of a node without aliases
-/

namespace Reckon

namespace Yaml

/-- What a node is to be read as. -/
inductive Content where
  | scalar (tag : Tag) (text : Text)
  | sequence (items : List Content)
  /-- a sequence of pairs -/
  | pairs (entries : List (Content × Content))
  | mapping (entries : List (Content × Content))
  | set (entries : List (Content × Content))
  /-- a node that does not fit its tag; a collection that cannot be filled shows it `late` -/
  | misfit (late : Bool)
  deriving Inhabited, Repr

namespace Content

/-- The type of a scalar. -/
def scalarTag (p : Properties) (plain : Bool) (text : Text) : Tag :=
  match p.tag with
  | none => if plain then Tag.ofPlain text else .text
  | some ['!'] => Tag.ofContent text
  | some name => Tag.ofName name

/-- The type of a collection that is `natural` without a tag. -/
def collectionTag (p : Properties) (natural : Tag) : Tag :=
  match p.tag with
  | none | some ['!'] => natural
  | some name => Tag.ofName name

/-- The type of a node. -/
def tagOf : Node → Tag
  | .reference _ => .unknown
  | .scalar p plain text => scalarTag p plain text
  | .sequence p _ => collectionTag p .sequence
  | .mapping p _ => collectionTag p .mapping

mutual

/-- The text of a node that is read as a scalar: of a mapping, that under its default key. -/
def textOf? : Node → Option Text
  | .scalar _ _ text => some text
  | .mapping _ entries => defaultText? entries
  | _ => none

/-- The text under the first default key of some entries. -/
def defaultText? : List (Node × Node) → Option Text
  | [] => none
  | (k, v) :: es => if tagOf k = .default then textOf? v else defaultText? es

end

mutual

/-- The content of a node without aliases. -/
def ofNode : Node → Content
  | .reference _ => misfit false
  | .scalar p plain text => scalar (scalarTag p plain text) text
  | .sequence p items =>
    match collectionTag p .sequence with
    | .sequence => sequence (ofItems items)
    | .orderedMapping | .pairs => pairs (pairsOf items)
    | .mapping | .set => misfit true
    | _ => misfit false
  | .mapping p entries =>
    match collectionTag p .mapping with
    | .mapping => (entriesOf? entries).elim (misfit true) fun es => mapping (es.1 ++ es.2)
    | .set => (entriesOf? entries).elim (misfit true) fun es => set (es.1 ++ es.2)
    | .sequence | .orderedMapping | .pairs => misfit true
    | tag => (defaultText? entries).elim (misfit false) (scalar tag)

/-- The contents of nodes. -/
def ofItems : List Node → List Content
  | [] => []
  | n :: ns => ofNode n :: ofItems ns

/-- The entries of mappings that have one entry each, up to the first node that is no such
mapping. -/
def pairsOf : List Node → List (Content × Content)
  | [] => []
  | .mapping _ [(k, v)] :: ns => (ofNode k, ofNode v) :: pairsOf ns
  | _ :: _ => [(misfit false, misfit false)]

/-- The entries that a mapping takes over, and its own ones. -/
def entriesOf? :
    List (Node × Node) → Option (List (Content × Content) × List (Content × Content))
  | [] => some ([], [])
  | (k, v) :: es =>
    match tagOf k with
    | .merge => do
      let taken ← takenFrom? v
      let (merged, own) ← entriesOf? es
      some (taken ++ merged, own)
    | .default => do
      let (merged, own) ← entriesOf? es
      let key := (textOf? k).elim (misfit false) (scalar .text)
      some (merged, (key, ofNode v) :: own)
    | _ => do
      let (merged, own) ← entriesOf? es
      some (merged, (ofNode k, ofNode v) :: own)

/-- The entries that a merge key takes over from its value: a mapping, or a sequence of mappings, of
which the earlier count more. -/
def takenFrom? : Node → Option (List (Content × Content))
  | .mapping _ entries => (entriesOf? entries).map fun es => es.1 ++ es.2
  | .sequence _ items => takenFromItems? items
  | _ => none

/-- The entries of mappings, those of the later ones first. -/
def takenFromItems? : List Node → Option (List (Content × Content))
  | [] => some []
  | .mapping _ entries :: ns => do
    let (merged, own) ← entriesOf? entries
    let later ← takenFromItems? ns
    some (later ++ (merged ++ own))
  | _ :: _ => none

end

end Content

end Yaml

end Reckon

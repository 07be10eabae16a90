import Reckon.Text

/-!
# Expression trees

A node has a label and may have a child on the left, on the right, on both sides or none. The
post-order of a tree lists the labels with every node after its children, and the left child
before the right one.

## Main definitions

* `Tree`: a tree of labels
* `Tree.postOrder`, `Tree.appendPostOrder`: the labels in post-order, gathered with an agenda
  instead of recursion, so that deep trees need no deep recursion
-/

namespace Reckon

-- Sums start with the zero of the core library, whatever else is imported.
attribute [local instance (high)] Zero.ofOfNat0

/-- A tree whose nodes carry texts. -/
inductive Tree where
  /-- no child -/
  | leaf (label : Text)
  /-- only a child on the right -/
  | unary (label : Text) (right : Tree)
  /-- only a child on the left -/
  | leftOnly (label : Text) (left : Tree)
  /-- a child on either side -/
  | binary (label : Text) (left right : Tree)
  deriving DecidableEq, Inhabited, Repr

namespace Tree

/-- The label of the root. -/
def label : Tree → Text
  | leaf l | unary l _ | leftOnly l _ | binary l _ _ => l

/-- Whether the root has no child. -/
def isLeaf : Tree → Bool
  | leaf _ => true
  | _ => false

/-- Whether the root has a child on the right only. -/
def isUnary : Tree → Bool
  | unary _ _ => true
  | _ => false

/-- The number of nodes. -/
def size : Tree → Nat
  | leaf _ => 1
  | unary _ r => r.size + 1
  | leftOnly _ l => l.size + 1
  | binary _ l r => l.size + r.size + 1

/-- What is still to be done: walk through a tree, or write a label. -/
inductive Task where
  | walk (t : Tree)
  | write (label : Text)

namespace Task

/-- The number of steps a task takes at most. -/
def weight : Task → Nat
  | walk t => 2 * t.size
  | write _ => 1

end Task

/-- The tasks that walking through a tree consists of: its children, then its label. -/
def tasks : Tree → List Task
  | leaf l => [.write l]
  | unary l r => [.walk r, .write l]
  | leftOnly l t => [.walk t, .write l]
  | binary l t r => [.walk t, .walk r, .write l]

theorem weight_tasks (t : Tree) :
    (t.tasks.map Task.weight).sum < (Task.walk t).weight := by
  cases t <;> simp [tasks, Task.weight, size] <;> omega

/-- Does the tasks of an agenda in order; `done` holds the labels written so far, backwards. -/
def perform : (agenda : List Task) → (done : List Text) → List Text
  | [], done => done.reverse
  | .write l :: agenda, done => perform agenda (l :: done)
  | .walk t :: agenda, done => perform (t.tasks ++ agenda) done
termination_by agenda => (agenda.map Task.weight).sum
decreasing_by
  · simp [Task.weight]
  · have := weight_tasks t
    simp only [List.map_append, List.sum_append, List.map_cons, List.sum_cons]
    omega

/-- Given labels, followed by those of a tree, every node after its children, the left child
first. -/
def appendPostOrder (out : List Text) (t : Tree) : List Text := perform [.walk t] out.reverse

/-- The labels of a tree, every node after its children, the left child first. -/
def postOrder (t : Tree) : List Text := appendPostOrder [] t

end Tree

end Reckon

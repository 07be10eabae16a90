import Reckon.Tree.Basic

/-!
# The agenda walks in post-order

The agenda is a stack of trees to be walked through and labels to be written. Whatever mix of both
is pending, the labels still to come are those of the pending trees, in post-order, and the pending
labels in between.

## Main definitions

* `Tree.labels`: the labels of a tree in post-order, by recursion

## Main results

* `perform_eq`: what an agenda writes
* `appendPostOrder_eq`, `postOrder_eq`: gathering with an agenda is the recursion
-/

namespace Reckon

namespace Tree

/-- The labels of a tree, every node after its children, the left child first. -/
def labels : Tree → List Text
  | leaf l => [l]
  | unary l r => r.labels ++ [l]
  | leftOnly l t => t.labels ++ [l]
  | binary l t r => t.labels ++ (r.labels ++ [l])

/-- The labels that a task writes. -/
def Task.labels : Task → List Text
  | walk t => t.labels
  | write l => [l]

theorem labels_tasks (t : Tree) : t.tasks.flatMap Task.labels = t.labels := by
  cases t <;> simp [tasks, Task.labels, labels]

/-- An agenda writes the labels of its tasks in order. -/
theorem perform_eq (agenda : List Task) (done : List Text) :
    perform agenda done = done.reverse ++ agenda.flatMap Task.labels := by
  fun_induction perform agenda done with
  | case1 done => simp
  | case2 done l agenda ih => simp [ih, Task.labels]
  | case3 done t agenda ih => simp [ih, labels_tasks, Task.labels]

theorem appendPostOrder_eq (out : List Text) (t : Tree) :
    appendPostOrder out t = out ++ t.labels := by
  simp [appendPostOrder, perform_eq, Task.labels]

theorem postOrder_eq (t : Tree) : t.postOrder = t.labels := appendPostOrder_eq [] t

end Tree

end Reckon

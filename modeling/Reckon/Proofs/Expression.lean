import Reckon.Machine
import Reckon.Proofs.Tree.PostOrder
import Reckon.Tree.Growth

/-!
# Expressions

The trees that can be evaluated: leaves, negations of one operand and binary operators between two.
An expression is evaluated by recursion, the left operand first; each result is written in plain
notation and read again when it is used.

## Main definitions

* `Expression`, `Expression.toTree`: expressions and their trees
* `Expression.postOrder`: the tokens of an expression, every operator after its operands
* `Expression.evaluate`: the text that an expression yields, or the first thing that stops it
-/

namespace Reckon

/-- An expression with texts as leaves. -/
inductive Expression where
  | leaf (label : Text)
  | negation (operand : Expression)
  | binary (op : BinaryOp) (left right : Expression)
  deriving DecidableEq, Repr

namespace Expression

/-- The tree of an expression. -/
def toTree : Expression → Tree
  | leaf l => .leaf l
  | negation x => .unary Tree.negationLabel x.toTree
  | binary op x y => .binary [op.symbol] x.toTree y.toTree

/-- The leaves of an expression from left to right. -/
def leaves : Expression → List Text
  | leaf l => [l]
  | negation x => x.leaves
  | binary _ x y => x.leaves ++ y.leaves

/-- The tokens of an expression, every operator after its operands. -/
def postOrder : Expression → List Text
  | leaf l => [l]
  | negation x => x.postOrder ++ [Tree.negationLabel]
  | binary op x y => x.postOrder ++ (y.postOrder ++ [[op.symbol]])

/-- The text that an expression yields in a context, or what stops its evaluation: a leaf yields
itself if it is a literal, an operator the written result on what its operands yield. -/
def evaluate (c : Context) : Expression → Except Stop Text
  | leaf l => if Decimal.isLiteral l then .ok l else Machine.fail .unrecognized (some l)
  | negation x => (x.evaluate c).bind (Machine.negated c)
  | binary op x y =>
    (x.evaluate c).bind fun left => (y.evaluate c).bind fun right =>
      Machine.combine c op left right

theorem labels_toTree (e : Expression) : e.toTree.labels = e.postOrder := by
  induction e with
  | leaf l => rfl
  | negation x ih => rw [toTree, Tree.labels, ih, postOrder]
  | binary op x y ihx ihy => rw [toTree, Tree.labels, ihx, ihy, postOrder]

theorem postOrder_toTree (e : Expression) : e.toTree.postOrder = e.postOrder := by
  rw [Tree.postOrder_eq, labels_toTree]

end Expression

end Reckon

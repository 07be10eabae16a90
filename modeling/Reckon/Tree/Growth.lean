import Reckon.Brackets
import Reckon.Failure
import Reckon.Split
import Reckon.Tree.Basic

/-!
# Growing a tree from a formula

A formula is folded once. Then every piece is stripped of its enclosing brackets and cut at its
place to split; its operands are the next pieces, the left one first, and a piece that cannot be
cut is a leaf. A piece that strips to nothing ends the growth with a failure that names the text it
was an operand of.

The pieces that wait and the nodes that are half grown are kept on a path instead of the recursion
stack, so that deep formulas need no deep recursion.

## Main definitions

* `Tree.ofFormula`: the tree of a formula, or the failure that ended its growth
-/

namespace Reckon

-- Sums start with the zero of the core library, whatever else is imported.
attribute [local instance (high)] Zero.ofOfNat0

namespace Tree

/-- A piece of a formula that is to become a tree, and the text that it is an operand of. -/
structure Piece where
  text : Text
  enclosing : Text
  deriving DecidableEq, Repr

/-- A node of which one child is growing. -/
inductive Step where
  /-- a negation whose operand is growing -/
  | negation
  /-- an operator whose left operand is growing, while the right one waits -/
  | left (symbol : Char) (right : Piece)
  /-- an operator whose right operand is growing, next to its grown left one -/
  | right (symbol : Char) (left : Tree)

/-- What stands at the lower end of a path: a piece that is to be cut, or a grown tree that is to be
put into the node above it. -/
inductive Focus where
  | piece (p : Piece)
  | tree (t : Tree)

/-- The label of the negation. -/
def negationLabel : Text := [Operator.negationSymbol]

/-- A bound on the work that a piece causes. -/
def Piece.weight (p : Piece) : Nat := 4 * p.text.length + 1

/-- A bound on the work at the lower end of a path. -/
def Focus.weight : Focus → Nat
  | piece p => p.weight
  | tree _ => 0

/-- A bound on the work that waits in a half-grown node. -/
def Step.weight : Step → Nat
  | left _ p => p.weight + 2
  | negation | right _ _ => 1

/-- Grows what stands at the lower end of a path, and then all that waits on the path. -/
def grow : Focus → (path : List Step) → Except Failure Tree
  | .piece p, path =>
    let t := Brackets.strip p.text
    have : t.length ≤ p.text.length := Brackets.length_strip_le p.text
    match Split.cut t with
    | .empty => .error ⟨.empty, p.enclosing, none⟩
    | .whole => grow (.tree (.leaf t)) path
    | .negation operand _ => grow (.piece ⟨operand, t⟩) (.negation :: path)
    | .binary c left right _ => grow (.piece ⟨left, t⟩) (.left c ⟨right, t⟩ :: path)
  | .tree t, [] => .ok t
  | .tree t, .negation :: path => grow (.tree (.unary negationLabel t)) path
  | .tree t, .left c p :: path => grow (.piece p) (.right c t :: path)
  | .tree t, .right c l :: path => grow (.tree (.binary [c] l t)) path
termination_by focus path => focus.weight + (path.map Step.weight).sum
decreasing_by
  all_goals
    simp only [Focus.weight, Step.weight, Piece.weight, List.map_cons, List.sum_cons]
    omega

/-- The tree of a formula. The balance of its brackets is not checked. -/
def ofFormula (formula : Text) : Except Failure Tree :=
  grow (.piece ⟨Brackets.normalize formula, []⟩) []

/-- What makes a formula invalid, if anything: unbalanced brackets, or an empty operand. -/
def invalid? (formula : Text) : Option Cause :=
  if Nesting.balanced formula then
    match ofFormula formula with
    | .error f => some f.cause
    | .ok _ => none
  else some .unbalanced

end Tree

end Reckon

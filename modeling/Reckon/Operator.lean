import Reckon.Text

/-!
# Operators

There are twelve binary operators, each written as one character, and the negation, which has a
character of its own in post-order sequences. Every operator has a priority from 1 (weakest) to 6.

## Main definitions

* `BinaryOp`, `BinaryOp.symbol`, `BinaryOp.ofSymbol?`: the binary operators and their characters
* `Operator`: a binary operator or the negation
* `Operator.priority`: the binding strength
-/

namespace Reckon

/-- The binary operators. -/
inductive BinaryOp where
  | multiply
  | divide
  | add
  | subtract
  | atLeast
  | atMost
  | less
  | greater
  | both
  | either
  | equal
  | differ
  deriving DecidableEq, Repr

namespace BinaryOp

/-- The character that stands for a binary operator. -/
def symbol : BinaryOp → Char
  | multiply => '*'
  | divide => '/'
  | add => '+'
  | subtract => '-'
  | atLeast => '?'
  | atMost => '\\'
  | less => '<'
  | greater => '>'
  | both => '&'
  | either => '|'
  | equal => '='
  | differ => '!'

/-- The binary operator that a character stands for. -/
def ofSymbol? : Char → Option BinaryOp
  | '*' => some multiply
  | '/' => some divide
  | '+' => some add
  | '-' => some subtract
  | '?' => some atLeast
  | '\\' => some atMost
  | '<' => some less
  | '>' => some greater
  | '&' => some both
  | '|' => some either
  | '=' => some equal
  | '!' => some differ
  | _ => none

@[simp] theorem ofSymbol?_symbol (op : BinaryOp) : ofSymbol? op.symbol = some op := by
  cases op <;> rfl

theorem symbol_of_ofSymbol? {c : Char} {op : BinaryOp} (h : ofSymbol? c = some op) :
    op.symbol = c := by
  unfold ofSymbol? at h
  split at h <;> cases h <;> rfl

/-- The binding strength of a binary operator: products, sums, order comparisons, connectives,
equality. -/
def priority : BinaryOp → Nat
  | multiply | divide => 5
  | add | subtract => 4
  | atLeast | atMost | less | greater => 3
  | both | either => 2
  | equal | differ => 1

end BinaryOp

/-- An operator of a post-order sequence: a binary operator or the negation. -/
inductive Operator where
  | binary (op : BinaryOp)
  | negation
  deriving DecidableEq, Repr

namespace Operator

/-- The character of the negation, which tells it from the subtraction. -/
def negationSymbol : Char := '_'

/-- The character that stands for an operator. -/
def symbol : Operator → Char
  | binary op => op.symbol
  | negation => negationSymbol

/-- The operator that a character stands for. -/
def ofSymbol? (c : Char) : Option Operator :=
  if c = negationSymbol then some negation else (BinaryOp.ofSymbol? c).map binary

@[simp] theorem ofSymbol?_symbol (o : Operator) : ofSymbol? o.symbol = some o := by
  rcases o with op | _
  · cases op <;> rfl
  · rfl

theorem symbol_of_ofSymbol? {c : Char} {o : Operator} (h : ofSymbol? c = some o) :
    o.symbol = c := by
  unfold ofSymbol? at h
  split at h
  · cases h
    exact Eq.symm ‹_›
  · obtain ⟨op, hop, rfl⟩ := Option.map_eq_some_iff.mp h
    exact BinaryOp.symbol_of_ofSymbol? hop

/-- The binding strength of the negation, above every binary operator's. -/
def negationPriority : Nat := 6

/-- The binding strength of an operator. -/
def priority : Operator → Nat
  | binary op => op.priority
  | negation => negationPriority

/-- The operator that a text consists of. -/
def ofText? : Text → Option Operator
  | [c] => ofSymbol? c
  | _ => none

end Operator

end Reckon

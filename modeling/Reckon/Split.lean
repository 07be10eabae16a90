import Reckon.Nesting
import Reckon.Operator

/-!
# The place to split

A text is cut at its weakest operator outside brackets. A minus at the start of the text, after an
operator or after an opening bracket negates what follows; any other minus subtracts. Among equally
weak binary operators the last one is taken, so that they group from the left; among negations the
first one, the outermost.

A character is outside brackets when the rest of the text from there on opens as many brackets as
it closes, that is, when the depth before it is the depth at the end of the text.

## Main definitions

* `Split.isNegation t i`: whether the character at `i` is a minus that negates
* `Split.index? t`: the place to split `t`
* `Split.cut t`: what `t` consists of

## Main results

* `Split.index?_lt`: the place to split lies in the text
-/

namespace Reckon

namespace Split

/-- Whether an operand begins after the character `previous`, or at the start of the text if there
is none. -/
def beginsOperand : (previous : Option Char) → Bool
  | none => true
  | some c => (Operator.ofSymbol? c).isSome || c == '('

/-- The character before the place `i`. -/
def previous? (t : Text) : Nat → Option Char
  | 0 => none
  | i + 1 => t[i]?

/-- Whether the character at `i` is a minus that negates what follows. -/
def isNegation (t : Text) (i : Nat) : Bool :=
  t[i]? == some '-' && beginsOperand (previous? t i)

/-- The places of all minuses that negate, in ascending order. -/
def negations (t : Text) : List Nat :=
  ((none :: t.map some).zip t).zipIdx.filterMap fun
    | ((previous, c), i) => if c == '-' && beginsOperand previous then some i else none

/-- The priority of the operator that the character `c` is when it stands after `previous`. -/
def rank? (previous : Option Char) (c : Char) : Option Nat :=
  if c == '-' && beginsOperand previous then some Operator.negationPriority
  else (Operator.ofSymbol? c).map Operator.priority

/-- An operator outside brackets: its place and its priority. -/
structure Candidate where
  index : Nat
  rank : Nat
  deriving DecidableEq, Repr

/-- The better of the best candidate so far and a later one: the weaker operator; of two equally
weak ones the later, unless they are negations. -/
def prefer : Option Candidate → Candidate → Candidate
  | none, later => later
  | some best, later =>
    if later.rank < best.rank ∨ later.rank = best.rank ∧ later.rank < Operator.negationPriority
    then later else best

/-- A reading of a text from the left: the next place, the depth there, the character before it,
and the best candidate so far. -/
structure Scan where
  index : Nat
  depth : Int
  previous : Option Char
  best : Option Candidate

/-- The scan before the first character. -/
def Scan.start : Scan := ⟨0, 0, none, none⟩

/-- Reads one character of a text that ends at the depth `final`. -/
def Scan.read (final : Int) (s : Scan) (c : Char) : Scan where
  index := s.index + 1
  depth := Nesting.deepen s.depth c
  previous := some c
  best :=
    if s.depth = final then
      match rank? s.previous c with
      | some rank => some (prefer s.best ⟨s.index, rank⟩)
      | none => s.best
    else s.best

/-- The place of the operator to split at, if there is an operator outside brackets. -/
def index? (t : Text) : Option Nat :=
  (t.foldl (Scan.read (Nesting.depthAfter 0 t)) Scan.start).best.map Candidate.index

theorem Scan.index_foldl (final : Int) (t : Text) (s : Scan) :
    (t.foldl (Scan.read final) s).index = s.index + t.length := by
  induction t generalizing s with
  | nil => rfl
  | cons c t ih => simp [ih, Scan.read]; omega

theorem index_prefer_lt {best : Option Candidate} {later : Candidate} {n : Nat}
    (hbest : ∀ b ∈ best, b.index < n) (hlater : later.index < n) :
    (prefer best later).index < n := by
  cases best with
  | none => exact hlater
  | some b =>
    simp only [prefer]
    split
    · exact hlater
    · exact hbest b rfl

theorem Scan.best_read_lt {final : Int} {s : Scan} (c : Char)
    (h : ∀ b ∈ s.best, b.index < s.index) :
    ∀ b ∈ (s.read final c).best, b.index < (s.read final c).index := by
  have hlt : ∀ b ∈ s.best, b.index < s.index + 1 := fun b hb => Nat.lt_succ_of_lt (h b hb)
  intro b hb
  simp only [Scan.read] at hb ⊢
  split at hb
  · split at hb
    · cases hb
      exact index_prefer_lt hlt (Nat.lt_succ_self _)
    · exact hlt b hb
  · exact hlt b hb

theorem Scan.best_foldl_lt (final : Int) (t : Text) (s : Scan)
    (h : ∀ b ∈ s.best, b.index < s.index) :
    ∀ b ∈ (t.foldl (Scan.read final) s).best,
      b.index < (t.foldl (Scan.read final) s).index := by
  induction t generalizing s with
  | nil => exact h
  | cons c t ih => exact ih _ (Scan.best_read_lt c h)

/-- The place to split lies in the text. -/
theorem index?_lt {t : Text} {i : Nat} (h : index? t = some i) : i < t.length := by
  obtain ⟨b, hb, rfl⟩ := Option.map_eq_some_iff.mp h
  have := Scan.best_foldl_lt (Nesting.depthAfter 0 t) t Scan.start
    (by simp [Scan.start]) b hb
  simpa [Scan.index_foldl, Scan.start] using this

/-- What a text without enclosing brackets consists of. The operands are parts of it and leave out
at least the operator. -/
inductive Cut (t : Text) where
  /-- nothing at all -/
  | empty
  /-- no operator outside brackets -/
  | whole
  /-- a negation of the rest of the text -/
  | negation (operand : Text) (shorter : operand.length < t.length)
  /-- an operator between two texts -/
  | binary (symbol : Char) (left right : Text) (shorter : left.length + right.length < t.length)
  deriving DecidableEq, Repr

/-- Cuts a text at the operator at `i`. What stands before a negation is dropped. -/
def cutAt (t : Text) (i : Nat) (h : i < t.length) : Cut t :=
  if isNegation t i then .negation (t.drop (i + 1)) (by rw [List.length_drop]; omega)
  else
    .binary t[i] (t.take i) (t.drop (i + 1)) (by rw [List.length_take, List.length_drop]; omega)

/-- Cuts a text at its place to split. -/
def cut (t : Text) : Cut t :=
  if t.isEmpty then .empty
  else if h : (index? t).isSome then cutAt t ((index? t).get h) (index?_lt (Option.some_get h).symm)
  else .whole

end Split

end Reckon

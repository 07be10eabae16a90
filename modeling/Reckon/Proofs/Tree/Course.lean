import Mathlib
import Reckon.Proofs.Enclosure
import Reckon.Proofs.Folding
import Reckon.Proofs.Split.Choice
import Reckon.Tree.Growth

/-!
# The course of growth

Growth goes on one step at a time: a piece is taken, stripped and cut, or a grown tree is put into
the node above it. What holds of the formula, and is handed on from a piece that is cut to its
operands, holds of every piece that is taken.

## Main definitions

* `Tree.Advances`: one step of growth
* `Tree.Takes f p`: growing the formula `f` comes to take the piece `p`

## Main results

* `grow_eq_of_advances`, `exists_advances_or`: a step leaves the outcome as it is, and growth ends
  only where there is none
* `ofFormula_eq_of_takes`: the tree of a formula is grown from every piece that is taken
* `forall_pieces_of_advances`: what is handed on to operands is kept by a step
* `takes_induction`: what is handed on to operands holds of all pieces that are taken
* `balanced_of_takes`: the pieces of a balanced formula are balanced
* `balance_of_formula_covers_pieces`: the balance of the formula as it is written covers all pieces
-/

namespace Reckon

namespace Tree

open Brackets Nesting Split

/-- One step of growth: a piece is stripped and cut, a grown tree is put into the node above it, or
the piece that waits there is taken. -/
inductive Advances : Focus × List Step → Focus × List Step → Prop where
  | whole {p : Piece} {path : List Step} (whole : cut (strip p.text) = .whole) :
      Advances (.piece p, path) (.tree (.leaf (strip p.text)), path)
  | negation {p : Piece} {path : List Step} {operand : Text}
      {shorter : operand.length < (strip p.text).length}
      (negation : cut (strip p.text) = .negation operand shorter) :
      Advances (.piece p, path) (.piece ⟨operand, strip p.text⟩, .negation :: path)
  | binary {p : Piece} {path : List Step} {c : Char} {left right : Text}
      {shorter : left.length + right.length < (strip p.text).length}
      (binary : cut (strip p.text) = .binary c left right shorter) :
      Advances (.piece p, path)
        (.piece ⟨left, strip p.text⟩, .left c ⟨right, strip p.text⟩ :: path)
  | negated (t : Tree) (path : List Step) :
      Advances (.tree t, .negation :: path) (.tree (.unary negationLabel t), path)
  | next (t : Tree) (c : Char) (p : Piece) (path : List Step) :
      Advances (.tree t, .left c p :: path) (.piece p, .right c t :: path)
  | joined (t : Tree) (c : Char) (l : Tree) (path : List Step) :
      Advances (.tree t, .right c l :: path) (.tree (.binary [c] l t), path)

/-- A step leaves the outcome as it is. -/
theorem grow_eq_of_advances {s s' : Focus × List Step} (h : Advances s s') :
    grow s.1 s.2 = grow s'.1 s'.2 := by
  cases h with
  | whole hc | negation hc | binary hc =>
    rw [grow]
    simp only [hc]
  | negated t path => exact grow.eq_3 t path
  | next t c p path => exact grow.eq_4 t c p path
  | joined t c l path => exact grow.eq_5 t c l path

/-- Growth goes on with a step, unless a tree has been grown and nothing waits, or a piece strips to
nothing. -/
theorem exists_advances_or (s : Focus × List Step) :
    (∃ s', Advances s s') ∨ (∃ t, s = (.tree t, [])) ∨
      ∃ p path, s = (.piece p, path) ∧ strip p.text = [] := by
  match s with
  | (.piece p, path) =>
    cases hc : cut (strip p.text) with
    | empty => exact .inr (.inr ⟨p, path, rfl, eq_nil_of_cut hc⟩)
    | whole => exact .inl ⟨_, .whole hc⟩
    | negation => exact .inl ⟨_, .negation hc⟩
    | binary => exact .inl ⟨_, .binary hc⟩
  | (.tree t, []) => exact .inr (.inl ⟨t, rfl⟩)
  | (.tree t, .negation :: path) => exact .inl ⟨_, .negated t path⟩
  | (.tree t, .left c p :: path) => exact .inl ⟨_, .next t c p path⟩
  | (.tree t, .right c l :: path) => exact .inl ⟨_, .joined t c l path⟩

/-- Any number of steps leaves the outcome as it is. -/
theorem grow_eq_of_reflTransGen {s s' : Focus × List Step}
    (h : Relation.ReflTransGen Advances s s') : grow s.1 s.2 = grow s'.1 s'.2 := by
  induction h with
  | refl => rfl
  | tail _ hstep ih => exact ih.trans (grow_eq_of_advances hstep)

/-- Growing the formula `f` comes to take the piece `p`. -/
def Takes (f : Text) (p : Piece) : Prop :=
  ∃ path, Relation.ReflTransGen Advances (.piece ⟨normalize f, []⟩, []) (.piece p, path)

/-- The tree of a formula is grown from every piece that is taken, and what waits then. -/
theorem ofFormula_eq_of_takes {f : Text} {p : Piece} (h : Takes f p) :
    ∃ path, ofFormula f = grow (.piece p) path := by
  obtain ⟨path, hsteps⟩ := h
  exact ⟨path, grow_eq_of_reflTransGen hsteps⟩

/-! ## What is handed on to operands -/

/-- The piece that is taken, if any. -/
def Focus.pieces : Focus → List Piece
  | piece p => [p]
  | tree _ => []

/-- The piece that waits in a half-grown node, if any. -/
def Step.pieces : Step → List Piece
  | left _ p => [p]
  | negation | right _ _ => []

/-- The pieces that are taken or wait. -/
def pieces (s : Focus × List Step) : List Piece := s.1.pieces ++ s.2.flatMap Step.pieces

variable {P : Text → Prop}

/-- What is handed on to operands is kept by a step. -/
theorem forall_pieces_of_advances
    (right : ∀ t i, P t → index? (strip t) = some i → P ((strip t).drop (i + 1)))
    (left : ∀ t i, P t → index? (strip t) = some i → isNegation (strip t) i = false →
      P ((strip t).take i))
    {s s' : Focus × List Step} (h : Advances s s') (hs : ∀ p ∈ pieces s, P p.text) :
    ∀ p ∈ pieces s', P p.text := by
  cases h with
  | @whole p path => exact (List.forall_mem_cons.mp hs).2
  | @negation p path operand _ hc =>
    obtain ⟨i, hi, -, rfl⟩ := index?_of_cut_negation hc
    obtain ⟨hp, hpath⟩ := List.forall_mem_cons.mp hs
    exact List.forall_mem_cons.mpr ⟨right _ i hp hi, hpath⟩
  | @binary p path c l r _ hc =>
    obtain ⟨i, hi, hneg, rfl, rfl⟩ := index?_of_cut_binary hc
    obtain ⟨hp, hpath⟩ := List.forall_mem_cons.mp hs
    refine List.forall_mem_cons.mpr ⟨left _ i hp hi hneg, ?_⟩
    exact List.forall_mem_cons.mpr ⟨right _ i hp hi, hpath⟩
  -- a grown tree is no piece, and the piece that is taken next has been waiting
  | negated | next | joined => exact hs

/-- What holds of the formula, and is handed on from every piece that is cut to its operands, holds
of all pieces that are taken. -/
theorem takes_induction {f : Text} (root : P (normalize f))
    (right : ∀ t i, P t → index? (strip t) = some i → P ((strip t).drop (i + 1)))
    (left : ∀ t i, P t → index? (strip t) = some i → isNegation (strip t) i = false →
      P ((strip t).take i))
    {p : Piece} (h : Takes f p) : P p.text := by
  obtain ⟨path, hsteps⟩ := h
  have hall {s : Focus × List Step}
      (hs : Relation.ReflTransGen Advances (.piece ⟨normalize f, []⟩, []) s) :
      ∀ q ∈ pieces s, P q.text := by
    induction hs with
    | refl => exact List.forall_mem_singleton.mpr root
    | tail _ hstep ih => exact forall_pieces_of_advances right left hstep ih
  exact hall hsteps p List.mem_cons_self

/-- The pieces of a balanced formula are balanced. -/
theorem balanced_of_takes {f : Text} {p : Piece} (hb : balanced f = true)
    (h : Takes f p) : balanced p.text = true := by
  refine takes_induction (P := fun t => balanced t = true) ?root ?right ?left h
  case root => exact balanced_strip ((Surface.balanced_fold f).trans hb)
  case right => exact fun t i ht hi => (balanced_of_index? (balanced_strip ht) hi).2
  case left => exact fun t i ht hi _ => (balanced_of_index? (balanced_strip ht) hi).1

/-- **One check of the balance covers all pieces.** Folding parts at every bracket, so a formula is
balanced exactly if its folded form is; and the pieces that are taken while a balanced formula grows
are balanced, in their brackets and stripped of them. -/
theorem balance_of_formula_covers_pieces (f : Text) :
    (∀ (x y : Text) (c : Char), isBracket c = true →
      Surface.fold (x ++ c :: y) = Surface.fold x ++ c :: Surface.fold y) ∧
    balanced f = balanced (Surface.fold f) ∧
    (balanced f = true → ∀ p, Takes f p →
      balanced p.text = true ∧ balanced (strip p.text) = true) := by
  refine ⟨fun x y c hc => Surface.fold_append_cons hc x y, (Surface.balanced_fold f).symm, ?_⟩
  intro hb p hp
  have hpiece : balanced p.text = true := balanced_of_takes hb hp
  exact ⟨hpiece, balanced_strip hpiece⟩

/-- The left operand of a difference is taken in its brackets. -/
theorem balance_of_formula_covers_pieces_operand :
    let f := ['(', '1', ')', ' ', '-', ' ', '(', '2', '+', '-', '3', ')']
    let p : Piece := ⟨['(', '1', ')'], ['(', '1', ')', '-', '(', '2', '-', '3', ')']⟩
    (isBracket '(' = true ∧ balanced f = true ∧ Takes f p) ∧
      Surface.fold f = Surface.fold ['(', '1', ')', ' ', '-', ' '] ++
        '(' :: Surface.fold ['2', '+', '-', '3', ')'] ∧
      balanced (Surface.fold f) = true ∧ balanced p.text = true ∧
      balanced (strip p.text) = true := by
  intro f p
  have hb : balanced f = true := by decide
  have hp : Takes f p := by
    have hf : strip (normalize f) = p.enclosing := by cbv
    have hlt : p.text.length + ['(', '2', '-', '3', ')'].length < (strip (normalize f)).length := by
      rw [hf]
      decide
    have hcut : cut (strip (normalize f)) = .binary '-' p.text ['(', '2', '-', '3', ')'] hlt := by
      cbv
    have hleft : Takes f ⟨p.text, strip (normalize f)⟩ := ⟨_, .single (.binary hcut)⟩
    rwa [hf] at hleft
  obtain ⟨hfold, hsame, hpieces⟩ := balance_of_formula_covers_pieces f
  have hparts := hfold ['(', '1', ')', ' ', '-', ' '] ['2', '+', '-', '3', ')'] '(' rfl
  exact ⟨⟨rfl, hb, hp⟩, hparts, hsame ▸ hb, hpieces hb p hp⟩

end Tree

end Reckon

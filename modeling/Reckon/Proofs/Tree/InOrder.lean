import Mathlib
import Reckon.Proofs.Tree.Course
import Reckon.Proofs.Tree.Piece

/-!
# Growth loses no text

A negation is grown from what follows its minus, so what stands before the minus would be dropped.
In a balanced piece nothing does: if a minus inside it negates, the operator that it follows is
weaker, or comes first, and that one is chosen. All that growth drops from a balanced formula are
brackets.

## Main definitions

* `Tree.inOrder`: the text of a tree, the label of every node between its children
* `Tree.bare`: a text without its brackets

## Main results

* `bare_inOrder_of_ofPiece`: the tree of a balanced piece has the text of the piece
* `ofFormula_loses_nothing`: growth loses no text of a balanced formula
-/

namespace Reckon

namespace Tree

open Brackets Nesting Split

/-- The text of a tree, every node between its children; a negation is written as a minus. -/
def inOrder : Tree → Text
  | leaf l => l
  | unary l r => (if l = negationLabel then ['-'] else l) ++ r.inOrder
  | leftOnly l t => t.inOrder ++ l
  | binary l t r => t.inOrder ++ l ++ r.inOrder

/-- A text without its brackets. -/
def bare (t : Text) : Text := t.filter fun c => !isBracket c

@[simp] theorem bare_append (s t : Text) : bare (s ++ t) = bare s ++ bare t :=
  List.filter_append ..

theorem bare_bracketed (g : Text) : bare ('(' :: (g ++ [')'])) = bare g := by
  show bare (g ++ [')']) = bare g
  rw [bare_append]
  exact List.append_nil _

/-- Only brackets are stripped. -/
theorem bare_strip (t : Text) : bare (strip t) = bare t :=
  strip_of (P := fun s => bare s = bare t) (fun g _ hg => (bare_bracketed g).symm.trans hg) rfl

/-- The tree of a balanced piece has the text of the piece, but for its brackets. -/
theorem bare_inOrder_of_ofPiece {t : Text} {tree : Tree} (enclosing : Text)
    (hb : balanced t = true) (h : ofPiece t enclosing = .ok tree) :
    bare tree.inOrder = bare t := by
  induction t using piece_induction generalizing enclosing tree with
  | stripped t ih =>
    rw [← ofPiece_congr (strip_strip t)] at h
    rw [ih enclosing (balanced_strip hb) h, bare_strip]
  | empty =>
    rw [ofPiece_empty enclosing strip_nil] at h
    cases h
  | whole t hne hs ho =>
    rw [ofPiece_whole enclosing (hs.symm ▸ hne) (hs.symm ▸ ho), hs] at h
    cases h
    rfl
  | negation p q rank hw hd hp ih =>
    -- nothing stands before the minus, so nothing is dropped with it
    obtain rfl := hw.eq_nil hb hd hp
    rw [ofPiece_negation enclosing hw hp] at h
    obtain ⟨x, hx, rfl⟩ := map_eq_ok.mp h
    have hq : balanced q = true := (balanced_of_offers hb hd rfl).2
    show bare (['-'] ++ x.inOrder) = bare (['-'] ++ q)
    rw [bare_append, bare_append, ih _ hq hx]
  | binary p c q rank hw hd hr hneg ihp ihq =>
    rw [ofPiece_binary enclosing hw hneg] at h
    obtain ⟨l, hl, h⟩ := bind_eq_ok.mp h
    obtain ⟨r, hr', rfl⟩ := map_eq_ok.mp h
    obtain ⟨hbp, hbq⟩ := balanced_of_offers hb hd (isBracket_of_rank? hr)
    have hsplit : p ++ c :: q = p ++ [c] ++ q := by simp
    rw [hsplit]
    simp only [inOrder, bare_append, ihp _ hbp hl, ihq _ hbq hr']

/-- **Growth loses no text** of a balanced formula. If a piece that it takes is split at a minus
that negates, that is the first character of the piece, so nothing before it is dropped; and the
tree that is grown has, brackets apart, the text of the folded formula. -/
theorem ofFormula_loses_nothing {f : Text} (hb : balanced f = true) :
    (∀ p i, Takes f p → index? (strip p.text) = some i → isNegation (strip p.text) i = true →
      i = 0) ∧
      ∀ t, ofFormula f = .ok t → bare t.inOrder = bare (Surface.fold f) := by
  constructor
  · intro p i hp hi hneg
    exact eq_zero_of_isNegation (balanced_strip (balanced_of_takes hb hp)) hi hneg
  · intro t ht
    rw [ofFormula_eq_ofPiece] at ht
    exact bare_inOrder_of_ofPiece [] ((Surface.balanced_fold f).trans hb) ht

/-- The negated factor of a product is taken in its brackets, and begins with the minus. -/
theorem ofFormula_loses_nothing_factor :
    let f := ['2', '*', '(', '-', '3', ')']
    let p : Piece := ⟨['(', '-', '3', ')'], f⟩
    let t : Tree := .binary ['*'] (.leaf ['2']) (.unary negationLabel (.leaf ['3']))
    (balanced f = true ∧ Takes f p ∧ ofFormula f = .ok t) ∧
      (∃ i, index? (strip p.text) = some i ∧ isNegation (strip p.text) i = true ∧ i = 0) ∧
      bare t.inOrder = bare (Surface.fold f) := by
  intro f p t
  have hb : balanced f = true := by decide
  have ht : ofFormula f = .ok t := by cbv
  have hp : Takes f p := by
    have hf : strip (normalize f) = f := by cbv
    have hlt : ['2'].length + p.text.length < (strip (normalize f)).length := by
      rw [hf]
      decide
    have hcut : cut (strip (normalize f)) = .binary '*' ['2'] p.text hlt := by cbv
    have hleft : cut (strip ['2']) = .whole := by cbv
    have hright : Takes f ⟨p.text, strip (normalize f)⟩ :=
      ⟨_, .head (.binary hcut) (.head (.whole hleft) (.single (.next _ _ _ _)))⟩
    rwa [hf] at hright
  have hi : index? (strip p.text) = some 0 := by cbv
  have hneg : isNegation (strip p.text) 0 = true := by cbv
  obtain ⟨hzero, htext⟩ := ofFormula_loses_nothing hb
  exact ⟨⟨hb, hp, ht⟩, ⟨0, hi, hneg, hzero p 0 hp hi hneg⟩, htext t ht⟩

/-- Where a bracket lacks its partner, what stands before a minus may be lost. -/
example : (ofFormula ['1', '(', '-', '5']).map inOrder = .ok ['-', '5'] := by cbv

end Tree

end Reckon

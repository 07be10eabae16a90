import Reckon.Proofs.Expression
import Reckon.Proofs.Sentence
import Reckon.Proofs.Tree.Piece

/-!
# Sentences and the trees that grow from them

A text may grow into a tree although it is no sentence: what cannot be cut becomes a leaf, whatever
it is, and the character of the negation is cut like a binary operator. Exactly the sentences grow
into expressions whose leaves are literals without a sign.

## Main definitions

* `Tree.leaves`: the leaves of a tree from left to right

## Main results

* `Sentence.exists_ofPiece`: a sentence grows into an expression with such leaves
* `sentence_of_ofPiece`: a balanced text that grows into one is a sentence
* `exists_expression`: without the character of the negation, only expressions grow
-/

namespace Reckon

open Brackets Decimal Nesting Split

namespace Tree

/-- The leaves of a tree from left to right. -/
def leaves : Tree → List Text
  | leaf l => [l]
  | unary _ r => r.leaves
  | leftOnly _ l => l.leaves
  | binary _ l r => l.leaves ++ r.leaves

end Tree

theorem Expression.leaves_toTree (e : Expression) : e.toTree.leaves = e.leaves := by
  induction e with
  | leaf l => rfl
  | negation x ih => exact ih
  | binary op x y ihx ihy => rw [toTree, Tree.leaves, ihx, ihy, leaves]

namespace Sentence

/-- A sentence grows into an expression whose leaves are literals without a sign. -/
theorem exists_ofPiece {w : Text} (h : Sentence w) :
    ∃ e : Expression, (∀ l ∈ e.leaves, Unsigned l) ∧
      ∀ enclosing, Tree.ofPiece w enclosing = .ok e.toTree := by
  induction w using Tree.piece_induction with
  | stripped t ih =>
    -- what is grown depends on the stripped text only
    obtain ⟨e, hl, ht⟩ := ih h.strip
    exact ⟨e, hl, fun enclosing => by rw [← Tree.ofPiece_congr (strip_strip t), ht]⟩
  | empty => exact absurd rfl h.ne_nil
  | whole t hne hs ho =>
    have hl := h.unsigned hs ho
    refine ⟨.leaf t, by simpa [Expression.leaves] using hl, fun enclosing => ?_⟩
    rw [Tree.ofPiece_whole enclosing (hs.symm ▸ hne) (hs.symm ▸ ho), hs]
    rfl
  | negation p q rank hw _ hp ih =>
    obtain ⟨-, hq⟩ := h.tail hw hp
    obtain ⟨e, hl, ht⟩ := ih hq
    refine ⟨.negation e, hl, fun enclosing => ?_⟩
    rw [Tree.ofPiece_negation enclosing hw hp, ht]
    rfl
  | binary p c q rank hw _ hr hn ihp ihq =>
    obtain ⟨op, rfl, hp, hq⟩ := h.parts rfl hw.offers hn
    obtain ⟨x, hx, htx⟩ := ihp hp
    obtain ⟨y, hy, hty⟩ := ihq hq
    refine ⟨.binary op x y, ?_, fun enclosing => ?_⟩
    · intro l hl
      rcases List.mem_append.mp hl with hl | hl
      · exact hx l hl
      · exact hy l hl
    · rw [Tree.ofPiece_binary enclosing hw hn, htx, hty]
      rfl

end Sentence

namespace Tree

/-- A balanced text that grows into an expression whose leaves are literals without a sign is a
sentence. -/
theorem sentence_of_ofPiece {t enclosing : Text} {e : Expression} (hb : balanced t = true)
    (ht : ofPiece t enclosing = .ok e.toTree) (hl : ∀ l ∈ e.leaves, Unsigned l) : Sentence t := by
  induction t using piece_induction generalizing e enclosing with
  | stripped t ih =>
    rw [← ofPiece_congr (strip_strip t)] at ht
    exact Sentence.of_strip (ih (balanced_strip hb) ht hl)
  | empty =>
    rw [ofPiece_empty enclosing strip_nil] at ht
    cases ht
  | whole t hne hs ho =>
    rw [ofPiece_whole enclosing (hs.symm ▸ hne) (hs.symm ▸ ho), hs] at ht
    cases e with
    | leaf l =>
      cases ht
      exact .literal (hl _ (List.mem_singleton_self _))
    | negation x => cases ht
    | binary op x y => cases ht
  | negation p q rank hw hd hp ih =>
    obtain rfl := hw.eq_nil hb hd hp
    rw [ofPiece_negation enclosing hw hp] at ht
    obtain ⟨x, hx, he⟩ := map_eq_ok.mp ht
    cases e with
    | leaf l => cases he
    | negation y =>
      cases he
      exact (ih (balanced_of_offers hb hd rfl).2 hx hl).negation
    | binary op y z => cases he
  | binary p c q rank hw hd hr hn ihp ihq =>
    rw [ofPiece_binary enclosing hw hn] at ht
    obtain ⟨l, hl', ht⟩ := bind_eq_ok.mp ht
    obtain ⟨r, hr', he⟩ := map_eq_ok.mp ht
    obtain ⟨hbp, hbq⟩ := balanced_of_offers hb hd (isBracket_of_rank? hr)
    cases e with
    | leaf l => cases he
    | negation y => cases he
    | binary op x y =>
      cases he
      exact (ihp hbp hl' fun l h => hl l (List.mem_append_left _ h)).binary op
        (ihq hbq hr' fun l h => hl l (List.mem_append_right _ h))

/-- Without the character of the negation, only expressions grow. -/
theorem exists_expression {t enclosing : Text} {tree : Tree}
    (ht : ofPiece t enclosing = .ok tree) (hn : Operator.negationSymbol ∉ t) :
    ∃ e : Expression, tree = e.toTree := by
  induction t using piece_induction generalizing enclosing tree with
  | stripped t ih =>
    rw [← ofPiece_congr (strip_strip t)] at ht
    refine ih ht (strip_of (P := fun t => Operator.negationSymbol ∉ t) (fun g _ hg => ?_) hn)
    exact fun hmem => hg (by simp [hmem])
  | empty =>
    rw [ofPiece_empty enclosing strip_nil] at ht
    cases ht
  | whole t hne hs ho =>
    rw [ofPiece_whole enclosing (hs.symm ▸ hne) (hs.symm ▸ ho), hs] at ht
    cases ht
    exact ⟨.leaf t, rfl⟩
  | negation p q rank hw _ hp ih =>
    rw [ofPiece_negation enclosing hw hp] at ht
    obtain ⟨x, hx, rfl⟩ := map_eq_ok.mp ht
    obtain ⟨e, rfl⟩ := ih hx fun hmem => hn (by simp [hmem])
    exact ⟨.negation e, rfl⟩
  | binary p c q rank hw _ hr hneg ihp ihq =>
    rw [ofPiece_binary enclosing hw hneg] at ht
    obtain ⟨l, hl, ht⟩ := bind_eq_ok.mp ht
    obtain ⟨r, hr', rfl⟩ := map_eq_ok.mp ht
    obtain ⟨x, rfl⟩ := ihp hl fun hmem => hn (by simp [hmem])
    obtain ⟨y, rfl⟩ := ihq hr' fun hmem => hn (by simp [hmem])
    obtain ⟨o, ho⟩ := Option.isSome_iff_exists.mp (isSome_ofSymbol?_of_rank? hr)
    -- the operator cannot be the negation, whose character is not in the text
    obtain rfl := Operator.symbol_of_ofSymbol? ho
    cases o with
    | binary op => exact ⟨.binary op x y, rfl⟩
    | negation => exact absurd (by simp [Operator.symbol]) hn

end Tree

end Reckon

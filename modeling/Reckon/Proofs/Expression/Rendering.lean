import Reckon.Proofs.Expression
import Reckon.Proofs.Folding
import Reckon.Proofs.Sentence
import Reckon.Proofs.Tree.Piece

/-!
# Growing undoes rendering

An expression is written with blanks around its operators and with brackets where an operand would
not bind strongly enough; more blanks and more brackets may be put in. Whatever way it is written,
the tree that grows is the tree of the expression.

The rendering is indexed by the priority that an operand must have at its place. What is offered
outside the brackets of a rendering is never weaker than that, so the operator at the root is the
weakest offer, and among equally weak ones the last.

## Main definitions

* `Surface.Spells s op`: `s` is a spelling of `op`
* `Expression.Renders n e r`: `r` writes `e` as an operand of a priority of at least `n`
* `Expression.Parsed n e w`: the sentence `w` grows into `e` and offers nothing weaker than `n`

## Main results

* `Renders.exists_parsed`: a rendering is folded into a sentence that grows into its expression
* `ofFormula_of_renders`: the tree of a rendering is that of its expression
-/

namespace Reckon

open Operator Split Surface

namespace Surface

/-- The spellings of a binary operator: its character, and what is folded into it. -/
def Spells (s : Text) (op : BinaryOp) : Prop := s = [op.symbol] ∨ (s, [op.symbol]) ∈ spellings

theorem Spells.fold_eq {s : Text} {op : BinaryOp} (h : Spells s op) : fold s = [op.symbol] := by
  have hrow : ∀ row ∈ spellings, row.2 ≠ [] → fold row.1 = row.2 := by decide
  rcases h with rfl | h
  · cases op <;> decide
  · exact hrow _ h (by simp)

end Surface

namespace Expression

/-- The text `r` writes the expression so that it may stand where an operand of a priority of at
least `n` is expected. An operator has blanks on both sides; a negation needs none before it. -/
inductive Renders : (n : Nat) → Expression → (r : Text) → Prop where
  | leaf {n : Nat} {l : Text} (unsigned : Decimal.Unsigned l) : Renders n (leaf l) l
  | negation {n : Nat} {x : Expression} {b r : Text} (binds : n ≤ negationPriority)
      (blanks : Blanks b) : Renders negationPriority x r → Renders n (negation x) ('-' :: (b ++ r))
  | binary (op : BinaryOp) {n : Nat} {x y : Expression} {b b' r r' s : Text}
      (binds : n ≤ op.priority) (blanks : Blanks b) (spells : Spells s op) (blanks' : Blanks b') :
      Renders op.priority x r → Renders (op.priority + 1) y r' →
        Renders n (binary op x y) (r ++ (b ++ (s ++ (b' ++ r'))))
  | bracket {n : Nat} {e : Expression} {r : Text} :
      Renders 0 e r → Renders n e ('(' :: (r ++ [')']))
  | padded {n : Nat} {e : Expression} {b b' r : Text} (blanks : b.all isBlank = true)
      (blanks' : b'.all isBlank = true) : Renders n e r → Renders n e (b ++ (r ++ b'))

/-! ## Sentences that grow into an expression -/

/-- The sentence `w` grows into the expression and offers nothing weaker than `n`. -/
structure Parsed (n : Nat) (e : Expression) (w : Text) : Prop where
  sentence : Sentence w
  rank_ge : ∀ i rank, Offers w i rank → n ≤ rank
  tree : ∀ enclosing, Tree.ofPiece w enclosing = .ok e.toTree

namespace Parsed

variable {n : Nat} {x y : Expression} {w w' : Text}

theorem leaf {l : Text} (h : Decimal.Unsigned l) : Parsed n (leaf l) l where
  sentence := .literal h
  rank_ge i rank ho := absurd ho (Sentence.not_offers_literal h i rank)
  tree enclosing := by
    have hs : Brackets.strip l = l := by
      refine Brackets.strip_of_not_enclosed fun he => ?_
      obtain ⟨g, -, rfl⟩ := Brackets.enclosed_iff.mp he
      exact h.notMem rfl (List.mem_cons_self ..)
    rw [Tree.ofPiece_whole enclosing (by rw [hs]; exact h.ne_nil)
      (by rw [hs]; exact Sentence.not_offers_literal h), hs, toTree]

theorem bracket (h : Parsed 0 x w) : Parsed n x ('(' :: (w ++ [')'])) where
  sentence := h.sentence.bracket
  rank_ge i rank ho := absurd ho (Sentence.not_offers_bracket h.sentence i rank)
  tree enclosing := by rw [Tree.ofPiece_bracketed enclosing h.sentence.balanced, h.tree]

/-- The minus in front is the weakest offer: all offers after it are negations, too. -/
theorem negation (hn : n ≤ negationPriority) (h : Parsed negationPriority x w) :
    Parsed n (negation x) ('-' :: w) where
  sentence := h.sentence.negation
  rank_ge i rank ho := by
    rcases (Sentence.offers_negation h.sentence).mp ho with ⟨-, rfl⟩ | ⟨k, -, ho⟩
    · exact hn
    · exact Nat.le_trans hn (h.rank_ge k rank ho)
  tree enclosing := by
    have hw : Weakest ('-' :: w) 0 negationPriority := by
      refine ⟨(Sentence.offers_negation h.sentence).mpr (.inl ⟨rfl, rfl⟩), fun j rank ho => ?_⟩
      rcases (Sentence.offers_negation h.sentence).mp ho with ⟨-, rfl⟩ | ⟨k, -, ho⟩
      · exact ⟨Nat.le_refl _, fun _ => by rw [if_neg (Nat.lt_irrefl _)]; exact Nat.zero_le j⟩
      · refine ⟨h.rank_ge k rank ho, fun _ => ?_⟩
        rw [if_neg (Nat.lt_irrefl _)]
        exact Nat.zero_le j
    rw [← List.nil_append ('-' :: w), Tree.ofPiece_negation enclosing (p := []) hw rfl, h.tree]
    rfl

/-- The operator between the operands is the weakest offer: those on its left are no weaker and
before it, and those on its right are stronger. -/
theorem binary {op : BinaryOp} (hn : n ≤ op.priority) (h : Parsed op.priority x w)
    (h' : Parsed (op.priority + 1) y w') :
    Parsed n (binary op x y) (w ++ op.symbol :: w') where
  sentence := h.sentence.binary op h'.sentence
  rank_ge i rank ho := by
    rcases (Sentence.offers_binary op h.sentence h'.sentence).mp ho with ho | ⟨-, rfl⟩ | ⟨k, -, ho⟩
    · exact Nat.le_trans hn (h.rank_ge i rank ho)
    · exact hn
    · have := h'.rank_ge k rank ho
      omega
  tree enclosing := by
    have hoffers {i rank : Nat} : Offers (w ++ op.symbol :: w') i rank ↔ _ :=
      Sentence.offers_binary op h.sentence h'.sentence
    have hw : Weakest (w ++ op.symbol :: w') w.length op.priority := by
      refine ⟨hoffers.mpr (.inr (.inl ⟨rfl, rfl⟩)), fun j rank ho => ?_⟩
      -- on the left no weaker and before, the operator itself, or on the right and stronger
      rcases hoffers.mp ho with hl | ⟨rfl, rfl⟩ | ⟨k, -, hr⟩
      · refine ⟨h.rank_ge j rank hl, fun _ => ?_⟩
        rw [if_pos op.priority_lt]
        exact hl.lt.le
      · exact ⟨Nat.le_refl _, fun _ => by rw [if_pos op.priority_lt]⟩
      · have := h'.rank_ge k rank hr
        exact ⟨by omega, fun he => by omega⟩
    rw [Tree.ofPiece_binary enclosing hw (by simp [h.sentence.last]), h.tree, h'.tree]
    rfl

end Parsed

/-! ## Renderings -/

/-- A rendering is folded into a sentence that grows into its expression. -/
theorem Renders.exists_parsed {n : Nat} {e : Expression} {r : Text} (h : Renders n e r) :
    ∃ w, Folds r w ∧ Parsed n e w := by
  induction h with
  | leaf hl => exact ⟨_, Folds.literal hl, Parsed.leaf hl⟩
  | negation hn hb _ ih =>
    obtain ⟨w, hf, hp⟩ := ih
    exact ⟨_, hf.negation hb, hp.negation hn⟩
  | binary op hn hb hs hb' _ _ ih ih' =>
    obtain ⟨w, hf, hp⟩ := ih
    obtain ⟨w', hf', hp'⟩ := ih'
    exact ⟨_, hf.binary hf' hb hb' hs.fold_eq, hp.binary hn hp'⟩
  | bracket _ ih =>
    obtain ⟨w, hf, hp⟩ := ih
    exact ⟨_, hf.bracket, hp.bracket⟩
  | padded hb hb' _ ih =>
    obtain ⟨w, hf, hp⟩ := ih
    exact ⟨w, hf.padded hb hb', hp⟩

/-- **Growing undoes rendering**: the tree of a rendering is that of its expression, and its tokens
are the post-order of the expression. -/
theorem ofFormula_of_renders {e : Expression} {r : Text} (h : Renders 0 e r) :
    Tree.ofFormula r = .ok e.toTree ∧ e.toTree.postOrder = e.postOrder := by
  obtain ⟨w, hf, hp⟩ := h.exists_parsed
  refine ⟨?_, postOrder_toTree e⟩
  rw [Tree.ofFormula_eq_ofPiece, hf.fold_eq, hp.tree]

/-- A difference in brackets times a negation, with an operator of two characters. -/
theorem ofFormula_of_renders_atLeast :
    let e := binary .atLeast
      (binary .multiply (binary .subtract (leaf ['1']) (leaf ['2'])) (negation (leaf ['.', '5'])))
      (leaf ['3'])
    let r := ['(', '1', ' ', '-', ' ', '2', ')', ' ', '*', ' ', '-', ' ', '.', '5', ' ', '>', '=',
      '\u3000', '3']
    Renders 0 e r ∧ Tree.ofFormula r = .ok e.toTree := by
  intro e r
  have hb : Blanks [' '] := by decide
  have hb' : Blanks ['\u3000'] := by decide
  have hl {n : Nat} (c : Char) (h : Decimal.Unsigned [c]) : Renders n (leaf [c]) [c] := .leaf h
  have hdifference : Renders 5 _ ['(', '1', ' ', '-', ' ', '2', ')'] :=
    .bracket (.binary .subtract (by decide) hb (.inl rfl) hb (hl '1' (by decide))
      (hl '2' (by decide)))
  have hnegation : Renders 6 _ ['-', ' ', '.', '5'] :=
    .negation (by decide) hb (.leaf (l := ['.', '5']) (by decide))
  have hproduct := Renders.binary .multiply (n := 3) (by decide) hb (.inl rfl) hb hdifference
    hnegation
  have hspells : Spells ['>', '='] .atLeast := .inr (by decide)
  have h : Renders 0 e r :=
    .binary .atLeast (by decide) hb hspells hb' hproduct (hl '3' (by decide))
  exact ⟨h, (ofFormula_of_renders h).1⟩

end Expression

end Reckon

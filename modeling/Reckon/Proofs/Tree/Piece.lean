import Reckon.Proofs.Enclosure
import Reckon.Proofs.Outcome
import Reckon.Proofs.Split.Choice
import Reckon.Tree.Growth

/-!
# The tree of a piece

Growing along a path is a recursion on the pieces of a formula: a piece is stripped and cut, and its
tree is put together from the trees of its operands. The first piece that strips to nothing, the
left operand before the right one, decides the failure.

## Main definitions

* `Tree.ofPiece text enclosing`: the tree of a piece, by recursion
* `Tree.Grown`: the shape of the trees that are grown from formulas

## Main results

* `ofFormula_eq_ofPiece`: the tree of a formula is that of its folded text
* `ofPiece_whole`, `ofPiece_negation`, `ofPiece_binary`: the tree of a piece, by its weakest offer
* `piece_induction`: induction along the cutting of pieces
* `grown_of_ofPiece`: what is grown has the shape of a grown tree
-/

namespace Reckon

namespace Tree

open Brackets Nesting Split

/-- The tree of a piece of a formula that is an operand of the text `enclosing`. -/
def ofPiece (text enclosing : Text) : Except Failure Tree :=
  have : (strip text).length ≤ text.length := length_strip_le text
  match cut (strip text) with
  | .empty => .error ⟨.empty, enclosing, none⟩
  | .whole => .ok (.leaf (strip text))
  | .negation operand _ => (ofPiece operand (strip text)).map (.unary negationLabel)
  | .binary c left right _ =>
    (ofPiece left (strip text)).bind fun l =>
      (ofPiece right (strip text)).map fun r => .binary [c] l r
termination_by text.length

/-! ## Growing along a path -/

/-- Growing a piece is growing its tree, and then all that waits on the path. -/
theorem grow_piece (text enclosing : Text) (path : List Step) :
    grow (.piece ⟨text, enclosing⟩) path =
      (ofPiece text enclosing).bind fun t => grow (.tree t) path := by
  fun_induction ofPiece text enclosing generalizing path with
  | case1 text enclosing _ hc =>
    rw [grow]
    simp [hc, Except.bind]
  | case2 text enclosing _ hc =>
    rw [grow]
    simp [hc, Except.bind]
  | case3 text enclosing _ operand hlt hc ih =>
    rw [grow]
    simp only [hc, ih]
    cases ofPiece operand (strip text) with
    | error f => rfl
    | ok t => exact grow.eq_3 _ _
  | case4 text enclosing _ c left right hlt hc ihl ihr =>
    rw [grow]
    simp only [hc, ihl]
    cases ofPiece left (strip text) with
    | error f => rfl
    | ok l =>
      simp only [Except.bind, grow, ihr]
      cases ofPiece right (strip text) with
      | error f => rfl
      | ok r => simp only [Except.map]

theorem ofPiece_of_strip {text t : Text} (h : strip text = t) (enclosing : Text) :
    ofPiece text enclosing =
      match cut t with
      | .empty => .error ⟨.empty, enclosing, none⟩
      | .whole => .ok (.leaf t)
      | .negation operand _ => (ofPiece operand t).map (.unary negationLabel)
      | .binary c left right _ =>
        (ofPiece left t).bind fun l => (ofPiece right t).map fun r => .binary [c] l r := by
  subst h
  rw [ofPiece]
  cases cut (strip text) <;> rfl

/-- A piece matters only by what is left of it when it is stripped. -/
theorem ofPiece_congr {s t : Text} (h : strip s = strip t) (enclosing : Text) :
    ofPiece s enclosing = ofPiece t enclosing := by
  rw [ofPiece_of_strip h, ofPiece_of_strip rfl]

/-- The tree of a formula is that of its folded text. -/
theorem ofFormula_eq_ofPiece (formula : Text) :
    ofFormula formula = ofPiece (Surface.fold formula) [] := by
  rw [ofFormula, grow_piece, Brackets.normalize, ofPiece_congr (strip_strip _)]
  cases ofPiece (Surface.fold formula) [] with
  | error f => rfl
  | ok t => exact grow.eq_2 _

/-! ## By the weakest offer -/

variable {t : Text} (enclosing : Text)

/-- A text that offers a place to split is not enclosed. -/
theorem strip_of_offers {i rank : Nat} (h : Offers t i rank) : strip t = t := by
  refine strip_of_not_enclosed fun he => ?_
  obtain ⟨g, hg, rfl⟩ := enclosed_iff.mp he
  exact not_offersIn_group hg (Int.le_refl 0) h

/-- A pair of brackets around a balanced piece does not matter. -/
theorem ofPiece_bracketed (h : balanced t = true) :
    ofPiece ('(' :: (t ++ [')'])) enclosing = ofPiece t enclosing :=
  ofPiece_congr (strip_bracketed h) enclosing

theorem ofPiece_empty (h : strip t = []) :
    ofPiece t enclosing = .error ⟨.empty, enclosing, none⟩ := by
  rw [ofPiece_of_strip h]
  rfl

/-- A piece that offers nothing is a leaf. -/
theorem ofPiece_whole (hne : strip t ≠ []) (h : ∀ i rank, ¬ Offers (strip t) i rank) :
    ofPiece t enclosing = .ok (.leaf (strip t)) := by
  rw [ofPiece_of_strip rfl, cut_whole hne h]

/-- A piece whose weakest offer is a negation is the negation of what follows. -/
theorem ofPiece_negation {p q : Text} {rank : Nat} (h : Weakest (p ++ '-' :: q) p.length rank)
    (hp : beginsOperand p.getLast? = true) :
    ofPiece (p ++ '-' :: q) enclosing =
      (ofPiece q (p ++ '-' :: q)).map (.unary negationLabel) := by
  obtain ⟨hlt, hc⟩ := cut_negation h hp
  rw [ofPiece_of_strip (strip_of_offers h.offers), hc]

/-- A piece whose weakest offer is no negation is that operator between two operands. -/
theorem ofPiece_binary {p q : Text} {c : Char} {rank : Nat}
    (h : Weakest (p ++ c :: q) p.length rank)
    (hp : ¬ (c = '-' ∧ beginsOperand p.getLast? = true)) :
    ofPiece (p ++ c :: q) enclosing =
      (ofPiece p (p ++ c :: q)).bind fun l =>
        (ofPiece q (p ++ c :: q)).map fun r => .binary [c] l r := by
  obtain ⟨hlt, hc⟩ := cut_binary h hp
  rw [ofPiece_of_strip (strip_of_offers h.offers), hc]

/-! ## Induction on pieces -/

/-- Induction along the cutting of pieces. -/
@[elab_as_elim]
theorem piece_induction {motive : Text → Prop} (t : Text)
    (stripped : ∀ t, motive (strip t) → motive t)
    (empty : motive [])
    (whole : ∀ t, t ≠ [] → strip t = t → (∀ i rank, ¬ Offers t i rank) → motive t)
    (negation : ∀ p q rank, Weakest (p ++ '-' :: q) p.length rank →
      depthAfter 0 ('-' :: q) = 0 → beginsOperand p.getLast? = true → motive q →
        motive (p ++ '-' :: q))
    (binary : ∀ p c q rank, Weakest (p ++ c :: q) p.length rank → depthAfter 0 (c :: q) = 0 →
      rank? p.getLast? c = some rank → ¬ (c = '-' ∧ beginsOperand p.getLast? = true) →
        motive p → motive q → motive (p ++ c :: q)) : motive t := by
  induction hn : t.length using Nat.strongRecOn generalizing t with
  | ind n ih =>
    -- Stripping and cutting only shorten a text, so the operands are shorter.
    have hle := length_strip_le t
    refine stripped t ?_
    rcases cut_cases (strip t) with he | ⟨hne, ho⟩ | ⟨p, c, q, rank, he, hw, hd, hr⟩
    · rwa [he]
    · exact whole _ hne (strip_strip t) ho
    · rw [he] at hw hle ⊢
      rw [List.length_append, List.length_cons] at hle
      have hq : motive q := ih q.length (by omega) q rfl
      by_cases hneg : c = '-' ∧ beginsOperand p.getLast? = true
      · obtain ⟨rfl, hp⟩ := hneg
        exact negation p q rank hw hd hp hq
      · exact binary p c q rank hw hd hr hneg (ih p.length (by omega) p rfl) hq

/-! ## Failures -/

/-- The enclosing text is only named in a failure. -/
theorem ofPiece_eq_ok {tree : Tree} (enclosing' : Text) (h : ofPiece t enclosing = .ok tree) :
    ofPiece t enclosing' = .ok tree := by
  rw [ofPiece] at h ⊢
  cases hc : cut (strip t) <;> simp_all

/-- Growing fails only at an empty piece. -/
theorem cause_of_ofPiece {f : Failure} (h : ofPiece t enclosing = .error f) :
    f.cause = .empty := by
  fun_induction ofPiece t enclosing generalizing f with
  | case1 => cases h; rfl
  | case2 => cases h
  | case3 text enclosing _ operand hlt hc ih => exact ih (map_eq_error.mp h)
  | case4 text enclosing _ c left right hlt hc ihl ihr =>
    rcases bind_eq_error.mp h with hl | ⟨l, -, hr⟩
    · exact ihl hl
    · exact ihr (map_eq_error.mp hr)

/-- Nothing grows from a text that begins with an operator other than a minus, as there is nothing
before it that could be its left operand. -/
theorem exists_error_of_leading {o : Operator} (ho : o.symbol ≠ '-') {t : Text}
    (hb : balanced (o.symbol :: t) = true) (enclosing : Text) :
    ∃ f, ofPiece (o.symbol :: t) enclosing = .error f := by
  have hrank : rank? none o.symbol = some o.priority := by
    rw [rank?_of_not_negation fun h => ho h.1, Operator.ofSymbol?_symbol]
    rfl
  generalize hs : o.symbol :: t = s at hb
  induction s using piece_induction generalizing t enclosing with
  | stripped s ih =>
    by_cases he : enclosed s = true
    · obtain ⟨g, -, rfl⟩ := enclosed_iff.mp he
      have hbracket := isBracket_of_rank? hrank
      rw [(List.cons.inj hs).1] at hbracket
      cases hbracket
    · rw [strip_of_not_enclosed he] at ih
      exact ih enclosing hs hb
  | empty => cases hs
  | whole s _ _ hw =>
    subst hs
    have hd : depthAfter 0 (o.symbol :: t) + 0 = 0 := by rw [depthAfter_of_balanced hb]; rfl
    exact absurd ⟨[], o.symbol, t, rfl, rfl, hd, hrank⟩ (hw 0 o.priority)
  | negation p q rank hw hd hp _ =>
    obtain rfl := hw.eq_nil hb hd hp
    exact absurd (List.cons.inj hs).1 ho
  | binary p c q rank hw hd hr hneg ihp _ =>
    rw [ofPiece_binary enclosing hw hneg]
    cases p with
    | nil =>
      rw [ofPiece_empty _ strip_nil]
      exact ⟨_, rfl⟩
    | cons d p =>
      obtain ⟨rfl, -⟩ := List.cons.inj hs
      obtain ⟨hbp, -⟩ := balanced_of_offers hb hd (isBracket_of_rank? hr)
      obtain ⟨f, hf⟩ := ihp (o.symbol :: p ++ c :: q) rfl hbp
      rw [hf]
      exact ⟨f, rfl⟩

/-! ## The shape of grown trees -/

/-- The trees that are grown from formulas: a leaf offers nothing, and a node is a negation or an
operator between two trees. The operator may be the character of the negation. -/
inductive Grown : Tree → Prop where
  | leaf {l : Text} (ne_nil : l ≠ []) (whole : ∀ i rank, ¬ Offers l i rank) : Grown (.leaf l)
  | negation {t : Tree} : Grown t → Grown (.unary negationLabel t)
  | binary (o : Operator) {l r : Tree} : Grown l → Grown r → Grown (.binary [o.symbol] l r)

/-- What is grown has the shape of a grown tree. -/
theorem grown_of_ofPiece {tree : Tree} (h : ofPiece t enclosing = .ok tree) : Grown tree := by
  induction t using piece_induction generalizing enclosing tree with
  | stripped t ih =>
    rw [← ofPiece_congr (strip_strip t)] at h
    exact ih enclosing h
  | empty =>
    rw [ofPiece_empty enclosing strip_nil] at h
    cases h
  | whole t hne hs ho =>
    rw [ofPiece_whole enclosing (hs.symm ▸ hne) (hs.symm ▸ ho), hs] at h
    cases h
    exact .leaf hne ho
  | negation p q rank hw _ hp ih =>
    rw [ofPiece_negation enclosing hw hp] at h
    obtain ⟨x, hx, rfl⟩ := map_eq_ok.mp h
    exact .negation (ih _ hx)
  | binary p c q rank hw _ hr hneg ihp ihq =>
    rw [ofPiece_binary enclosing hw hneg] at h
    obtain ⟨l, hl, h⟩ := bind_eq_ok.mp h
    obtain ⟨r, hr', rfl⟩ := map_eq_ok.mp h
    obtain ⟨o, ho⟩ := Option.isSome_iff_exists.mp (isSome_ofSymbol?_of_rank? hr)
    rw [← Operator.symbol_of_ofSymbol? ho]
    exact .binary o (ihp _ hl) (ihq _ hr')

end Tree

end Reckon

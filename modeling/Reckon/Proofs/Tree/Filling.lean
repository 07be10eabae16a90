import Reckon.Proofs.Split.Filling
import Reckon.Proofs.Tree.Piece

/-!
# The tree of a text with a group in brackets

When a group that grows into a tree is replaced by another one, the tree around it stays the same,
or growing fails before and after. Where the group is part of a text that cannot be cut, two
different leaves take its place, which are no literals because they contain a bracket.

## Main definitions

* `Tree.Filled x y t t'`: `t'` is `t` with `y` for one occurrence of `x`, or with another leaf that
  contains a bracket
* `Tree.Matched x y`: the same for the outcomes of growing

## Main results

* `matched_fill`: the trees around a group and around its replacement
-/

namespace Reckon

namespace Tree

open Brackets Nesting Split

/-- The tree `t'` has `y` where `t` has `x`, or a leaf with a bracket where `t` has one; everything
else is the same. -/
inductive Filled (x y : Tree) : Tree → Tree → Prop where
  | hole : Filled x y x y
  | same (t : Tree) : Filled x y t t
  | junk {l l' : Text} (bracket : '(' ∈ l) (bracket' : '(' ∈ l') : Filled x y (leaf l) (leaf l')
  | unary (label : Text) {r r' : Tree} : Filled x y r r' →
      Filled x y (unary label r) (unary label r')
  | binary (label : Text) {l l' r r' : Tree} : Filled x y l l' → Filled x y r r' →
      Filled x y (binary label l r) (binary label l' r')

/-- Two outcomes of growing: trees that differ by the replacement only, or failures. -/
inductive Matched (x y : Tree) : Except Failure Tree → Except Failure Tree → Prop where
  | ok {t t' : Tree} : Filled x y t t' → Matched x y (.ok t) (.ok t')
  | error (f f' : Failure) : Matched x y (.error f) (.error f')

namespace Matched

variable {x y : Tree} {o o' p p' : Except Failure Tree}

theorem same (x y : Tree) (text enclosing enclosing' : Text) :
    Matched x y (ofPiece text enclosing) (ofPiece text enclosing') := by
  cases h : ofPiece text enclosing with
  | ok t =>
    rw [ofPiece_eq_ok enclosing enclosing' h]
    exact .ok (.same t)
  | error f =>
    cases h' : ofPiece text enclosing' with
    | ok t =>
      rw [ofPiece_eq_ok enclosing' enclosing h'] at h
      cases h
    | error f' => exact .error f f'

theorem map_unary (label : Text) (h : Matched x y o o') :
    Matched x y (o.map (unary label)) (o'.map (unary label)) := by
  cases h with
  | ok ht => exact .ok (.unary label ht)
  | error f f' => exact .error f f'

theorem bind_binary (label : Text) (h : Matched x y o o') (hp : Matched x y p p') :
    Matched x y (o.bind fun l => p.map fun r => binary label l r)
      (o'.bind fun l => p'.map fun r => binary label l r) := by
  cases h with
  | ok hl =>
    cases hp with
    | ok hr => exact .ok (.binary label hl hr)
    | error f f' => exact .error f f'
  | error f f' => exact .error f f'

end Matched

/-! ## Replacing a group -/

variable {g g' : Text} {x y : Tree}

/-- After a group, no negation can be the weakest offer of a balanced text. -/
theorem not_negation_after_fill {s p q : Text} {c : Char} {rank : Nat}
    (hb : balanced (fill s p g ++ c :: q) = true)
    (hw : Weakest (fill s p g ++ c :: q) (fill s p g).length rank) :
    ¬ (c = '-' ∧ beginsOperand (fill s p g).getLast? = true) := by
  rintro ⟨rfl, hp⟩
  have := hw.eq_nil hb hw.offers.depthAfter_eq hp
  simp [fill] at this

/-- The trees around a group and around its replacement differ by the replacement only. -/
theorem matched_fill (hg : balanced g = true) (hg' : balanced g' = true)
    (hx : ∀ enclosing, ofPiece g enclosing = .ok x)
    (hy : ∀ enclosing, ofPiece g' enclosing = .ok y) (s t : Text) (hb : balanced (s ++ t) = true)
    (enclosing enclosing' : Text) :
    Matched x y (ofPiece (fill s t g) enclosing) (ofPiece (fill s t g') enclosing') := by
  induction hn : s.length + t.length using Nat.strongRecOn
    generalizing s t enclosing enclosing' with
  | ind n ih =>
    -- The group is stripped bare, and is the whole piece ...
    rcases strip_fill s t hb with hbare | ⟨s', t', hb', hle, hstrip⟩
    · rw [ofPiece_congr (hbare g hg), ofPiece_congr (hbare g' hg'), hx, hy]
      exact .ok .hole
    -- ... or stays in brackets within a stripped piece, which is cut.
    have hself : ∀ g, balanced g = true → strip (fill s' t' g) = fill s' t' g := fun g hg => by
      rw [← hstrip g hg, strip_strip]
    rw [ofPiece_congr ((hstrip g hg).trans (hself g hg).symm),
      ofPiece_congr ((hstrip g' hg').trans (hself g' hg').symm)]
    have hbalanced := (balanced_fill hg).trans hb'
    have hbalanced' := (balanced_fill hg').trans hb'
    rcases fill_cases s' t' hb' with hw | ⟨p, c, q, rank, rfl, hw⟩ | ⟨p, c, q, rank, rfl, hw⟩
    · have hleaf : ∀ g, balanced g = true → ∀ enclosing,
          ofPiece (fill s' t' g) enclosing = .ok (.leaf (fill s' t' g)) := by
        intro g hg enclosing
        have hne : fill s' t' g ≠ [] := List.ne_nil_of_mem (bracket_mem_fill s' t' g)
        rw [ofPiece_whole enclosing (by rwa [hself g hg]) (by rw [hself g hg]; exact hw g hg),
          hself g hg]
      rw [hleaf g hg, hleaf g' hg']
      exact .ok (.junk (bracket_mem_fill s' t' g) (bracket_mem_fill s' t' g'))
    · have hwg := hw g hg
      have hwg' := hw g' hg'
      rw [List.length_append, List.length_cons] at hle
      rw [fill_append_cons] at hwg hwg' hbalanced hbalanced' ⊢
      rw [fill_append_cons]
      have hr := hwg.offers.rank?_eq
      have hbq := (balanced_of_offers hbalanced hwg.offers.depthAfter_eq (isBracket_of_rank? hr)).2
      rw [balanced_fill hg] at hbq
      have hq := ih (q.length + t'.length) (by omega) q t' hbq (p ++ c :: fill q t' g)
        (p ++ c :: fill q t' g') rfl
      by_cases hneg : c = '-' ∧ beginsOperand p.getLast? = true
      · obtain ⟨rfl, hp⟩ := hneg
        rw [ofPiece_negation enclosing hwg hp, ofPiece_negation enclosing' hwg' hp]
        exact hq.map_unary negationLabel
      · rw [ofPiece_binary enclosing hwg hneg, ofPiece_binary enclosing' hwg' hneg]
        exact (Matched.same x y p _ _).bind_binary [c] hq
    · have hwg := hw g hg
      have hwg' := hw g' hg'
      rw [List.length_append, List.length_cons] at hle
      rw [fill_append] at hwg hwg' hbalanced hbalanced' ⊢
      rw [fill_append]
      have hr := hwg.offers.rank?_eq
      have hbp := (balanced_of_offers hbalanced hwg.offers.depthAfter_eq (isBracket_of_rank? hr)).1
      rw [balanced_fill hg] at hbp
      have hp := ih (s'.length + p.length) (by omega) s' p hbp (fill s' p g ++ c :: q)
        (fill s' p g' ++ c :: q) rfl
      rw [ofPiece_binary enclosing hwg (not_negation_after_fill hbalanced hwg),
        ofPiece_binary enclosing' hwg' (not_negation_after_fill hbalanced' hwg')]
      exact hp.bind_binary [c] (Matched.same x y q _ _)

/-- If growing fails around a group that grows into a tree, the group has been left in brackets. -/
theorem bracket_mem_strip_of_error (hg : balanced g = true)
    (hx : ∀ enclosing, ofPiece g enclosing = .ok x) {s t enclosing : Text}
    (hb : balanced (s ++ t) = true) {f : Failure}
    (h : ofPiece (fill s t g) enclosing = .error f) : '(' ∈ strip (fill s t g) := by
  rcases strip_fill s t hb with hbare | ⟨s', t', -, -, hstrip⟩
  · rw [ofPiece_congr (hbare g hg), hx] at h
    cases h
  · rw [hstrip g hg]
    exact bracket_mem_fill s' t' g

end Tree

end Reckon

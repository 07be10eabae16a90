import Mathlib
import Reckon.Proofs.Sentence.Derivation
import Reckon.Proofs.Tree.Course

/-!
# The places of the pieces

All the pieces that are taken while a formula grows are cut out of its folded text. Cutting and
stripping leave the character before a piece behind, by which the role of a minus at its start is
told. But a piece follows an operator or an opening bracket, or begins with the text, so the minus
negates in the piece exactly if it negates in the text.

## Main definitions

* `Tree.Excerpt t i u`: growing the text `t` comes to the part `u` of it, which stands at the place
  `i`

## Main results

* `exists_excerpt_of_takes`: all pieces are cut out of the folded text
* `Excerpt.exists_append`: a piece stands where an operand may begin
* `Excerpt.isNegation_eq`: a minus of a piece has the role that it has in the text
* `cutting_keeps_roles`: the role of a minus is that in the whole text, and in any derivation of it
-/

namespace Reckon

namespace Tree

open Brackets Split

/-- The parts of a text that growing it comes to, each with the place at which it stands: the text
itself, what a pair of brackets encloses, and what stands behind or before a place to split. What
stands before a negation is not an operand. -/
inductive Excerpt (t : Text) : (i : Nat) → (u : Text) → Prop where
  | whole : Excerpt t 0 t
  | inner {i : Nat} {u : Text} (enclosed : enclosed u = true) :
      Excerpt t i u → Excerpt t (i + 1) (inner u)
  | right {i k : Nat} {u : Text} (split : index? u = some k) :
      Excerpt t i u → Excerpt t (i + (k + 1)) (u.drop (k + 1))
  | left {i k : Nat} {u : Text} (split : index? u = some k) (binary : isNegation u k = false) :
      Excerpt t i u → Excerpt t i (u.take k)

variable {t u : Text} {i : Nat}

/-- What a part is stripped to is a part as well, which stands behind the brackets. -/
theorem Excerpt.exists_strip (h : Excerpt t i u) : ∃ j, Excerpt t (i + j) (strip u) := by
  refine strip_of (P := fun s => ∃ j, Excerpt t (i + j) s) ?_ ⟨0, h⟩
  rintro g hg ⟨j, hj⟩
  have hinner := hj.inner (enclosed_iff.mpr ⟨g, hg, rfl⟩)
  rw [inner_bracketed] at hinner
  exact ⟨j + 1, hinner⟩

/-- All pieces that are taken are cut out of the folded text. -/
theorem exists_excerpt_of_takes {f : Text} {p : Piece} (h : Takes f p) :
    ∃ i, Excerpt (Surface.fold f) i p.text := by
  refine takes_induction (P := fun u => ∃ i, Excerpt (Surface.fold f) i u) ?root ?right ?left h
  case root =>
    obtain ⟨j, hj⟩ := Excerpt.whole.exists_strip
    exact ⟨_, hj⟩
  case right =>
    rintro u k ⟨i, hu⟩ hk
    obtain ⟨j, hj⟩ := hu.exists_strip
    exact ⟨_, hj.right hk⟩
  case left =>
    rintro u k ⟨i, hu⟩ hk hneg
    obtain ⟨j, hj⟩ := hu.exists_strip
    exact ⟨_, hj.left hk hneg⟩

/-- A part that growing comes to stands where an operand may begin. -/
theorem Excerpt.exists_append (h : Excerpt t i u) :
    ∃ a b, t = a ++ (u ++ b) ∧ a.length = i ∧ beginsOperand a.getLast? = true := by
  induction h with
  | whole => exact ⟨[], [], by simp, rfl, rfl⟩
  | inner he _ ih =>
    obtain ⟨a, b, rfl, rfl, -⟩ := ih
    obtain ⟨g, -, rfl⟩ := enclosed_iff.mp he
    refine ⟨a ++ ['('], ')' :: b, by simp, by simp, ?_⟩
    rw [List.getLast?_concat]
    rfl
  | right hk _ ih =>
    obtain ⟨a, b, rfl, rfl, -⟩ := ih
    obtain ⟨p, c, q, rank, rfl, rfl, -, -, hr⟩ := exists_of_index? hk
    refine ⟨a ++ (p ++ [c]), b, by simp, by simp, ?_⟩
    -- an operand may begin after every operator, also after one that negates
    rw [← List.append_assoc, List.getLast?_concat, beginsOperand, isSome_ofSymbol?_of_rank? hr,
      Bool.true_or]
  | left hk _ _ ih =>
    obtain ⟨a, b, rfl, rfl, ha⟩ := ih
    obtain ⟨p, c, q, rank, rfl, rfl, -⟩ := exists_of_index? hk
    exact ⟨a, c :: q ++ b, by simp, rfl, ha⟩

/-- A minus of a part has the role that it has in the text. -/
theorem Excerpt.isNegation_eq (h : Excerpt t i u) {k : Nat} (hk : k < u.length) :
    isNegation u k = isNegation t (i + k) := by
  obtain ⟨a, b, rfl, rfl, ha⟩ := h.exists_append
  exact (isNegation_part ha hk b).symm

/-- **Cutting keeps the role of a minus.** All pieces that are taken while a formula grows, in their
brackets and stripped of them, are cut out of the folded text, and a minus negates in such a part
exactly if it negates at its place in the text. If the folded text is a sentence, it negates exactly
if an operand begins with it, in any derivation. -/
theorem cutting_keeps_roles (f : Text) :
    (∀ p, Takes f p → ∃ i j,
      Excerpt (Surface.fold f) i p.text ∧ Excerpt (Surface.fold f) (i + j) (strip p.text)) ∧
    (∀ i u, Excerpt (Surface.fold f) i u →
      (∃ a b, Surface.fold f = a ++ (u ++ b) ∧ a.length = i) ∧
      ∀ k < u.length, isNegation u k = isNegation (Surface.fold f) (i + k)) ∧
    (Sentence (Surface.fold f) →
      Nonempty (Derivation (Surface.fold f)) ∧
      ∀ (d : Derivation (Surface.fold f)) (i : Nat), (Surface.fold f)[i]? = some '-' →
        (isNegation (Surface.fold f) i = true ↔ d.Begins i)) := by
  refine ⟨fun p hp => ?_, fun i u h => ?_, fun hs => ?_⟩
  · obtain ⟨i, h⟩ := exists_excerpt_of_takes hp
    obtain ⟨j, hj⟩ := h.exists_strip
    exact ⟨i, j, h, hj⟩
  · obtain ⟨a, b, ht, hi, -⟩ := h.exists_append
    exact ⟨⟨a, b, ht, hi⟩, fun k hk => h.isNegation_eq hk⟩
  · exact ⟨nonempty_derivation_iff.mpr hs, fun d i => d.isNegation_iff⟩

/-- The left factor is a difference in brackets. Its first minus subtracts and its second one
negates, in the factor as in the product. -/
theorem cutting_keeps_roles_difference :
    let f := ['(', '2', ' ', '-', ' ', '(', '-', '3', ')', ')', '*', '4']
    let t := ['(', '2', '-', '(', '-', '3', ')', ')', '*', '4']
    let p : Piece := ⟨['(', '2', '-', '(', '-', '3', ')', ')'], t⟩
    let u := ['2', '-', '(', '-', '3', ')']
    (Surface.fold f = t ∧ Takes f p ∧ Excerpt t 1 u ∧ Sentence t ∧ t[2]? = some '-' ∧
        t[4]? = some '-') ∧
      (∃ i j, Excerpt t i p.text ∧ Excerpt t (i + j) (strip p.text)) ∧
      (∃ a b, t = a ++ (u ++ b) ∧ a.length = 1) ∧
      isNegation u 1 = isNegation t 2 ∧ isNegation u 3 = isNegation t 4 ∧
      ∃ d : Derivation t, ¬ d.Begins 2 ∧ d.Begins 4 := by
  intro f t p u
  have hfold : Surface.fold f = t := by decide
  have hsplit : index? t = some 8 := by decide
  have hp : Takes f p := by
    have hf : strip (normalize f) = t := by cbv
    have hlt : p.text.length + ['4'].length < (strip (normalize f)).length := by
      rw [hf]
      decide
    have hcut : cut (strip (normalize f)) = .binary '*' p.text ['4'] hlt := by cbv
    have hleft : Takes f ⟨p.text, strip (normalize f)⟩ := ⟨_, .single (.binary hcut)⟩
    rwa [hf] at hleft
  have hu : Excerpt t 1 u := .inner (by decide) (.left hsplit (by decide) .whole)
  have hs : Sentence t := by
    have htwo : Sentence ['2'] := .literal (by decide)
    have hthree : Sentence ['3'] := .literal (by decide)
    have hfour : Sentence ['4'] := .literal (by decide)
    have hdifference : Sentence u := .binary .subtract htwo hthree.negation.bracket
    exact .binary .multiply hdifference.bracket hfour
  obtain ⟨hpieces, hroles, hderivation⟩ := cutting_keeps_roles f
  rw [hfold] at hpieces hroles hderivation
  obtain ⟨⟨d⟩, hd⟩ := hderivation hs
  obtain ⟨hplace, hsame⟩ := hroles 1 u hu
  refine ⟨⟨hfold, hp, hu, hs, rfl, rfl⟩, hpieces p hp, hplace, ?_⟩
  refine ⟨hsame 1 (by decide), hsame 3 (by decide), d, ?_, (hd d 4 rfl).mp (by decide)⟩
  exact fun h => absurd ((hd d 2 rfl).mpr h) (by decide)

end Tree

end Reckon

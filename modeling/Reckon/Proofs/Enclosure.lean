import Reckon.Brackets
import Reckon.Proofs.Nesting.Balance

/-!
# Enclosing brackets and balance

A pair of brackets encloses a text exactly when the text between them is balanced. So stripping
goes from a balanced text in brackets to the balanced text inside, and what holds of a text may be
carried inwards or outwards one pair at a time.

## Main definitions

* `Brackets.bracketed k t`: a text in `k` pairs of brackets

## Main results

* `enclosed_iff`: the enclosed texts are the balanced texts in brackets
* `strip_bracketed`, `strip_pairs`: brackets around a balanced text are stripped
* `of_strip`, `strip_of`: properties are carried through stripping
* `balanced_strip_eq`: stripping neither makes nor breaks balance
-/

namespace Reckon

namespace Brackets

open Nesting

theorem dropPointFrom_of_above {d : Int} {g : Text} (h : Above d g) (hd : depthAfter d g = 0)
    (i : Nat) (t : Text) : dropPointFrom (d + 1) i (g ++ ')' :: t) = i + g.length := by
  induction g generalizing d i with
  | nil =>
    rw [depthAfter_nil] at hd
    simp [dropPointFrom, hd]
  | cons c g ih =>
    have := h.2.nonneg
    rw [List.cons_append, dropPointFrom, deepen_add_one, if_neg (by omega), ih h.2 hd,
      List.length_cons]
    omega

theorem above_of_dropPointFrom {d : Int} {g t : Text} (hd : 0 ≤ d) {i : Nat}
    (h : dropPointFrom (d + 1) i (g ++ t) = i + g.length) : Above d g := by
  induction g generalizing d i with
  | nil => exact hd
  | cons c g ih =>
    rw [List.cons_append, dropPointFrom, deepen_add_one, List.length_cons] at h
    split at h
    · omega
    · exact ⟨hd, ih (i := i + 1) (by omega) (by omega)⟩

@[simp] theorem inner_bracketed (g : Text) : inner ('(' :: (g ++ [')'])) = g := by
  simp [inner]

/-- A text that opens and ends with brackets has the rest of it between them. -/
theorem exists_bracketed {t : Text} (ho : t.head? = some '(') (hc : t.getLast? = some ')') :
    ∃ g, t = '(' :: (g ++ [')']) := by
  obtain ⟨c, t, rfl⟩ := List.exists_cons_of_ne_nil (fun h => by simp [h] at ho : t ≠ [])
  obtain rfl : c = '(' := by simpa using ho
  rcases List.eq_nil_or_concat t with rfl | ⟨g, c, rfl⟩
  · simp at hc
  · rw [List.concat_eq_append] at hc ⊢
    obtain rfl : c = ')' := by simpa [List.getLast?_cons] using hc
    exact ⟨g, rfl⟩

theorem balanced_of_dropPoint {g : Text} (hb : balanced ('(' :: (g ++ [')'])) = true)
    (hd : dropPoint ('(' :: (g ++ [')'])) = g.length + 1) : balanced g = true := by
  have hdepth : depthAfter 0 ('(' :: (g ++ [')'])) = depthAfter 0 g := by
    rw [depthAfter_group, depthAfter_nil, Int.add_zero]
  rw [dropPoint, dropPointFrom, if_neg (by simp)] at hd
  refine balanced_iff.mpr ⟨above_of_dropPointFrom (i := 1) (t := [')']) (Int.le_refl 0) ?_, ?_⟩
  · exact hd.trans (Nat.add_comm _ _)
  · rw [← hdepth]
    exact depthAfter_of_balanced hb

/-- The enclosed texts are the balanced texts in brackets. -/
theorem enclosed_iff {t : Text} :
    enclosed t = true ↔ ∃ g, balanced g = true ∧ t = '(' :: (g ++ [')']) := by
  constructor
  -- an enclosed text opens and ends with brackets, and only the last one closes the first
  · intro h
    simp only [enclosed, Bool.and_eq_true, beq_iff_eq] at h
    obtain ⟨⟨⟨ho, hc⟩, hb⟩, hd⟩ := h
    obtain ⟨g, rfl⟩ := exists_bracketed ho hc
    exact ⟨g, balanced_of_dropPoint hb (by simpa using hd), rfl⟩
  -- inside a balanced text no bracket closes the first one, so the drop is at the end
  · rintro ⟨g, hg, rfl⟩
    obtain ⟨ha, hd⟩ := balanced_iff.mp hg
    have hdrop : dropPoint ('(' :: (g ++ [')'])) = 1 + g.length := by
      rw [dropPoint, dropPointFrom, if_neg (by simp)]
      exact dropPointFrom_of_above ha hd 1 []
    simp [enclosed, balanced_bracketed hg, hdrop, List.getLast?_cons, Nat.add_comm]

/-- A pair of brackets around a balanced text is stripped. -/
theorem strip_bracketed {g : Text} (h : balanced g = true) :
    strip ('(' :: (g ++ [')'])) = strip g := by
  rw [strip_of_enclosed (enclosed_iff.mpr ⟨g, h, rfl⟩), inner_bracketed]

/-- What holds of a stripped text, and is kept by putting brackets around a balanced text, holds of
the text. -/
theorem of_strip {P : Text → Prop} (hP : ∀ g, balanced g = true → P g → P ('(' :: (g ++ [')'])))
    {t : Text} (h : P (strip t)) : P t := by
  fun_induction strip t with
  | case1 t he _ ih =>
    obtain ⟨g, hg, rfl⟩ := enclosed_iff.mp he
    rw [inner_bracketed] at ih h
    exact hP g hg (ih h)
  | case2 t he => exact h

/-- What holds of a text, and is kept by taking brackets from around a balanced text, holds of the
stripped text. -/
theorem strip_of {P : Text → Prop} (hP : ∀ g, balanced g = true → P ('(' :: (g ++ [')'])) → P g)
    {t : Text} (h : P t) : P (strip t) := by
  fun_induction strip t with
  | case1 t he _ ih =>
    obtain ⟨g, hg, rfl⟩ := enclosed_iff.mp he
    rw [inner_bracketed] at ih ⊢
    exact ih (hP g hg h)
  | case2 t he => exact h

@[simp] theorem strip_nil : strip [] = [] := strip_of_not_enclosed (by decide)

@[simp] theorem strip_strip (t : Text) : strip (strip t) = strip t :=
  strip_of_not_enclosed (not_enclosed_strip t)

theorem balanced_strip {t : Text} (h : balanced t = true) : balanced (strip t) = true :=
  strip_of (P := fun t => balanced t = true) (fun _ hg _ => hg) h

/-- A stripped text is balanced exactly if the text is. -/
theorem balanced_strip_eq (t : Text) : balanced (strip t) = balanced t := by
  refine Bool.eq_iff_iff.mpr ⟨fun h => ?_, balanced_strip⟩
  exact of_strip (P := fun t => balanced t = true) (fun _ hg _ => balanced_bracketed hg) h

/-- A text that is not balanced has no enclosing brackets. -/
theorem strip_of_not_balanced {t : Text} (h : balanced t = false) : strip t = t := by
  refine strip_of_not_enclosed fun he => ?_
  obtain ⟨g, hg, rfl⟩ := enclosed_iff.mp he
  rw [balanced_bracketed hg] at h
  cases h

theorem isInfix_strip (t : Text) : strip t <:+: t :=
  strip_of (P := fun s => s <:+: t) (fun g _ hg => (List.infix_append ['('] g [')']).trans hg)
    (List.infix_refl t)

/-! ## Pairs of brackets -/

/-- A text in pairs of brackets. -/
def bracketed (k : Nat) (t : Text) : Text := List.replicate k '(' ++ (t ++ List.replicate k ')')

theorem bracketed_zero (t : Text) : bracketed 0 t = t := List.append_nil t

theorem bracketed_succ (k : Nat) (t : Text) :
    bracketed (k + 1) t = '(' :: (bracketed k t ++ [')']) := by
  rw [bracketed, bracketed, List.replicate_succ, List.replicate_succ']
  simp

/-- Pairs of brackets around a balanced text are stripped. -/
theorem strip_pairs {g : Text} (h : balanced g = true) (k : Nat) :
    strip (bracketed k g) = strip g := by
  have hall : balanced (bracketed k g) = true ∧ strip (bracketed k g) = strip g := by
    induction k with
    | zero =>
      rw [bracketed_zero]
      exact ⟨h, rfl⟩
    | succ k ih =>
      rw [bracketed_succ, strip_bracketed ih.1]
      exact ⟨balanced_bracketed ih.1, ih.2⟩
  exact hall.2

end Brackets

end Reckon

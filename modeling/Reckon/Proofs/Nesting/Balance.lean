import Reckon.Nesting

/-!
# Depth and balance

The depth is additive: reading a text adds its own depth to the one before. A text is balanced when
its depth, read from zero, never turns negative and ends at zero, so a balanced text may be cut
wherever its depth is zero, and a balanced group in brackets may be put in or left out anywhere.

## Main definitions

* `Nesting.Above d t`: the depth of a text that is read from `d` never turns negative
* `Nesting.isBracket`: the two characters on which depth and balance depend

## Main results

* `balanced_append_iff`: a cut at depth zero parts a balanced text into balanced texts
* `balanced_group`: a balanced group in brackets does not matter for the balance around it
* `balanced_filter`: only the brackets of a text matter for its balance
-/

namespace Reckon

namespace Nesting

/-! ## Depth -/

@[simp] theorem deepen_open (d : Int) : deepen d '(' = d + 1 := rfl

@[simp] theorem deepen_close (d : Int) : deepen d ')' = d - 1 := rfl

/-- The characters on which depth and balance depend. -/
def isBracket (c : Char) : Bool := c == '(' || c == ')'

theorem deepen_of_not_isBracket {c : Char} (h : isBracket c = false) (d : Int) :
    deepen d c = d := by
  obtain ⟨ho, hc⟩ : c ≠ '(' ∧ c ≠ ')' := by simpa [isBracket] using h
  simp [deepen, ho, hc]

theorem deepen_eq_add (d : Int) (c : Char) : deepen d c = d + deepen 0 c := by
  unfold deepen
  split
  · omega
  · split <;> omega

theorem deepen_add_one (d : Int) (c : Char) : deepen (d + 1) c = deepen d c + 1 := by
  rw [deepen_eq_add d, deepen_eq_add (d + 1)]
  omega

theorem eq_open_of_deepen {c : Char} (h : 1 ≤ deepen 0 c) : c = '(' := by
  unfold deepen at h
  split at h
  · assumption
  · split at h <;> omega

theorem eq_close_of_deepen {c : Char} (h : deepen 0 c ≤ -1) : c = ')' := by
  unfold deepen at h
  split at h
  · omega
  · split at h
    · assumption
    · omega

@[simp] theorem depthAfter_nil (d : Int) : depthAfter d [] = d := rfl

@[simp] theorem depthAfter_cons (d : Int) (c : Char) (t : Text) :
    depthAfter d (c :: t) = depthAfter (deepen d c) t := rfl

theorem depthAfter_eq_add (d : Int) (t : Text) : depthAfter d t = d + depthAfter 0 t := by
  induction t generalizing d with
  | nil => simp
  | cons c t ih =>
    rw [depthAfter_cons, depthAfter_cons, ih (deepen d c), ih (deepen 0 c), deepen_eq_add d c]
    omega

theorem depthAfter_zero_append (s t : Text) :
    depthAfter 0 (s ++ t) = depthAfter 0 s + depthAfter 0 t := by
  rw [depthAfter_append, depthAfter_eq_add]

/-- A group in brackets adds as much to the depth as its content. -/
theorem depthAfter_group (g t : Text) :
    depthAfter 0 ('(' :: (g ++ ')' :: t)) = depthAfter 0 g + depthAfter 0 t := by
  rw [depthAfter_cons, depthAfter_append, depthAfter_cons, deepen_open, deepen_close,
    depthAfter_eq_add _ t, depthAfter_eq_add _ g]
  omega

/-- The depth at the end is the number of brackets opened less the number closed. -/
theorem depthAfter_zero_eq_count (t : Text) :
    depthAfter 0 t = (t.count '(' : Int) - t.count ')' := by
  induction t with
  | nil => rfl
  | cons c t ih =>
    rw [depthAfter_cons, depthAfter_eq_add, ih, deepen, List.count_cons, List.count_cons]
    split
    · rename_i h
      subst h
      simp
      omega
    · split
      · rename_i h
        subst h
        simp
        omega
      · rename_i ho hc
        simp [ho, hc]

/-- A character changes the depth by at most one. -/
theorem depthAfter_take_add (t : Text) (m j : Nat) :
    depthAfter 0 (t.take (m + j)) ≤ depthAfter 0 (t.take m) + j ∧
      depthAfter 0 (t.take m) ≤ depthAfter 0 (t.take (m + j)) + j := by
  rw [List.take_add, depthAfter_zero_append, depthAfter_zero_eq_count ((t.drop m).take j)]
  have hlength : ((t.drop m).take j).length ≤ j := List.length_take_le ..
  have hopen : ((t.drop m).take j).count '(' ≤ ((t.drop m).take j).length := List.count_le_length
  have hclose : ((t.drop m).take j).count ')' ≤ ((t.drop m).take j).length := List.count_le_length
  omega

/-! ## Texts that stay at or above zero -/

/-- The depth of a text that is read from `d` never turns negative. -/
def Above : (d : Int) → Text → Prop
  | d, [] => 0 ≤ d
  | d, c :: t => 0 ≤ d ∧ Above (deepen d c) t

@[simp] theorem above_nil {d : Int} : Above d [] ↔ 0 ≤ d := Iff.rfl

@[simp] theorem above_cons {d : Int} {c : Char} {t : Text} :
    Above d (c :: t) ↔ 0 ≤ d ∧ Above (deepen d c) t := Iff.rfl

theorem Above.nonneg {d : Int} {t : Text} (h : Above d t) : 0 ≤ d := by
  cases t with
  | nil => exact h
  | cons c t => exact h.1

theorem above_append {d : Int} {s t : Text} :
    Above d (s ++ t) ↔ Above d s ∧ Above (depthAfter d s) t := by
  induction s generalizing d with
  | nil => exact ⟨fun h => ⟨h.nonneg, h⟩, fun h => h.2⟩
  | cons c s ih => simp only [List.cons_append, above_cons, ih, depthAfter_cons, and_assoc]

theorem Above.depthAfter_nonneg {d : Int} {t : Text} (h : Above d t) : 0 ≤ depthAfter d t :=
  (above_append.mp (by rwa [List.append_nil] : Above d (t ++ []))).2

/-- The depth never turns negative if it is not negative after any part from the start. -/
theorem above_iff_forall_take {d : Int} {t : Text} :
    Above d t ↔ ∀ m, 0 ≤ depthAfter d (t.take m) := by
  constructor
  · intro h m
    rw [← List.take_append_drop m t] at h
    exact (above_append.mp h).1.depthAfter_nonneg
  · intro h
    induction t generalizing d with
    | nil => exact h 0
    | cons c t ih => exact ⟨h 0, ih fun m => h (m + 1)⟩

theorem Above.mono {d e : Int} {t : Text} (h : Above d t) (hde : d ≤ e) : Above e t := by
  induction t generalizing d e with
  | nil => exact Int.le_trans h hde
  | cons c t ih =>
    refine ⟨Int.le_trans h.1 hde, ih h.2 ?_⟩
    rw [deepen_eq_add d, deepen_eq_add e]
    omega

/-! ## Balance -/

theorem balancedFrom_iff {d : Int} {t : Text} (hd : 0 ≤ d) :
    balancedFrom d t = true ↔ Above d t ∧ depthAfter d t = 0 := by
  induction t generalizing d with
  | nil =>
    simp only [balancedFrom, beq_iff_eq, above_nil, depthAfter_nil]
    omega
  | cons c t ih =>
    simp only [balancedFrom, above_cons, depthAfter_cons]
    split
    · refine ⟨fun h => absurd h (by simp), fun h => ?_⟩
      have := h.1.2.nonneg
      omega
    · rw [ih (by omega)]
      simp [hd]

theorem balanced_iff {t : Text} : balanced t = true ↔ Above 0 t ∧ depthAfter 0 t = 0 :=
  balancedFrom_iff (Int.le_refl 0)

theorem depthAfter_of_balanced {t : Text} (h : balanced t = true) : depthAfter 0 t = 0 :=
  (balanced_iff.mp h).2

/-- A cut at depth zero parts a balanced text into balanced texts. -/
theorem balanced_append_iff {s t : Text} (h : depthAfter 0 s = 0) :
    balanced (s ++ t) = true ↔ balanced s = true ∧ balanced t = true := by
  rw [balanced_iff, balanced_iff, balanced_iff, above_append, depthAfter_zero_append, h]
  constructor
  · rintro ⟨⟨hs, ht⟩, hd⟩
    exact ⟨⟨hs, rfl⟩, ht, by omega⟩
  · rintro ⟨⟨hs, -⟩, ht, hd⟩
    exact ⟨⟨hs, ht⟩, by omega⟩

/-- A balanced group in brackets does not matter for the balance of the text around it. -/
theorem balanced_group {g : Text} (h : balanced g = true) (s t : Text) :
    balanced (s ++ '(' :: (g ++ ')' :: t)) = balanced (s ++ t) := by
  obtain ⟨hg, hd⟩ := balanced_iff.mp h
  -- The end has the same depth with and without the group.
  have hdepth : depthAfter 0 (s ++ '(' :: (g ++ ')' :: t)) = depthAfter 0 (s ++ t) := by
    rw [depthAfter_zero_append, depthAfter_zero_append, depthAfter_group, hd, Int.zero_add]
  rw [Bool.eq_iff_iff, balanced_iff, balanced_iff, hdepth, above_append, above_append]
  -- The group leaves the depth as it is, and one deeper than around it never turns negative.
  have hg' : depthAfter (depthAfter 0 s + 1) g = depthAfter 0 s + 1 := by
    rw [depthAfter_eq_add, hd, Int.add_zero]
  simp only [above_cons, above_append, deepen_open, deepen_close, hg']
  constructor
  · rintro ⟨⟨hs, -, -, -, ht⟩, he⟩
    exact ⟨⟨hs, ht.mono (by omega)⟩, he⟩
  · rintro ⟨⟨hs, ht⟩, he⟩
    have := ht.nonneg
    exact ⟨⟨hs, this, hg.mono (by omega), by omega, ht.mono (by omega)⟩, he⟩

theorem balanced_bracketed {g : Text} (h : balanced g = true) :
    balanced ('(' :: (g ++ [')'])) = true := balanced_group h [] []

/-- A text without brackets is balanced. -/
theorem balanced_of_not_isBracket {t : Text} (h : ∀ c ∈ t, isBracket c = false) :
    balanced t = true := by
  rw [balanced_iff]
  induction t with
  | nil => exact ⟨Int.le_refl 0, rfl⟩
  | cons c t ih =>
    have hc := deepen_of_not_isBracket (h c (by simp)) 0
    obtain ⟨ha, hd⟩ := ih fun c hc => h c (List.mem_cons_of_mem _ hc)
    exact ⟨⟨Int.le_refl 0, by rwa [hc]⟩, by rwa [depthAfter_cons, hc]⟩

theorem balancedFrom_filter {d : Int} (hd : 0 ≤ d) (t : Text) :
    balancedFrom d (t.filter isBracket) = balancedFrom d t := by
  induction t generalizing d with
  | nil => rfl
  | cons c t ih =>
    by_cases hc : isBracket c = true
    · rw [List.filter_cons_of_pos hc, balancedFrom, balancedFrom]
      split
      · rfl
      · exact ih (by omega)
    · have hc' := deepen_of_not_isBracket (Bool.eq_false_iff.mpr hc) d
      rw [List.filter_cons_of_neg hc, balancedFrom, hc', if_neg (by omega)]
      exact ih hd

/-- Only the brackets of a text matter for its balance. -/
theorem balanced_filter (t : Text) : balanced (t.filter isBracket) = balanced t :=
  balancedFrom_filter (Int.le_refl 0) t

end Nesting

end Reckon

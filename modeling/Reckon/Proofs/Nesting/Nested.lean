import Reckon.Proofs.Enclosure

/-!
# The grammar of balanced texts

The scan for balance counts the open brackets and looks at nothing else, yet it accepts exactly the
texts of a grammar: a character that is no bracket, or a group in brackets, before another such
text. A balanced text that begins with a bracket begins with one group only, and the drop point of
the text is where that group ends.

## Main definitions

* `Nesting.Nested`: the texts of the grammar
* `Nesting.Group t g s`: the text `t` is the group of `g` in brackets, followed by `s`

## Main results

* `exists_closed`: a text that ends as many brackets as are open has a place where the last of them
  ends
* `balanced_iff_nested`: the balanced texts are those of the grammar
* `Group.dropPoint_eq`, `Group.unique`: the drop point is the end of the group, so there is one
  group only
* `depth_recognizes_nesting`: what counting the open brackets tells of the nesting
-/

namespace Reckon

namespace Nesting

variable {t g s : Text}

/-- The nested texts: every opening bracket has a partner, and between the two there is a nested
text. -/
inductive Nested : Text → Prop where
  | nil : Nested []
  | plain {c : Char} {t : Text} (plain : isBracket c = false) : Nested t → Nested (c :: t)
  | group {g t : Text} : Nested g → Nested t → Nested ('(' :: (g ++ ')' :: t))

/-! ## Balance -/

/-- If `d + 1` brackets are open before a text that ends all of them, there is a place in it where
the last one ends, and what follows that place is balanced. -/
theorem exists_closed {d : Int} (hd : 0 ≤ d) (h : balancedFrom (d + 1) t = true) :
    ∃ g s, t = g ++ ')' :: s ∧ Above d g ∧ depthAfter d g = 0 ∧ balanced s = true := by
  -- by induction on the text for all depths: every character leads to the depth of the rest
  induction t generalizing d with
  | nil =>
    rw [balancedFrom, beq_iff_eq] at h
    omega
  | cons c t ih =>
    rw [balancedFrom, deepen_add_one] at h
    split at h
    · cases h
    by_cases hclose : deepen d c < 0
    · have hle : deepen 0 c ≤ -1 := by
        rw [deepen_eq_add] at hclose
        omega
      obtain rfl := eq_close_of_deepen hle
      rw [deepen_close] at hclose h
      obtain rfl : d = 0 := by omega
      exact ⟨[], t, rfl, Int.le_refl 0, rfl, h⟩
    · obtain ⟨g, s, rfl, ha, hend, hs⟩ := ih (by omega) h
      exact ⟨c :: g, s, rfl, ⟨hd, ha⟩, hend, hs⟩

theorem balanced_cons_of_not_isBracket {c : Char} (hc : isBracket c = false) :
    balanced (c :: t) = balanced t := by
  rw [balanced, balancedFrom, deepen_of_not_isBracket hc]
  rfl

theorem Nested.balanced (h : Nested t) : balanced t = true := by
  induction h with
  | nil => rfl
  | plain hc _ ih => rwa [balanced_cons_of_not_isBracket hc]
  | @group g t _ _ ihg iht => exact (balanced_group ihg [] t).trans iht

/-- A text begins with the group of `g` in brackets, and `s` follows it; both are balanced. -/
structure Group (t g s : Text) : Prop where
  inside : balanced g = true
  after : balanced s = true
  eq : t = '(' :: (g ++ ')' :: s)

/-- A balanced text that begins with a bracket begins with a group. -/
theorem exists_group (hb : balanced t = true) (ho : t.head? = some '(') : ∃ g s, Group t g s := by
  obtain ⟨t, rfl⟩ := List.head?_eq_some_iff.mp ho
  obtain ⟨g, s, rfl, ha, hd, hs⟩ := exists_closed (Int.le_refl 0) hb
  exact ⟨g, s, balanced_iff.mpr ⟨ha, hd⟩, hs, rfl⟩

theorem nested_of_balanced (h : balanced t = true) : Nested t := by
  -- by induction on the length, as both the group and what follows it are shorter
  induction hn : t.length using Nat.strongRecOn generalizing t with
  | ind n ih =>
    cases t with
    | nil => exact .nil
    | cons c t =>
      by_cases hc : isBracket c = true
      · obtain rfl | rfl : c = '(' ∨ c = ')' := by simpa [isBracket] using hc
        · obtain ⟨g, s, hg, hs, he⟩ := exists_group h rfl
          rw [he] at hn ⊢
          simp only [List.length_cons, List.length_append] at hn
          exact .group (ih g.length (by omega) hg rfl) (ih s.length (by omega) hs rfl)
        · cases h
      · rw [Bool.not_eq_true] at hc
        rw [balanced_cons_of_not_isBracket hc] at h
        rw [List.length_cons] at hn
        exact .plain hc (ih t.length (by omega) h rfl)

/-- The balanced texts are those of the grammar. -/
theorem balanced_iff_nested : balanced t = true ↔ Nested t := ⟨nested_of_balanced, Nested.balanced⟩

/-! ## The drop point -/

/-- The drop point is the end of the group that a text begins with. -/
theorem Group.dropPoint_eq (h : Group t g s) : dropPoint t = 1 + g.length := by
  obtain ⟨hg, -, rfl⟩ := h
  obtain ⟨ha, hd⟩ := balanced_iff.mp hg
  rw [dropPoint, dropPointFrom, if_neg (by simp)]
  exact Brackets.dropPointFrom_of_above ha hd 1 s

/-- A text begins with one group at most. -/
theorem Group.unique {g' s' : Text} (h : Group t g s) (h' : Group t g' s') : g' = g ∧ s' = s := by
  have hlength : g'.length = g.length := by
    have := h.dropPoint_eq
    have := h'.dropPoint_eq
    omega
  have he := h'.eq
  rw [h.eq, List.cons.injEq] at he
  obtain ⟨hg, hs⟩ := List.append_inj he.2.symm hlength
  exact ⟨hg, (List.cons.inj hs).2⟩

/-- The depth takes a character for every step, so it does not get below zero without being zero. -/
theorem dropPointFrom_of_ne_zero {d : Int} (hd : 0 < d)
    (h : ∀ m < t.length, depthAfter d (t.take (m + 1)) ≠ 0) (i : Nat) :
    dropPointFrom d i t = i + t.length := by
  induction t generalizing d i with
  | nil => rfl
  | cons c t ih =>
    have hne : deepen d c ≠ 0 := h 0 (Nat.zero_lt_succ _)
    have hge : d - 1 ≤ deepen d c := by
      unfold deepen
      split
      · omega
      · split <;> omega
    rw [dropPointFrom, if_neg (by omega), ih (by omega), List.length_cons]
    · omega
    · intro m hm
      exact h (m + 1) (Nat.succ_lt_succ hm)

/-- A text that begins with a bracket and never gets back to depth zero has no drop point. -/
theorem dropPoint_of_ne_zero (ho : t.head? = some '(')
    (h : ∀ m < t.length, depthAfter 0 (t.take (m + 1)) ≠ 0) : dropPoint t = t.length := by
  obtain ⟨t, rfl⟩ := List.head?_eq_some_iff.mp ho
  rw [dropPoint, dropPointFrom, if_neg (by simp), List.length_cons, Nat.add_comm t.length]
  refine dropPointFrom_of_ne_zero (by decide) (fun m hm => ?_) 1
  exact h (m + 1) (Nat.succ_lt_succ hm)

/-- **Counting the open brackets recognizes the nesting.** A text is balanced exactly if it is
nested. A balanced text that begins with a bracket is, in one way only, a balanced text in brackets
before another balanced text, and its drop point is the partner of the first bracket. If a text
begins with a bracket and its depth never returns to zero, its drop point is its length. -/
theorem depth_recognizes_nesting (t : Text) :
    (balanced t = true ↔ Nested t) ∧
      (balanced t = true → t.head? = some '(' →
        ∃ g s, Group t g s ∧ (∀ g' s', Group t g' s' → g' = g ∧ s' = s) ∧
          dropPoint t = 1 + g.length) ∧
      (t.head? = some '(' → (∀ m < t.length, depthAfter 0 (t.take (m + 1)) ≠ 0) →
        dropPoint t = t.length) := by
  refine ⟨balanced_iff_nested, fun hb ho => ?_, dropPoint_of_ne_zero⟩
  obtain ⟨g, s, h⟩ := exists_group hb ho
  exact ⟨g, s, h, fun g' s' => h.unique, h.dropPoint_eq⟩

/-- A product of two groups, of which the first one holds another; and a sum whose first bracket is
never closed. -/
theorem depth_recognizes_nesting_two :
    let g := ['1', '+', '(', '2', ')']
    let s := ['*', '(', '3', ')']
    let t := '(' :: (g ++ ')' :: s)
    let u := ['(', '(', '1', ')', '+', '2']
    (balanced t = true ∧ t.head? = some '(') ∧
      (u.head? = some '(' ∧ ∀ m < u.length, depthAfter 0 (u.take (m + 1)) ≠ 0) ∧
      Nested t ∧ (∀ g' s', Group t g' s' → g' = g ∧ s' = s) ∧ dropPoint t = 6 ∧
      dropPoint u = 6 := by
  intro g s t u
  have ht : balanced t = true := by decide
  have hu : ∀ m < u.length, depthAfter 0 (u.take (m + 1)) ≠ 0 := by decide
  have hgroup : Group t g s := ⟨by decide, by decide, rfl⟩
  obtain ⟨hnested, hpartner, -⟩ := depth_recognizes_nesting t
  obtain ⟨-, -, hlength⟩ := depth_recognizes_nesting u
  obtain ⟨g', s', -, hunique, hdrop⟩ := hpartner ht rfl
  obtain ⟨rfl, rfl⟩ := hunique g s hgroup
  exact ⟨⟨ht, rfl⟩, ⟨rfl, hu⟩, hnested.mp ht, hunique, hdrop, hlength rfl hu⟩

end Nesting

end Reckon

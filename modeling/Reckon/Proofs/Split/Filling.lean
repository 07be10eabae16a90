import Reckon.Proofs.Enclosure
import Reckon.Proofs.Split.Choice

/-!
# A group in brackets and the text around it

What stands in a balanced group in brackets does not matter for the text around it: the same
enclosing brackets are stripped, and the same operators are offered, at places that differ by the
length of the group only. So the place that is chosen is the same whatever the group is.

## Main definitions

* `Brackets.fill s t g`: the text `g` in brackets between `s` and `t`
* `Split.place s g j`: where the character at `j` of `s ++ t` stands in `fill s t g`

## Main results

* `strip_fill`: a group is stripped bare, or stays in brackets, whatever it is
* `Weakest.refill`: the weakest offer stays the weakest when the group is replaced
* `fill_cases`: what a text with a group consists of, whatever the group is
-/

namespace Reckon

open Nesting

namespace Brackets

variable {s t g : Text}

/-- The text `g` in brackets between `s` and `t`. -/
def fill (s t g : Text) : Text := s ++ '(' :: (g ++ ')' :: t)

theorem fill_append_cons (p q t g : Text) (c : Char) :
    fill (p ++ c :: q) t g = p ++ c :: fill q t g := by
  simp [fill]

theorem fill_append (s p q g : Text) : fill s (p ++ q) g = fill s p g ++ q := by
  simp [fill]

theorem length_fill (s t g : Text) :
    (fill s t g).length = s.length + (g.length + 2) + t.length := by
  simp only [fill, List.length_append, List.length_cons]
  omega

theorem bracket_mem_fill (s t g : Text) : '(' ∈ fill s t g := by simp [fill]

theorem balanced_fill (hg : balanced g = true) : balanced (fill s t g) = balanced (s ++ t) :=
  balanced_group hg s t

/-- A pair that encloses a text with a group in brackets is that of the group, or one around it. -/
theorem enclosed_fill (hg : balanced g = true) (h : enclosed (fill s t g) = true) :
    (s = [] ∧ t = []) ∨ ∃ s' t', s = '(' :: s' ∧ t = t' ++ [')'] ∧ balanced (s' ++ t') = true := by
  obtain ⟨u, hu, he⟩ := enclosed_iff.mp h
  rcases List.eq_nil_or_concat t with rfl | ⟨t, d, rfl⟩
  · cases s with
    | nil => exact .inl ⟨rfl, rfl⟩
    | cons c s =>
      -- The bracket of the group would have to be closed by the enclosing pair.
      simp only [fill, List.cons_append, List.cons.injEq] at he
      obtain ⟨rfl, he⟩ := he
      rw [← List.cons_append, ← List.append_assoc] at he
      obtain rfl : s ++ '(' :: g = u := List.append_cancel_right he
      have := Split.depthAfter_suffix_nonpos hu
      rw [depthAfter_cons, depthAfter_eq_add, depthAfter_of_balanced hg] at this
      exact absurd this (by decide)
  · rw [List.concat_eq_append, fill_append] at he
    cases s with
    | nil =>
      rw [fill, List.nil_append, List.cons_append] at he
      obtain ⟨rfl, -⟩ := List.append_inj' (List.cons.inj he).2 rfl
      have := ((balanced_append_iff (depthAfter_of_balanced hg)).mp hu).2
      exact absurd this (by simp [balanced, balancedFrom])
    | cons c s =>
      simp only [fill, List.cons_append, List.cons.injEq] at he
      obtain ⟨rfl, he⟩ := he
      obtain ⟨rfl, hd⟩ := List.append_inj' he rfl
      obtain rfl := (List.cons.inj hd).1
      exact .inr ⟨s, t, rfl, List.concat_eq_append, (balanced_fill hg).symm.trans hu⟩

/-- A group is stripped bare, or stays in brackets between the same texts, whatever it is. -/
theorem strip_fill (s t : Text) (h : balanced (s ++ t) = true) :
    (∀ g, balanced g = true → strip (fill s t g) = strip g) ∨
      ∃ s' t', balanced (s' ++ t') = true ∧ s'.length + t'.length ≤ s.length + t.length ∧
        ∀ g, balanced g = true → strip (fill s t g) = fill s' t' g := by
  induction s generalizing t with
  | nil =>
    by_cases ht : t = []
    · subst ht
      exact .inl fun g hg => strip_bracketed hg
    · refine .inr ⟨[], t, h, Nat.le_refl _, fun g hg => strip_of_not_enclosed fun he => ?_⟩
      rcases enclosed_fill hg he with ⟨-, h⟩ | ⟨s', t', h, -⟩
      · exact ht h
      · cases h
  | cons c s ih =>
    by_cases hpair : ∃ t', c = '(' ∧ t = t' ++ [')'] ∧ balanced (s ++ t') = true
    · obtain ⟨t, rfl, rfl, hb⟩ := hpair
      have hstrip : ∀ g, balanced g = true →
          strip (fill ('(' :: s) (t ++ [')']) g) = strip (fill s t g) := by
        intro g hg
        rw [fill_append]
        exact strip_bracketed ((balanced_fill hg).trans hb)
      rcases ih t hb with hl | ⟨s', t', hb', hle, hr⟩
      · exact .inl fun g hg => (hstrip g hg).trans (hl g hg)
      · refine .inr ⟨s', t', hb', ?_, fun g hg => (hstrip g hg).trans (hr g hg)⟩
        rw [List.length_cons, List.length_append]
        omega
    · refine .inr ⟨c :: s, t, h, Nat.le_refl _, fun g hg => strip_of_not_enclosed fun he => ?_⟩
      rcases enclosed_fill hg he with ⟨h, -⟩ | ⟨s', t', h, ht, hb⟩
      · cases h
      · obtain ⟨rfl, rfl⟩ := List.cons.inj h
        exact hpair ⟨t', rfl, ht, hb⟩

end Brackets

namespace Split

open Brackets

variable {s t g : Text}

/-! ## Offers around a group -/

/-- Where the character at `j` of `s ++ t` stands when the group `g` is put in between. -/
def place (s g : Text) (j : Nat) : Nat := if j < s.length then j else j + (g.length + 2)

theorem place_le_place {s g : Text} {i j : Nat} : place s g i ≤ place s g j ↔ i ≤ j := by
  unfold place
  split <;> split <;> omega

theorem place_left {j : Nat} (h : j < s.length) (g : Text) : place s g j = j := if_pos h

theorem place_right (s g : Text) (k : Nat) :
    place s g (s.length + k) = s.length + (g.length + 2) + k := by
  rw [place, if_neg (by omega)]
  omega

/-- The offers of `s` and `t` when they stand around a group. -/
def OffersAround (s t : Text) (j rank : Nat) : Prop :=
  OffersIn none s (depthAfter 0 t) j rank ∨
    ∃ k, j = s.length + k ∧ OffersIn (some ')') t 0 k rank

/-- A group offers nothing, so the offers are those of the texts around it. -/
theorem offers_fill (hg : balanced g = true) (hb : balanced (s ++ t) = true) {i rank : Nat} :
    Offers (fill s t g) i rank ↔ ∃ j, i = place s g j ∧ OffersAround s t j rank := by
  -- The text behind the group closes all that it opens, so the group is inside brackets.
  have ht : depthAfter 0 t ≤ 0 := depthAfter_suffix_nonpos hb
  have hfill : fill s t g = s ++ (('(' :: (g ++ [')'])) ++ t) := by simp [fill]
  have hdepth : depthAfter 0 ('(' :: (g ++ [')']) ++ t) + 0 = depthAfter 0 t := by
    rw [depthAfter_zero_append, depthAfter_group, depthAfter_of_balanced hg, depthAfter_nil]
    omega
  have hlast : ('(' :: (g ++ [')'])).getLast? = some ')' := by
    rw [← List.cons_append, List.getLast?_concat]
  rw [Offers, hfill, offersIn_append, hdepth]
  constructor
  · rintro (ho | ⟨k, rfl, ho⟩)
    · exact ⟨i, (place_left ho.lt g).symm, .inl ho⟩
    · rcases offersIn_append.mp ho with hgroup | ⟨k, rfl, hright⟩
      · exact absurd hgroup (not_offersIn_group hg (by omega))
      · rw [hlast] at hright
        refine ⟨s.length + k, ?_, .inr ⟨k, rfl, hright⟩⟩
        rw [place_right, List.length_cons, List.length_append, List.length_singleton]
        omega
  · rintro ⟨j, rfl, ho | ⟨k, rfl, ho⟩⟩
    · rw [place_left ho.lt]
      exact .inl ho
    · refine .inr ⟨g.length + 2 + k, by rw [place_right]; omega, offersIn_append.mpr (.inr ?_)⟩
      refine ⟨k, ?_, by rwa [hlast]⟩
      rw [List.length_cons, List.length_append, List.length_singleton]

/-- The weakest offer stays the weakest when the group is replaced. -/
theorem Weakest.refill {g' : Text} (hg : balanced g = true) (hg' : balanced g' = true)
    (hb : balanced (s ++ t) = true) {j rank : Nat} (h : Weakest (fill s t g) (place s g j) rank) :
    Weakest (fill s t g') (place s g' j) rank := by
  constructor
  · obtain ⟨m, hm, ho⟩ := (offers_fill hg hb).mp h.offers
    obtain rfl : j = m := Nat.le_antisymm (place_le_place.mp (Nat.le_of_eq hm))
      (place_le_place.mp (Nat.le_of_eq hm.symm))
    exact (offers_fill hg' hb).mpr ⟨j, rfl, ho⟩
  · intro i rank' ho
    obtain ⟨m, rfl, hm⟩ := (offers_fill hg' hb).mp ho
    obtain ⟨hle, heq⟩ := h.precedes _ _ ((offers_fill hg hb).mpr ⟨m, rfl, hm⟩)
    refine ⟨hle, fun he => ?_⟩
    have := heq he
    simp only [place_le_place] at this ⊢
    exact this

/-- What a text with a group in brackets consists of does not depend on the group: it is a whole,
or the weakest offer is the same operator on the left or on the right of the group. -/
theorem fill_cases (s t : Text) (hb : balanced (s ++ t) = true) :
    (∀ g, balanced g = true → ∀ i rank, ¬ Offers (fill s t g) i rank) ∨
      (∃ p c q rank, s = p ++ c :: q ∧
        ∀ g, balanced g = true → Weakest (fill s t g) p.length rank) ∨
      ∃ p c q rank, t = p ++ c :: q ∧
        ∀ g, balanced g = true → Weakest (fill s t g) (fill s p g).length rank := by
  -- Cut the text with the empty group; by `refill` the cut is the same for all groups.
  have hnil : balanced [] = true := rfl
  rcases cut_cases (fill s t []) with h | ⟨-, h⟩ | ⟨p, c, q, rank, he, hw, -⟩
  · exact absurd h (by simp [fill])
  · refine .inl fun g hg i rank ho => ?_
    obtain ⟨j, -, hj⟩ := (offers_fill hg hb).mp ho
    exact h _ _ ((offers_fill hnil hb).mpr ⟨j, rfl, hj⟩)
  · obtain ⟨j, hj, ⟨p', c', q', rfl, rfl, -⟩ | ⟨k, rfl, p', c', q', rfl, rfl, -⟩⟩ :=
      (offers_fill hnil hb).mp hw.offers
    · refine .inr (.inl ⟨p', c', q', rank, rfl, fun g hg => ?_⟩)
      have hlt : p'.length < (p' ++ c' :: q').length := by simp
      rw [hj] at hw
      rw [← place_left hlt g]
      exact hw.refill hnil hg hb
    · refine .inr (.inr ⟨p', c', q', rank, rfl, fun g hg => ?_⟩)
      rw [hj] at hw
      rw [length_fill, ← place_right]
      exact hw.refill hnil hg hb

end Split

end Reckon

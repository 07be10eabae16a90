import Mathlib.Order.Bounds.Basic
import Reckon.Proofs.Enclosure

/-!
# Enclosing brackets by the depth

The number of pairs of brackets that enclose a balanced text can be read off its depth: pairs of
brackets enclose a text as long as the depth between them stays at or above their number. Each pair
that is stripped lowers the depth by one and shortens the text by two, so stripping removes as many
pairs as there are.

## Main definitions

* `Brackets.Layered k t`: the depth of `t` stays at or above `k` between its first `k` and its last
  `k` characters

## Main results

* `Layered.enclosed`: a balanced text that stays above depth zero is enclosed
* `exists_isGreatest_layered`: a balanced text loses as many pairs as the depth allows
* `strip_layers`: stripping removes exactly the enclosing pairs
-/

namespace Reckon

namespace Brackets

open Nesting

/-- Between its first `k` and its last `k` characters a text does not get below depth `k`. -/
def Layered (k : Nat) (t : Text) : Prop :=
  2 * k ≤ t.length ∧ ∀ m, k ≤ m → m ≤ t.length - k → (k : Int) ≤ depthAfter 0 (t.take m)

variable {t : Text} {k : Nat}

/-- Fewer layers are there as well: the depth takes a character for every step. -/
theorem Layered.mono (h : Layered k t) {j : Nat} (hj : j ≤ k) : Layered j t := by
  obtain ⟨hlength, hdepth⟩ := h
  refine ⟨by omega, fun m hm hm' => ?_⟩
  by_cases hleft : m ≤ k
  · have hk := hdepth k (Nat.le_refl k) (by omega)
    have hstep := (depthAfter_take_add t m (k - m)).1
    rw [Nat.add_sub_cancel' hleft] at hstep
    omega
  by_cases hright : m ≤ t.length - k
  · have := hdepth m (by omega) hright
    omega
  · have hk := hdepth (t.length - k) (by omega) (Nat.le_refl _)
    have hstep := (depthAfter_take_add t (t.length - k) (m - (t.length - k))).2
    rw [Nat.add_sub_cancel' (by omega)] at hstep
    omega

/-- A balanced text has no layer to begin with. -/
theorem layered_zero (hb : balanced t = true) : Layered 0 t :=
  ⟨Nat.zero_le _, fun m _ _ => above_iff_forall_take.mp (balanced_iff.mp hb).1 m⟩

/-- A pair of brackets is one layer more. -/
theorem layered_bracketed {g : Text} : Layered (k + 1) ('(' :: (g ++ [')'])) ↔ Layered k g := by
  have hlength : ('(' :: (g ++ [')'])).length = g.length + 2 := by simp
  -- between the brackets the depth is one more than without them
  have hdepth {m : Nat} (hm : m ≤ g.length) :
      depthAfter 0 (('(' :: (g ++ [')'])).take (m + 1)) = depthAfter 0 (g.take m) + 1 := by
    rw [List.take_succ_cons, List.take_append_of_le_length hm, depthAfter_cons, depthAfter_eq_add,
      deepen_open]
    omega
  rw [Layered, Layered, hlength]
  constructor
  · rintro ⟨hle, h⟩
    refine ⟨by omega, fun m hm hm' => ?_⟩
    have := h (m + 1) (by omega) (by omega)
    rw [hdepth (by omega)] at this
    omega
  · rintro ⟨hle, h⟩
    refine ⟨by omega, fun m hm hm' => ?_⟩
    obtain ⟨m, rfl⟩ := Nat.exists_eq_add_of_le' (by omega : 1 ≤ m)
    have := h m (by omega) (by omega)
    rw [hdepth (by omega)]
    omega

/-- A balanced text that stays above depth zero is enclosed. -/
theorem Layered.enclosed (h : Layered 1 t) (hb : balanced t = true) : enclosed t = true := by
  obtain ⟨hlength, h⟩ := h
  have hne : t ≠ [] := List.ne_nil_of_length_pos (by omega)
  obtain ⟨c, s, rfl⟩ := List.exists_cons_of_ne_nil hne
  rcases List.eq_nil_or_concat s with rfl | ⟨g, d, rfl⟩
  · exact absurd hlength (by simp)
  rw [List.concat_eq_append] at *
  have hinside {m : Nat} (hm : m ≤ g.length) : 1 ≤ deepen 0 c + depthAfter 0 (g.take m) := by
    have := h (m + 1) (by omega) (by simp; omega)
    rwa [List.take_succ_cons, List.take_append_of_le_length hm, depthAfter_cons,
      depthAfter_eq_add] at this
  have hend := depthAfter_of_balanced hb
  rw [depthAfter_cons, depthAfter_eq_add, depthAfter_zero_append, depthAfter_cons,
    depthAfter_nil] at hend
  -- the first character goes up to depth one, so the last one goes down from it
  have hfirst := hinside (Nat.zero_le _)
  have hlast := hinside (Nat.le_refl _)
  rw [List.take_length] at hlast
  rw [List.take_zero, depthAfter_nil, Int.add_zero] at hfirst
  obtain rfl := eq_open_of_deepen hfirst
  obtain rfl : d = ')' := eq_close_of_deepen (by omega)
  rw [deepen_open] at hinside hlast hend
  rw [deepen_close] at hend
  have habove : Above 0 g := by
    refine above_iff_forall_take.mpr fun m => ?_
    by_cases hm : m ≤ g.length
    · have := hinside hm
      omega
    · rw [List.take_of_length_le (by omega)]
      omega
  exact enclosed_iff.mpr ⟨g, balanced_iff.mpr ⟨habove, by omega⟩, rfl⟩

/-- A balanced text loses as many pairs of brackets as its depth allows. -/
theorem exists_isGreatest_layered (hb : balanced t = true) :
    ∃ k, IsGreatest {k | Layered k t} k ∧ strip t = (t.drop k).take (t.length - 2 * k) := by
  fun_induction strip t with
  | case1 t he _ ih =>
    obtain ⟨g, hg, rfl⟩ := enclosed_iff.mp he
    rw [inner_bracketed] at ih ⊢
    obtain ⟨k, ⟨hk, hgreatest⟩, hstrip⟩ := ih hg
    refine ⟨k + 1, ⟨layered_bracketed.mpr hk, fun j hj => ?_⟩, ?_⟩
    · cases j with
      | zero => exact Nat.zero_le _
      | succ j => exact Nat.succ_le_succ (hgreatest (layered_bracketed.mp hj))
    · have hle : k ≤ g.length := by
        have := hk.1
        omega
      have hlength : ('(' :: (g ++ [')'])).length - 2 * (k + 1) = g.length - 2 * k := by
        simp
        omega
      rw [hstrip, hlength, List.drop_succ_cons, List.drop_append_of_le_length hle,
        List.take_append_of_le_length (by rw [List.length_drop]; omega)]
  | case2 t he =>
    refine ⟨0, ⟨layered_zero hb, fun j hj => ?_⟩, by simp⟩
    by_contra hpos
    exact he ((hj.mono (by omega)).enclosed hb)

/-- **Stripping removes exactly the enclosing pairs of brackets.** A pair encloses a text if the
text between is balanced. A text that is not balanced is not stripped. A balanced text loses as many
characters on both sides as is the greatest number that its depth does not get below between them.
Stripping neither makes nor breaks balance, there is nothing to strip after it, and it does not
matter how many pairs are put around a balanced text. -/
theorem strip_layers (t : Text) :
    (enclosed t = true ↔ ∃ g, balanced g = true ∧ t = '(' :: (g ++ [')'])) ∧
      (balanced t = false → strip t = t) ∧
      (balanced t = true →
        ∃ k, IsGreatest {k | Layered k t} k ∧ strip t = (t.drop k).take (t.length - 2 * k)) ∧
      balanced (strip t) = balanced t ∧ strip (strip t) = strip t ∧
      (balanced t = true → ∀ j, strip (bracketed j t) = strip t) :=
  ⟨enclosed_iff, strip_of_not_balanced, exists_isGreatest_layered, balanced_strip_eq t,
    strip_strip t, strip_pairs⟩

/-- Two pairs enclose a sum of two groups, which are no pair of their own. Where a bracket lacks its
partner nothing is stripped. -/
theorem strip_layers_two :
    let sum := ['(', '1', ')', '+', '(', '2', ')']
    let t := '(' :: '(' :: (sum ++ [')', ')'])
    let u := ['(', '(', '1', ')']
    (balanced t = true ∧ balanced u = false) ∧ IsGreatest {k | Layered k t} 2 ∧ strip t = sum ∧
      strip (bracketed 3 t) = strip t ∧ strip u = u := by
  intro sum t u
  have ht : balanced t = true := by decide
  have hu : balanced u = false := by decide
  have hsum : strip sum = sum := strip_of_not_enclosed (by decide)
  have hstrip : strip t = sum := (strip_pairs (by decide) 2).trans hsum
  obtain ⟨-, -, hlayers, -, -, hpairs⟩ := strip_layers t
  obtain ⟨-, hunbalanced, -⟩ := strip_layers u
  obtain ⟨k, hk, hcut⟩ := hlayers ht
  obtain rfl : k = 2 := by
    have hlength := congrArg List.length hcut
    have hle : 2 * k ≤ t.length := hk.1.1
    have htlength : t.length = 11 := rfl
    have hsumlength : sum.length = 7 := rfl
    rw [hstrip, List.length_take, List.length_drop] at hlength
    omega
  exact ⟨⟨ht, hu⟩, hk, hstrip, hpairs ht 3, hunbalanced hu⟩

end Brackets

end Reckon

import Reckon.Proofs.Enclosure
import Reckon.Proofs.Folding

/-!
# What folding leaves alone

Every spelling is longer than what is written for it, so folding makes a text shorter as soon as one
of the spellings is there when its turn comes, and leaves alone exactly the texts without any of
them. Blanks and words are gone after folding. But dropping a blank, or a plus before a minus, can
bring two characters together that are a spelling whose turn is over. So normalizing twice may do
more than normalizing once, namely where the normalized formula has a spelling of two characters.

## Main definitions

* `Surface.pairs`, `Surface.blanks`, `Surface.words`: the spellings by their kind

## Main results

* `fold_eq_self_iff`, `length_fold_lt`: folding keeps the texts without spellings and makes all
  others shorter
* `not_infix_fold`: blanks and words are gone after folding
* `normalize_fixpoint`: which formulas normalization leaves alone
-/

namespace Reckon

namespace Surface

open Text

/-! ## Length -/

section FoldBy

variable {ss : List (Text × Text)}

theorem length_foldBy_le (h : ∀ s ∈ ss, s.2.length < s.1.length) (t : Text) :
    (foldBy ss t).length ≤ t.length := by
  induction ss generalizing t with
  | nil => exact Nat.le_refl _
  | cons s ss ih =>
    obtain ⟨hs, hss⟩ := List.forall_mem_cons.mp h
    exact (ih hss _).trans (length_replaceAll_le hs t)

/-- Where all spellings are longer than what is written for them, a text with one of them gets
shorter. -/
theorem length_foldBy_lt (h : ∀ s ∈ ss, s.2.length < s.1.length) {t : Text}
    (ht : ∃ s ∈ ss, s.1 <:+: t) : (foldBy ss t).length < t.length := by
  induction ss with
  | nil => simp at ht
  | cons s ss ih =>
    obtain ⟨hs, hss⟩ := List.forall_mem_cons.mp h
    show (foldBy ss (replaceAll s.1 s.2 t)).length < t.length
    by_cases hi : s.1 <:+: t
    · exact (length_foldBy_le hss _).trans_lt (length_replaceAll_lt hs hi)
    -- the text is still the same when the turn comes to the spelling that it has
    · rw [replaceAll_of_absent hi]
      obtain ⟨s', hs', ht⟩ := ht
      rcases List.mem_cons.mp hs' with rfl | hs'
      · exact absurd ht hi
      · exact ih hss ⟨s', hs', ht⟩

theorem foldBy_eq_self_iff (h : ∀ s ∈ ss, s.2.length < s.1.length) {t : Text} :
    foldBy ss t = t ↔ ∀ s ∈ ss, ¬ s.1 <:+: t := by
  refine ⟨fun heq s hs hi => ?_, foldBy_of_absent⟩
  have := length_foldBy_lt h ⟨s, hs, hi⟩
  rw [heq] at this
  exact Nat.lt_irrefl _ this

end FoldBy

/-! ## The spellings by their kind -/

/-- The spellings of two characters. -/
def pairs : List Text := [['-', '-'], ['+', '-'], ['>', '='], ['<', '='], ['!', '=']]

/-- The blanks. -/
def blanks : List Text := [[' '], ['\u3000']]

/-- The words. -/
def words : List Text := [['A', 'n', 'd'], ['O', 'r']]

theorem map_fst_spellings : spellings.map Prod.fst = pairs ++ blanks ++ words := rfl

theorem length_lt_of_mem_spellings : ∀ s ∈ spellings, s.2.length < s.1.length := by decide

/-- Folding leaves alone exactly the texts without spellings. -/
theorem fold_eq_self_iff {t : Text} :
    fold t = t ↔ ∀ w ∈ pairs ++ blanks ++ words, ¬ w <:+: t := by
  rw [← map_fst_spellings, List.forall_mem_map]
  exact foldBy_eq_self_iff length_lt_of_mem_spellings

/-- Folding makes a text with a spelling shorter. -/
theorem length_fold_lt {t : Text} (h : ∃ w ∈ pairs ++ blanks ++ words, w <:+: t) :
    (fold t).length < t.length := by
  obtain ⟨w, hw, ht⟩ := h
  rw [← map_fst_spellings] at hw
  obtain ⟨s, hs, rfl⟩ := List.mem_map.mp hw
  exact length_foldBy_lt length_lt_of_mem_spellings ⟨s, hs, ht⟩

/-! ## What is gone after folding -/

theorem isBlank_of_mem_fold {t : Text} {c : Char} (h : c ∈ fold t) : isBlank c = false := by
  rw [Bool.eq_false_iff]
  intro hb
  rw [fold_eq_foldWords] at h
  -- folding the words makes no blanks, and there are none left before it
  have hmem : c ∈ tighten t := (mem_foldBy_iff (by decide) hb).mp h
  rw [tighten, List.mem_filter, hb] at hmem
  cases hmem.2

/-- Blanks and words are gone after folding. -/
theorem not_infix_fold (t : Text) : ∀ w ∈ blanks ++ words, ¬ w <:+: fold t := by
  have hblank {c : Char} (hc : isBlank c = true) : ¬ [c] <:+: fold t := by
    intro hi
    rw [isBlank_of_mem_fold (hi.subset (List.mem_singleton_self c))] at hc
    cases hc
  have hfold : fold t =
      replaceAll ['O', 'r'] ['|'] (replaceAll ['A', 'n', 'd'] ['&'] (tighten t)) :=
    fold_eq_foldWords t
  have hand : ¬ ['A', 'n', 'd'] <:+: fold t := by
    rw [hfold]
    intro hi
    -- a bar is no letter, so writing it makes no new word
    have hi := infix_of_infix_replaceAll (by decide) (by decide) (by decide) hi
    exact not_infix_replaceAll (by decide) (by decide) _ hi
  have hor : ¬ ['O', 'r'] <:+: fold t := by
    rw [hfold]
    exact not_infix_replaceAll (by decide) (by decide) _
  simp only [blanks, words, List.cons_append, List.nil_append, List.forall_mem_cons]
  exact ⟨hblank rfl, hblank rfl, hand, hor, List.forall_mem_nil _⟩

end Surface

namespace Brackets

open Surface

/-- A normalized formula stays as it is exactly if it has no spelling of two characters. -/
theorem normalize_normalize_iff {f : Text} :
    normalize (normalize f) = normalize f ↔ ∀ w ∈ pairs, ¬ w <:+: normalize f := by
  constructor
  · intro heq w hw hi
    have hlt : (fold (normalize f)).length < (normalize f).length :=
      length_fold_lt ⟨w, by simp [hw], hi⟩
    have hle : (normalize (normalize f)).length ≤ (fold (normalize f)).length :=
      length_strip_le _
    rw [heq] at hle
    omega
  · intro h
    have hfold : fold (normalize f) = normalize f := by
      rw [fold_eq_self_iff, List.append_assoc, List.forall_mem_append]
      exact ⟨h, fun w hw hi => not_infix_fold f w hw (hi.trans (isInfix_strip _))⟩
    rw [normalize, hfold]
    exact strip_strip _

/-- **Which formulas normalization leaves alone.** Folding keeps exactly the texts without any
spelling, and makes all others shorter. No blank and no word is left after it. A normalized formula
is left alone by normalizing it again exactly if it has no spelling of two characters. -/
theorem normalize_fixpoint (f : Text) :
    (fold f = f ↔ ∀ w ∈ pairs ++ blanks ++ words, ¬ w <:+: f) ∧
      ((∃ w ∈ pairs ++ blanks ++ words, w <:+: f) → (fold f).length < f.length) ∧
      (∀ w ∈ blanks ++ words, ¬ w <:+: fold f) ∧
      (normalize (normalize f) = normalize f ↔ ∀ w ∈ pairs, ¬ w <:+: normalize f) :=
  ⟨fold_eq_self_iff, length_fold_lt, not_infix_fold f, normalize_normalize_iff⟩

/-- Of two plus signs before a minus only the second one is taken away, so there is a plus before
the minus again. -/
theorem normalize_fixpoint_plus :
    let f := ['1', '+', '+', '-', '5', ' ', 'A', 'n', 'd', ' ', '0']
    (['+', '-'] ∈ pairs ∧ ['A', 'n', 'd'] ∈ blanks ++ words ∧
        (∃ w ∈ pairs ++ blanks ++ words, w <:+: f) ∧ ['+', '-'] <:+: normalize f) ∧
      fold f ≠ f ∧ (fold f).length < f.length ∧ ¬ ['A', 'n', 'd'] <:+: fold f ∧
      normalize (normalize f) ≠ normalize f := by
  intro f
  have hpair : ['+', '-'] ∈ pairs := by decide
  have hword : ['A', 'n', 'd'] ∈ blanks ++ words := by decide
  have hall : ['+', '-'] ∈ pairs ++ blanks ++ words := by decide
  have hf : ['+', '-'] <:+: f := ⟨['1', '+'], ['5', ' ', 'A', 'n', 'd', ' ', '0'], rfl⟩
  have hn : ['+', '-'] <:+: normalize f := by
    have hnormalize : normalize f = ['1', '+', '-', '5', '&', '0'] :=
      strip_of_not_enclosed (by decide)
    rw [hnormalize]
    exact ⟨['1'], ['5', '&', '0'], rfl⟩
  obtain ⟨hself, hlt, hgone, htwice⟩ := normalize_fixpoint f
  exact ⟨⟨hpair, hword, ⟨_, hall, hf⟩, hn⟩, fun h => hself.mp h _ hall hf, hlt ⟨_, hall, hf⟩,
    hgone _ hword, fun h => htwice.mp h _ hpair hn⟩

end Brackets

end Reckon

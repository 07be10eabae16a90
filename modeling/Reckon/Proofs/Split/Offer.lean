import Reckon.Proofs.Nesting.Balance
import Reckon.Split

/-!
# Where a text may be split

A text offers a place to split wherever an operator stands outside brackets. The offers of a text
are those of its parts: what stands before a part matters only by its last character, and what
stands after it only by its depth. A balanced group in brackets offers nothing.

## Main definitions

* `Split.OffersIn`: the offers of a part of a text
* `Split.Offers`: the offers of a text

## Main results

* `offersIn_append`: the offers of a text are those of its parts
* `not_offersIn_group`: a balanced group in brackets offers nothing
-/

namespace Reckon

namespace Split

open Nesting

/-! ## Priorities -/

theorem rank?_negation {previous : Option Char} (h : beginsOperand previous = true) :
    rank? previous '-' = some Operator.negationPriority := by
  simp [rank?, h]

theorem rank?_of_not_negation {previous : Option Char} {c : Char}
    (h : ¬ (c = '-' ∧ beginsOperand previous = true)) :
    rank? previous c = (Operator.ofSymbol? c).map Operator.priority := by
  rw [rank?, if_neg (by simpa using h)]

theorem rank?_congr {previous previous' : Option Char}
    (h : beginsOperand previous = beginsOperand previous') (c : Char) :
    rank? previous c = rank? previous' c := by
  rw [rank?, rank?, h]

/-- Exactly the operators have a priority. -/
theorem isSome_rank? (previous : Option Char) (c : Char) :
    (rank? previous c).isSome = (Operator.ofSymbol? c).isSome := by
  by_cases hc : c = '-' ∧ beginsOperand previous = true
  · rw [hc.1, rank?_negation hc.2]
    rfl
  · rw [rank?_of_not_negation hc, Option.isSome_map]

theorem isSome_ofSymbol?_of_rank? {previous : Option Char} {c : Char} {n : Nat}
    (h : rank? previous c = some n) : (Operator.ofSymbol? c).isSome := by
  rw [← isSome_rank? previous c, h]
  rfl

theorem rank?_of_ofSymbol?_eq_none {c : Char} (h : Operator.ofSymbol? c = none)
    (previous : Option Char) : rank? previous c = none := by
  rw [← Option.not_isSome_iff_eq_none, isSome_rank?, h]
  exact Bool.false_ne_true

theorem isBracket_of_rank? {previous : Option Char} {c : Char} {n : Nat}
    (h : rank? previous c = some n) : isBracket c = false := by
  have hs := isSome_ofSymbol?_of_rank? h
  rw [Bool.eq_false_iff]
  intro hb
  obtain rfl | rfl : c = '(' ∨ c = ')' := by simpa [isBracket] using hb
  all_goals exact absurd hs (by decide)

theorem rank?_le {previous : Option Char} {c : Char} {n : Nat} (h : rank? previous c = some n) :
    n ≤ Operator.negationPriority := by
  by_cases hc : c = '-' ∧ beginsOperand previous = true
  · rw [hc.1, rank?_negation hc.2] at h
    exact Nat.le_of_eq (Option.some.inj h).symm
  · rw [rank?_of_not_negation hc] at h
    obtain ⟨o, -, rfl⟩ := Option.map_eq_some_iff.mp h
    rcases o with op | _
    · cases op <;> decide
    · exact Nat.le_refl _

/-! ## Offers -/

/-- A part of a text, read after the character `previous` and followed by a text of the depth
`rest`, has at `i` an operator outside brackets of the priority `rank`. -/
def OffersIn (previous : Option Char) (t : Text) (rest : Int) (i rank : Nat) : Prop :=
  ∃ p c q, t = p ++ c :: q ∧ p.length = i ∧ depthAfter 0 (c :: q) + rest = 0 ∧
    rank? (p.getLast?.or previous) c = some rank

/-- A text has at `i` an operator outside brackets of the priority `rank`. -/
def Offers (t : Text) (i rank : Nat) : Prop := OffersIn none t 0 i rank

variable {previous : Option Char} {s t : Text} {rest : Int} {i rank : Nat}

theorem OffersIn.lt (h : OffersIn previous t rest i rank) : i < t.length := by
  obtain ⟨p, c, q, rfl, rfl, -⟩ := h
  simp

/-- What is offered at a place stands outside brackets. -/
theorem Offers.depthAfter_eq {p q : Text} {c : Char} (h : Offers (p ++ c :: q) p.length rank) :
    depthAfter 0 (c :: q) = 0 := by
  obtain ⟨p', c', q', he, hl, hd, -⟩ := h
  rw [(List.append_inj he hl.symm).2]
  omega

/-- The priority of what is offered at a place. -/
theorem Offers.rank?_eq {p q : Text} {c : Char} (h : Offers (p ++ c :: q) p.length rank) :
    rank? p.getLast? c = some rank := by
  obtain ⟨p', c', q', he, hl, -, hr⟩ := h
  obtain ⟨rfl, ht⟩ := List.append_inj he hl.symm
  rw [(List.cons.inj ht).1]
  simpa using hr

@[simp] theorem not_offersIn_nil : ¬ OffersIn previous [] rest i rank := fun h => by
  simpa using h.lt

/-- The offers of a text are those of its parts. -/
theorem offersIn_append :
    OffersIn previous (s ++ t) rest i rank ↔
      OffersIn previous s (depthAfter 0 t + rest) i rank ∨
        ∃ k, i = s.length + k ∧ OffersIn (s.getLast?.or previous) t rest k rank := by
  constructor
  · rintro ⟨p, c, q, he, rfl, hd, hr⟩
    rcases List.append_eq_append_iff.mp he with ⟨a, rfl, ha⟩ | ⟨a, rfl, ha⟩
    · refine .inr ⟨a.length, by simp, a, c, q, ha, rfl, hd, ?_⟩
      rwa [List.getLast?_append, Option.or_assoc] at hr
    · cases a with
      | nil => exact .inr ⟨0, by simp, [], c, q, ha.symm, rfl, hd, by simpa using hr⟩
      | cons d a =>
        obtain ⟨rfl, rfl⟩ : c = d ∧ q = a ++ t := by simpa using ha
        refine .inl ⟨p, c, a, rfl, rfl, ?_, hr⟩
        rw [← List.cons_append, depthAfter_zero_append] at hd
        omega
  -- An offer of a part is one of the whole: its depth counts what follows the part.
  · rintro (⟨p, c, q, rfl, rfl, hd, hr⟩ | ⟨k, rfl, p, c, q, rfl, rfl, hd, hr⟩)
    · refine ⟨p, c, q ++ t, by simp, rfl, ?_, hr⟩
      rw [← List.cons_append, depthAfter_zero_append]
      omega
    · refine ⟨s ++ p, c, q, by simp, by simp, hd, ?_⟩
      rwa [List.getLast?_append, Option.or_assoc]

theorem offersIn_cons {c : Char} :
    OffersIn previous (c :: t) rest i rank ↔
      (i = 0 ∧ depthAfter 0 (c :: t) + rest = 0 ∧ rank? previous c = some rank) ∨
        ∃ k, i = k + 1 ∧ OffersIn (some c) t rest k rank := by
  rw [← List.singleton_append, offersIn_append]
  refine or_congr ⟨?_, ?_⟩ ?_
  · rintro ⟨p, d, q, he, rfl, hd, hr⟩
    obtain ⟨rfl, rfl, rfl⟩ : p = [] ∧ d = c ∧ q = [] := by
      cases p <;> simp_all
    refine ⟨rfl, ?_, by simpa using hr⟩
    rw [depthAfter_zero_append]
    omega
  · rintro ⟨rfl, hd, hr⟩
    refine ⟨[], c, [], rfl, rfl, ?_, by simpa using hr⟩
    rw [depthAfter_zero_append] at hd
    omega
  · simp [Nat.add_comm]

/-- What stands before a text matters only by whether an operand may begin there. -/
theorem OffersIn.congr {previous' : Option Char}
    (h : beginsOperand previous = beginsOperand previous') (ho : OffersIn previous t rest i rank) :
    OffersIn previous' t rest i rank := by
  obtain ⟨p, c, q, rfl, rfl, hd, hr⟩ := ho
  refine ⟨p, c, q, rfl, rfl, hd, ?_⟩
  cases hp : p.getLast? with
  | none => rw [hp] at hr; exact (rank?_congr h c).symm.trans hr
  | some d => rwa [hp] at hr

theorem offersIn_congr {previous' : Option Char}
    (h : beginsOperand previous = beginsOperand previous') :
    OffersIn previous t rest i rank ↔ OffersIn previous' t rest i rank :=
  ⟨OffersIn.congr h, OffersIn.congr h.symm⟩

/-- A text without operators offers nothing. -/
theorem not_offersIn_of_forall (h : ∀ c ∈ t, Operator.ofSymbol? c = none) :
    ¬ OffersIn previous t rest i rank := by
  rintro ⟨p, c, q, rfl, -, -, hr⟩
  simp [rank?_of_ofSymbol?_eq_none (h c (by simp))] at hr

/-- What stands in a balanced text from any place on closes at least as many brackets as it
opens. -/
theorem depthAfter_suffix_nonpos (hs : balanced (s ++ t) = true) : depthAfter 0 t ≤ 0 := by
  obtain ⟨ha, hd⟩ := balanced_iff.mp hs
  have := (above_append.mp ha).1.depthAfter_nonneg
  rw [depthAfter_zero_append] at hd
  omega

/-- A balanced group in brackets offers nothing, unless what follows it opens more brackets than it
closes. -/
theorem not_offersIn_group {g : Text} (hg : balanced g = true) (hrest : rest ≤ 0) :
    ¬ OffersIn previous ('(' :: (g ++ [')'])) rest i rank := by
  rw [offersIn_cons]
  rintro (⟨-, -, hr⟩ | ⟨k, -, ho⟩)
  · rw [rank?_of_ofSymbol?_eq_none rfl] at hr
    cases hr
  · rw [offersIn_append] at ho
    rcases ho with ⟨p, c, q, rfl, -, hd, -⟩ | ⟨k, -, ho⟩
    · have := depthAfter_suffix_nonpos hg
      rw [show depthAfter 0 [')'] = -1 from rfl] at hd
      omega
    · exact not_offersIn_of_forall (List.forall_mem_singleton.mpr rfl) ho

/-- An operator outside brackets parts a balanced text into balanced texts. -/
theorem balanced_of_offers {p q : Text} {c : Char} (h : balanced (p ++ c :: q) = true)
    (hd : depthAfter 0 (c :: q) = 0) (hc : isBracket c = false) :
    balanced p = true ∧ balanced q = true := by
  have hp : depthAfter 0 p = 0 := by
    have := depthAfter_of_balanced h
    rw [depthAfter_zero_append] at this
    omega
  have hc0 : depthAfter 0 [c] = 0 := deepen_of_not_isBracket hc 0
  obtain ⟨hp, hq⟩ := (balanced_append_iff hp).mp h
  exact ⟨hp, ((balanced_append_iff hc0).mp hq).2⟩

end Split

end Reckon

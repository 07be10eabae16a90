import Mathlib.Order.Bounds.Basic
import Reckon.Proofs.Split.Choice

/-!
# The place to split as an extremum

The place to split is found in one reading of the text. What it is can be said without a reading: of
the operators outside brackets take those of the least priority, and of these the last one, or the
first one if they are negations. An operator is outside brackets if from it on as many brackets are
opened as closed; in a balanced text that is where the depth is zero.

## Main definitions

* `Split.outside t`: the places of the operators of `t` that are outside brackets
* `Split.strength t i`: the priority of the operator of `t` at `i`

## Main results

* `offers_iff`: the offers of a text are the operators outside brackets
* `count_brackets_iff`: in a balanced text, the operators outside brackets are those at depth zero
* `index?_argmin`: the place to split is an extremum
-/

namespace Reckon

namespace Split

open Nesting

/-- The operator of a text at a place, if there is one. A minus is the subtraction. -/
def operator? (t : Text) (i : Nat) : Option Operator := t[i]?.bind Operator.ofSymbol?

/-- The places of the operators of a text from which on it opens as many brackets as it closes. -/
def outside (t : Text) : Set Nat :=
  {i | (operator? t i).isSome ∧ (t.drop i).count '(' = (t.drop i).count ')'}

/-- The priority of the operator of a text at a place, a minus that negates being the negation. -/
def strength (t : Text) (i : Nat) : Nat :=
  if isNegation t i then Operator.negationPriority else (operator? t i).elim 0 Operator.priority

/-! ## Offers -/

theorem exists_symbol {t : Text} {i : Nat} (h : (operator? t i).isSome) :
    ∃ c o, t[i]? = some c ∧ Operator.ofSymbol? c = some o := by
  obtain ⟨o, ho⟩ := Option.isSome_iff_exists.mp h
  obtain ⟨c, hi, ho⟩ := Option.bind_eq_some_iff.mp ho
  exact ⟨c, o, hi, ho⟩

theorem operator?_append (p q : Text) (c : Char) :
    operator? (p ++ c :: q) p.length = Operator.ofSymbol? c := by
  simp [operator?]

theorem strength_append {p q : Text} {c : Char} {o : Operator}
    (ho : Operator.ofSymbol? c = some o) :
    rank? p.getLast? c = some (strength (p ++ c :: q) p.length) := by
  have hneg := isNegation_append p q c
  by_cases h : c = '-' ∧ beginsOperand p.getLast? = true
  · rw [strength, if_pos (hneg.mpr h), h.1, rank?_negation h.2]
  · rw [strength, if_neg (mt hneg.mp h), operator?_append, rank?_of_not_negation h, ho]
    rfl

/-- The offers of a text are the operators outside brackets, with their priorities. -/
theorem offers_iff {t : Text} {i rank : Nat} :
    Offers t i rank ↔ i ∈ outside t ∧ strength t i = rank := by
  constructor
  · rintro ⟨p, c, q, rfl, rfl, hd, hr⟩
    rw [Option.or_none] at hr
    obtain ⟨o, ho⟩ := Option.isSome_iff_exists.mp (isSome_ofSymbol?_of_rank? hr)
    refine ⟨⟨?_, ?_⟩, ?_⟩
    · rw [operator?_append, ho]
      rfl
    · rw [depthAfter_zero_eq_count] at hd
      rw [List.drop_left]
      omega
    · rw [strength_append ho] at hr
      exact Option.some.inj hr
  · rintro ⟨⟨ho, hc⟩, rfl⟩
    obtain ⟨c, o, hi, ho⟩ := exists_symbol ho
    obtain ⟨hlt, rfl⟩ := List.getElem?_eq_some_iff.mp hi
    have hsplit : t.take i ++ t[i] :: t.drop (i + 1) = t := by
      rw [← List.drop_eq_getElem_cons hlt, List.take_append_drop]
    have hlength : (t.take i).length = i := List.length_take_of_le (Nat.le_of_lt hlt)
    refine ⟨t.take i, t[i], t.drop (i + 1), hsplit.symm, hlength, ?_, ?_⟩
    · rw [← List.drop_eq_getElem_cons hlt, depthAfter_zero_eq_count, hc]
      omega
    · have hr := strength_append (p := t.take i) (q := t.drop (i + 1)) ho
      rw [hsplit, hlength] at hr
      rwa [Option.or_none]

/-- There is an operator outside brackets exactly if something is offered. -/
theorem outside_eq_empty_iff {t : Text} : outside t = ∅ ↔ ∀ i rank, ¬ Offers t i rank := by
  rw [Set.eq_empty_iff_forall_notMem]
  constructor
  · intro h i rank ho
    exact h i (offers_iff.mp ho).1
  · intro h i hi
    exact h i (strength t i) (offers_iff.mpr ⟨hi, rfl⟩)

/-- The offer to be chosen has the least priority of all operators outside brackets, and is the last
one of this priority, or the first one if it is a negation. -/
theorem weakest_iff {t : Text} {i m : Nat} :
    Weakest t i m ↔
      IsLeast (strength t '' outside t) m ∧
        (m < Operator.negationPriority ∧ IsGreatest {j ∈ outside t | strength t j = m} i ∨
          m = Operator.negationPriority ∧ IsLeast {j ∈ outside t | strength t j = m} i) := by
  constructor
  · intro h
    obtain ⟨hi, hm⟩ := offers_iff.mp h.offers
    refine ⟨⟨⟨i, hi, hm⟩, ?_⟩, ?_⟩
    · rintro _ ⟨j, hj, rfl⟩
      exact (h.precedes j _ (offers_iff.mpr ⟨hj, rfl⟩)).1
    · -- of the operators of this priority, the chosen one precedes all others
      have htie (j : Nat) (hj : j ∈ outside t ∧ strength t j = m) :=
        (h.precedes j m (offers_iff.mpr hj)).2 rfl
      obtain ⟨p, c, q, -, -, -, hr⟩ := h.offers
      rcases Nat.lt_or_eq_of_le (rank?_le hr) with hlt | heq
      · refine .inl ⟨hlt, ⟨hi, hm⟩, fun j hj => ?_⟩
        simpa [hlt] using htie j hj
      · refine .inr ⟨heq, ⟨hi, hm⟩, fun j hj => ?_⟩
        simpa [heq] using htie j hj
  · rintro ⟨⟨-, hleast⟩, hchoice⟩
    have hi : i ∈ outside t ∧ strength t i = m := by
      rcases hchoice with ⟨-, hi, -⟩ | ⟨-, hi, -⟩
      · exact hi
      · exact hi
    refine ⟨offers_iff.mpr hi, fun j rank ho => ?_⟩
    obtain ⟨hj, rfl⟩ := offers_iff.mp ho
    refine ⟨hleast ⟨j, hj, rfl⟩, fun heq => ?_⟩
    rcases hchoice with ⟨hlt, -, hlast⟩ | ⟨hnegation, -, hfirst⟩
    · rw [if_pos hlt]
      exact hlast ⟨hj, heq⟩
    · rw [if_neg (by omega)]
      exact hfirst ⟨hj, heq⟩

/-! ## Depth -/

/-- A balanced text opens as many brackets as it closes from a place on exactly if the depth before
the place is zero. -/
theorem count_brackets_iff {t : Text} (hb : balanced t = true) (i : Nat) :
    (t.drop i).count '(' = (t.drop i).count ')' ↔ depthAfter 0 (t.take i) = 0 := by
  have hd := depthAfter_of_balanced hb
  rw [← List.take_append_drop i t, depthAfter_zero_append,
    depthAfter_zero_eq_count (t.drop i)] at hd
  omega

/-- An operator does not change the depth. -/
theorem depthAfter_take_succ {t : Text} {i : Nat} (h : (operator? t i).isSome) :
    depthAfter 0 (t.take (i + 1)) = depthAfter 0 (t.take i) := by
  obtain ⟨c, o, hi, ho⟩ := exists_symbol h
  have hc : isBracket c = false := by
    rw [Bool.eq_false_iff]
    intro hc
    obtain rfl | rfl : c = '(' ∨ c = ')' := by simpa [isBracket] using hc
    all_goals cases ho
  rw [List.take_add_one, hi, Option.toList_some, depthAfter_append, depthAfter_cons,
    deepen_of_not_isBracket hc, depthAfter_nil]

/-! ## The extremum -/

/-- **The place to split is an extremum**, in every text, balanced or not. There is none exactly if
no operator is outside brackets. Else it is, among the operators outside brackets of the least
priority, the last one, or the first one if that is the priority of the negation. In a balanced text
the operators outside brackets are those at depth zero, the depth being taken before the operator or
after it. -/
theorem index?_argmin (t : Text) :
    (index? t = none ↔ outside t = ∅) ∧
      (∀ i, index? t = some i ↔
        ∃ m, IsLeast (strength t '' outside t) m ∧
          (m < Operator.negationPriority ∧ IsGreatest {j ∈ outside t | strength t j = m} i ∨
            m = Operator.negationPriority ∧ IsLeast {j ∈ outside t | strength t j = m} i)) ∧
      (balanced t = true → ∀ i,
        ((t.drop i).count '(' = (t.drop i).count ')' ↔ depthAfter 0 (t.take i) = 0) ∧
          ((operator? t i).isSome →
            depthAfter 0 (t.take (i + 1)) = depthAfter 0 (t.take i))) := by
  refine ⟨index?_eq_none_iff.trans outside_eq_empty_iff.symm, fun i => ?_, fun hb i => ?_⟩
  · rw [index?_eq_some_iff]
    exact exists_congr fun m => weakest_iff
  · exact ⟨count_brackets_iff hb i, depthAfter_take_succ⟩

/-- Of two subtractions and a product outside brackets, the last subtraction is the place to split;
the equality in brackets and the negation do not count. -/
theorem index?_argmin_last :
    let t := ['1', '-', '(', '2', '=', '3', ')', '-', '4', '*', '-', '5']
    (index? t = some 7 ∧ balanced t = true ∧ (operator? t 7).isSome ∧
        (t.drop 7).count '(' = (t.drop 7).count ')') ∧
      IsLeast (strength t '' outside t) 4 ∧ IsGreatest {j ∈ outside t | strength t j = 4} 7 ∧
      depthAfter 0 (t.take 7) = 0 ∧ depthAfter 0 (t.take 8) = 0 := by
  intro t
  have hi : index? t = some 7 := by decide
  have hb : balanced t = true := by decide
  have hop : (operator? t 7).isSome := by decide
  have hcount : (t.drop 7).count '(' = (t.drop 7).count ')' := by decide
  have hstrength : strength t 7 = 4 := by decide
  obtain ⟨-, hsome, hdepth⟩ := index?_argmin t
  obtain ⟨hbefore, hafter⟩ := hdepth hb 7
  obtain ⟨m, hleast, ⟨-, hlast⟩ | ⟨rfl, hfirst⟩⟩ := (hsome 7).mp hi
  · obtain rfl : 4 = m := hstrength.symm.trans hlast.1.2
    exact ⟨⟨hi, hb, hop, hcount⟩, hleast, hlast, hbefore.mp hcount,
      (hafter hop).trans (hbefore.mp hcount)⟩
  · exact absurd (hstrength.symm.trans hfirst.1.2) (by decide)

/-- Where no operator is weaker than a negation, the first negation is the place to split. -/
example : index? ['-', '-', '5'] = some 0 := by decide

end Split

end Reckon

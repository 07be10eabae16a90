import Reckon.Proofs.Split.Offer
import Reckon.Proofs.Split.Role

/-!
# The place that is chosen

Among the offers of a text the weakest is chosen: of equally weak binary operators the last one, of
negations the first one. The scan keeps the choice among the offers of the text it has read.

## Main definitions

* `Split.Weakest t i rank`: the offer of `t` at `i` is the one to choose

## Main results

* `index?_eq_none_iff`, `index?_eq_some_iff`: the place to split is that of the weakest offer
* `index?_of_cut_negation`, `index?_of_cut_binary`: where a text is cut
* `cut_whole`, `cut_negation`, `cut_binary`: what a text consists of, by its weakest offer
-/

namespace Reckon

namespace Split

open Nesting

/-! ## The choice -/

/-- Of two offers the first is to be chosen: it is weaker, or it is equally weak and, unless both
are negations, not before the other. -/
def Precedes (i rank j rank' : Nat) : Prop :=
  rank ≤ rank' ∧ (rank' = rank → if rank < Operator.negationPriority then j ≤ i else i ≤ j)

/-- The offer of a text at `i` is the one to be chosen. -/
structure Weakest (t : Text) (i rank : Nat) : Prop where
  offers : Offers t i rank
  precedes : ∀ j rank', Offers t j rank' → Precedes i rank j rank'

theorem Weakest.eq {t : Text} {i j rank rank' : Nat} (h : Weakest t i rank)
    (h' : Weakest t j rank') : i = j ∧ rank = rank' := by
  obtain ⟨hle, heq⟩ := h.precedes j rank' h'.offers
  obtain ⟨hle', heq'⟩ := h'.precedes i rank h.offers
  obtain rfl : rank = rank' := by omega
  refine ⟨?_, rfl⟩
  -- Equally weak offers cannot both come before one another.
  have h₁ := heq rfl
  have h₂ := heq' rfl
  split at h₁ <;> simp_all <;> omega

theorem Weakest.rank_eq {p q : Text} {rank : Nat} (h : Weakest (p ++ '-' :: q) p.length rank)
    (hp : beginsOperand p.getLast? = true) : rank = Operator.negationPriority := by
  have hr := h.offers.rank?_eq
  rw [rank?_negation hp] at hr
  exact (Option.some.inj hr).symm

/-- In a balanced text, a negation that is the weakest offer is at the start. -/
theorem Weakest.eq_nil {p q : Text} {rank : Nat} (h : Weakest (p ++ '-' :: q) p.length rank)
    (hb : balanced (p ++ '-' :: q) = true) (hd : depthAfter 0 ('-' :: q) = 0)
    (hp : beginsOperand p.getLast? = true) : p = [] := by
  obtain rfl := h.rank_eq hp
  rcases List.eq_nil_or_concat p with rfl | ⟨p, d, rfl⟩
  · rfl
  rw [List.concat_eq_append] at *
  rw [List.getLast?_concat, beginsOperand, Bool.or_eq_true, beq_iff_eq] at hp
  rcases hp with hs | rfl
  -- An operator before the negation is offered, and is chosen before it.
  · obtain ⟨n, hn⟩ := Option.isSome_iff_exists.mp ((isSome_rank? p.getLast? d).trans hs)
    have hdepth : depthAfter 0 (d :: '-' :: q) = 0 := by
      rw [depthAfter_cons, deepen_of_not_isBracket (isBracket_of_rank? hn), hd]
    have ho : Offers (p ++ [d] ++ '-' :: q) p.length n :=
      ⟨p, d, '-' :: q, by simp, rfl, by rw [hdepth]; rfl, by simpa using hn⟩
    obtain ⟨hle, heq⟩ := h.precedes _ _ ho
    obtain rfl : n = Operator.negationPriority := Nat.le_antisymm (rank?_le hn) hle
    have hle' := heq rfl
    rw [if_neg (Nat.lt_irrefl _), List.length_append, List.length_singleton] at hle'
    omega
  · have := depthAfter_suffix_nonpos (balanced_of_offers hb hd rfl).1
    exact absurd this (by decide)

/-! ## The scan -/

/-- The part `p` of a text that ends at the depth `final` has at `i` an operator outside brackets of
the priority `rank`. -/
def Seen (final : Int) (p : Text) (i rank : Nat) : Prop :=
  ∃ s c q, p = s ++ c :: q ∧ s.length = i ∧ depthAfter 0 s = final ∧
    rank? s.getLast? c = some rank

theorem seen_concat {final : Int} {p : Text} {c : Char} {i rank : Nat} :
    Seen final (p ++ [c]) i rank ↔
      Seen final p i rank ∨
        (i = p.length ∧ depthAfter 0 p = final ∧ rank? p.getLast? c = some rank) := by
  constructor
  · rintro ⟨s, d, q, he, rfl, hd, hr⟩
    rcases List.eq_nil_or_concat q with rfl | ⟨q, d', rfl⟩
    · obtain ⟨rfl, rfl⟩ : p = s ∧ c = d := by simpa using he
      exact .inr ⟨rfl, hd, hr⟩
    · rw [List.concat_eq_append, ← List.cons_append, ← List.append_assoc] at he
      obtain ⟨rfl, -⟩ := List.append_inj' he rfl
      exact .inl ⟨s, d, q, rfl, rfl, hd, hr⟩
  · rintro (⟨s, d, q, rfl, rfl, hd, hr⟩ | ⟨rfl, hd, hr⟩)
    · exact ⟨s, d, q ++ [c], by simp, rfl, hd, hr⟩
    · exact ⟨p, c, [], rfl, rfl, hd, hr⟩

theorem Seen.lt {final : Int} {p : Text} {i rank : Nat} (h : Seen final p i rank) :
    i < p.length := by
  obtain ⟨s, c, q, rfl, rfl, -⟩ := h
  simp

/-- At the end of a text, what has been seen are its offers. -/
theorem seen_iff_offers {t : Text} {i rank : Nat} :
    Seen (depthAfter 0 t) t i rank ↔ Offers t i rank := by
  constructor
  · rintro ⟨s, c, q, rfl, rfl, hd, hr⟩
    refine ⟨s, c, q, rfl, rfl, ?_, by simpa using hr⟩
    rw [depthAfter_zero_append] at hd
    omega
  · rintro ⟨s, c, q, rfl, rfl, hd, hr⟩
    refine ⟨s, c, q, rfl, rfl, ?_, by simpa using hr⟩
    rw [depthAfter_zero_append]
    omega

/-- The best candidate so far is the choice among what has been seen. -/
def Keeps (final : Int) (p : Text) : Option Candidate → Prop
  | none => ∀ i rank, ¬ Seen final p i rank
  | some b => Seen final p b.index b.rank ∧
      ∀ j rank, Seen final p j rank → Precedes b.index b.rank j rank

/-- The scan after it has read the part `p` of a text that ends at the depth `final`. -/
structure Reads (final : Int) (p : Text) (s : Scan) : Prop where
  index : s.index = p.length
  depth : s.depth = depthAfter 0 p
  previous : s.previous = p.getLast?
  best : Keeps final p s.best

theorem Keeps.prefer {final : Int} {p : Text} {c : Char} {rank : Nat} {best : Option Candidate}
    (h : Keeps final p best) (hd : depthAfter 0 p = final)
    (hr : rank? p.getLast? c = some rank) :
    Keeps final (p ++ [c]) (some (prefer best ⟨p.length, rank⟩)) := by
  have hnew : Seen final (p ++ [c]) p.length rank := seen_concat.mpr (.inr ⟨rfl, hd, hr⟩)
  cases best with
  | none =>
    refine ⟨hnew, fun j rank' hs => ?_⟩
    rcases seen_concat.mp hs with hs | ⟨rfl, -, hr'⟩
    · exact absurd hs (h j rank')
    · obtain rfl : rank = rank' := Option.some.inj (hr.symm.trans hr')
      exact ⟨Nat.le_refl _, fun _ => by split <;> exact Nat.le_refl _⟩
  | some b =>
    obtain ⟨hb, hall⟩ := h
    have hlt := hb.lt
    simp only [Split.prefer]
    split
    · rename_i hbetter
      refine ⟨hnew, fun j rank' hs => ?_⟩
      show Precedes p.length rank j rank'
      rcases seen_concat.mp hs with hs | ⟨rfl, -, hr'⟩
      · obtain ⟨hle, -⟩ := hall j rank' hs
        have := hs.lt
        refine ⟨by omega, fun he => ?_⟩
        rw [if_pos (by omega)]
        exact Nat.le_of_lt this
      · obtain rfl : rank = rank' := Option.some.inj (hr.symm.trans hr')
        exact ⟨Nat.le_refl _, fun _ => by split <;> exact Nat.le_refl _⟩
    · rename_i hworse
      refine ⟨seen_concat.mpr (.inl hb), fun j rank' hs => ?_⟩
      rcases seen_concat.mp hs with hs | ⟨rfl, -, hr'⟩
      · exact hall j rank' hs
      · obtain rfl : rank = rank' := Option.some.inj (hr.symm.trans hr')
        refine ⟨by omega, fun he => ?_⟩
        rw [if_neg (by omega)]
        exact Nat.le_of_lt hlt

theorem Keeps.skip {final : Int} {p : Text} {c : Char} {best : Option Candidate}
    (h : Keeps final p best)
    (hn : ∀ rank, ¬ (depthAfter 0 p = final ∧ rank? p.getLast? c = some rank)) :
    Keeps final (p ++ [c]) best := by
  have hiff : ∀ i rank, Seen final (p ++ [c]) i rank ↔ Seen final p i rank := fun i rank =>
    seen_concat.trans (or_iff_left fun hs => hn rank hs.2)
  cases best with
  | none => exact fun i rank hs => h i rank ((hiff i rank).mp hs)
  | some b => exact ⟨(hiff _ _).mpr h.1, fun j rank hs => h.2 j rank ((hiff j rank).mp hs)⟩

/-- One character read. -/
theorem Reads.read {final : Int} {p : Text} {s : Scan} (h : Reads final p s) (c : Char) :
    Reads final (p ++ [c]) (s.read final c) where
  index := by simp [Scan.read, h.index]
  depth := by simp [Scan.read, h.depth]
  previous := by simp [Scan.read]
  best := by
    simp only [Scan.read, h.depth, h.previous, h.index]
    split
    · rename_i hd
      split
      · rename_i rank hr
        exact h.best.prefer hd hr
      · rename_i hr
        exact h.best.skip fun rank hs => by simp [hr] at hs
    · rename_i hd
      exact h.best.skip fun rank hs => hd hs.1

/-- A text read to its end. -/
theorem Reads.foldl {final : Int} {p : Text} {s : Scan} (h : Reads final p s) (t : Text) :
    Reads final (p ++ t) (t.foldl (Scan.read final) s) := by
  induction t generalizing p s with
  | nil => simpa using h
  | cons c t ih =>
    have := ih (h.read c)
    rwa [List.append_assoc, List.singleton_append] at this

theorem keeps_best (t : Text) :
    Keeps (depthAfter 0 t) t (t.foldl (Scan.read (depthAfter 0 t)) Scan.start).best := by
  have hstart : Reads (depthAfter 0 t) [] Scan.start :=
    ⟨rfl, rfl, rfl, fun i rank hs => absurd hs.lt (Nat.not_lt_zero i)⟩
  exact (hstart.foldl t).best

/-! ## The place to split -/

/-- The place to split is that of the weakest offer. -/
theorem index?_eq_some_iff {t : Text} {i : Nat} :
    index? t = some i ↔ ∃ rank, Weakest t i rank := by
  have hk := keeps_best t
  rw [index?]
  generalize (t.foldl (Scan.read (depthAfter 0 t)) Scan.start).best = best at hk
  cases best with
  | none =>
    refine ⟨fun h => absurd h (by simp), ?_⟩
    rintro ⟨rank, h⟩
    exact absurd (seen_iff_offers.mpr h.offers) (hk i rank)
  | some b =>
    have hb : Weakest t b.index b.rank :=
      ⟨seen_iff_offers.mp hk.1, fun j rank ho => hk.2 j rank (seen_iff_offers.mpr ho)⟩
    constructor
    · intro h
      obtain rfl : b.index = i := by simpa using h
      exact ⟨b.rank, hb⟩
    · rintro ⟨rank, h⟩
      rw [(hb.eq h).1.symm]
      rfl

/-- There is no place to split exactly when nothing is offered. -/
theorem index?_eq_none_iff {t : Text} : index? t = none ↔ ∀ i rank, ¬ Offers t i rank := by
  have hk := keeps_best t
  rw [index?]
  generalize (t.foldl (Scan.read (depthAfter 0 t)) Scan.start).best = best at hk
  cases best with
  | none => exact ⟨fun _ i rank ho => hk i rank (seen_iff_offers.mpr ho), fun _ => rfl⟩
  | some b =>
    refine ⟨fun h => absurd h (by simp), fun h => ?_⟩
    exact absurd (seen_iff_offers.mp hk.1) (h b.index b.rank)

/-- What stands around the place to split. -/
theorem exists_of_index? {t : Text} {i : Nat} (h : index? t = some i) :
    ∃ p c q rank, t = p ++ c :: q ∧ p.length = i ∧ Weakest t i rank ∧
      depthAfter 0 (c :: q) = 0 ∧ rank? p.getLast? c = some rank := by
  obtain ⟨rank, hw⟩ := index?_eq_some_iff.mp h
  obtain ⟨p, c, q, rfl, rfl, hd, hr⟩ := hw.offers
  exact ⟨p, c, q, rank, rfl, rfl, hw, by simpa using hd, by simpa using hr⟩

/-- A balanced text is split into balanced texts. -/
theorem balanced_of_index? {t : Text} {i : Nat} (hb : balanced t = true) (h : index? t = some i) :
    balanced (t.take i) = true ∧ balanced (t.drop (i + 1)) = true := by
  obtain ⟨p, c, q, rank, rfl, rfl, -, hd, hr⟩ := exists_of_index? h
  simpa using balanced_of_offers hb hd (isBracket_of_rank? hr)

/-! ## What a text consists of -/

theorem isNegation_append (p q : Text) (c : Char) :
    isNegation (p ++ c :: q) p.length = true ↔ c = '-' ∧ beginsOperand p.getLast? = true := by
  have hprevious : previous? (p ++ c :: q) p.length = p.getLast? :=
    previous?_append p (Nat.zero_le _)
  rw [isNegation, hprevious]
  simp

theorem cut_of_index?_eq_none {t : Text} (hne : t ≠ []) (h : index? t = none) :
    cut t = .whole := by
  simp [cut, hne, h]

theorem cut_of_index?_eq_some {t : Text} {i : Nat} (h : index? t = some i) :
    cut t = cutAt t i (index?_lt h) := by
  have hne : t ≠ [] := List.ne_nil_of_length_pos (Nat.zero_lt_of_lt (index?_lt h))
  simp [cut, hne, h]

/-- What a text consists of, by its place to split. -/
theorem cut_eq (t : Text) :
    (t = [] ∧ cut t = .empty) ∨ (t ≠ [] ∧ index? t = none ∧ cut t = .whole) ∨
      ∃ i, ∃ h : index? t = some i, cut t = cutAt t i (index?_lt h) := by
  by_cases hne : t = []
  · subst hne
    exact .inl ⟨rfl, rfl⟩
  · by_cases hi : index? t = none
    · exact .inr (.inl ⟨hne, hi, cut_of_index?_eq_none hne hi⟩)
    · obtain ⟨i, hi⟩ := Option.ne_none_iff_exists'.mp hi
      exact .inr (.inr ⟨i, hi, cut_of_index?_eq_some hi⟩)

/-- A text that consists of nothing is empty. -/
theorem eq_nil_of_cut {t : Text} (h : cut t = .empty) : t = [] := by
  rcases cut_eq t with ⟨rfl, -⟩ | ⟨-, -, hc⟩ | ⟨i, hi, hc⟩
  · rfl
  · rw [h] at hc
    cases hc
  · rw [h, cutAt] at hc
    split at hc <;> cases hc

/-- A text that is a negation is split at a minus that negates. -/
theorem index?_of_cut_negation {t operand : Text} {hlt : operand.length < t.length}
    (h : cut t = .negation operand hlt) :
    ∃ i, index? t = some i ∧ isNegation t i = true ∧ operand = t.drop (i + 1) := by
  rcases cut_eq t with ⟨-, hc⟩ | ⟨-, -, hc⟩ | ⟨i, hi, hc⟩
  · rw [h] at hc
    cases hc
  · rw [h] at hc
    cases hc
  · rw [h, cutAt] at hc
    split at hc
    · cases hc
      exact ⟨i, hi, ‹_›, rfl⟩
    · cases hc

/-- A text of two operands is split between them, not at a minus that negates. -/
theorem index?_of_cut_binary {t left right : Text} {c : Char}
    {hlt : left.length + right.length < t.length} (h : cut t = .binary c left right hlt) :
    ∃ i, index? t = some i ∧ isNegation t i = false ∧ left = t.take i ∧
      right = t.drop (i + 1) := by
  rcases cut_eq t with ⟨-, hc⟩ | ⟨-, -, hc⟩ | ⟨i, hi, hc⟩
  · rw [h] at hc
    cases hc
  · rw [h] at hc
    cases hc
  · rw [h, cutAt] at hc
    split at hc
    · cases hc
    · rename_i hneg
      cases hc
      exact ⟨i, hi, Bool.eq_false_iff.mpr hneg, rfl, rfl⟩

/-- A balanced text is split at a minus that negates only if that is its first character. -/
theorem eq_zero_of_isNegation {t : Text} {i : Nat} (hb : balanced t = true)
    (h : index? t = some i) (hn : isNegation t i = true) : i = 0 := by
  obtain ⟨p, c, q, rank, rfl, rfl, hw, hd, -⟩ := exists_of_index? h
  obtain ⟨rfl, hp⟩ := (isNegation_append p q c).mp hn
  rw [hw.eq_nil hb hd hp]
  rfl

/-- A text without offers is a whole. -/
theorem cut_whole {t : Text} (hne : t ≠ []) (h : ∀ i rank, ¬ Offers t i rank) :
    cut t = .whole :=
  cut_of_index?_eq_none hne (index?_eq_none_iff.mpr h)

/-- A text whose weakest offer is a negation is the negation of what follows. -/
theorem cut_negation {p q : Text} {rank : Nat} (h : Weakest (p ++ '-' :: q) p.length rank)
    (hp : beginsOperand p.getLast? = true) : ∃ hlt, cut (p ++ '-' :: q) = .negation q hlt := by
  have hneg := (isNegation_append p q '-').mpr ⟨rfl, hp⟩
  rw [cut_of_index?_eq_some (index?_eq_some_iff.mpr ⟨rank, h⟩), cutAt, if_pos hneg]
  simp
  omega

/-- A text whose weakest offer is no negation is that operator between two operands. -/
theorem cut_binary {p q : Text} {c : Char} {rank : Nat} (h : Weakest (p ++ c :: q) p.length rank)
    (hp : ¬ (c = '-' ∧ beginsOperand p.getLast? = true)) :
    ∃ hlt, cut (p ++ c :: q) = .binary c p q hlt := by
  have hneg : ¬ isNegation (p ++ c :: q) p.length = true := fun hn =>
    hp ((isNegation_append p q c).mp hn)
  rw [cut_of_index?_eq_some (index?_eq_some_iff.mpr ⟨rank, h⟩), cutAt, if_neg hneg]
  simp

/-- What a text consists of: nothing, a whole, or its weakest offer between what stands before and
after it. -/
theorem cut_cases (t : Text) :
    t = [] ∨ (t ≠ [] ∧ ∀ i rank, ¬ Offers t i rank) ∨
      ∃ p c q rank, t = p ++ c :: q ∧ Weakest t p.length rank ∧ depthAfter 0 (c :: q) = 0 ∧
        rank? p.getLast? c = some rank := by
  rcases cut_eq t with ⟨hnil, -⟩ | ⟨hne, hi, -⟩ | ⟨i, hi, -⟩
  · exact .inl hnil
  · exact .inr (.inl ⟨hne, index?_eq_none_iff.mp hi⟩)
  · obtain ⟨p, c, q, rank, ht, rfl, hw, hd, hr⟩ := exists_of_index? hi
    exact .inr (.inr ⟨p, c, q, rank, ht, hw, hd, hr⟩)

end Split

end Reckon

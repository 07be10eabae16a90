import Reckon.Proofs.Decimal.Literal
import Reckon.Proofs.Enclosure
import Reckon.Proofs.Split.Choice

/-!
# Sentences

The grammar of formulas: a literal without a sign, a sentence in brackets, a minus before a
sentence, or an operator between two sentences. It is ambiguous on purpose; which of the operators
is at the root is for the splitter to say. Wherever the splitter cuts a sentence, it finds sentences
again.

## Main definitions

* `Sentence`: the sentences of the grammar

## Main results

* `Sentence.offers_negation`, `Sentence.offers_binary`: the offers of a sentence
* `Sentence.strip`: stripping leads from sentences to sentences
* `Sentence.parts`: an operator between two texts cuts a sentence into sentences
* `Sentence.tail`: if the weakest offer of a sentence is a negation, a sentence follows it
-/

namespace Reckon

open Nesting Split

namespace BinaryOp

theorem isBracket_symbol (op : BinaryOp) : isBracket op.symbol = false := by
  cases op <;> rfl

theorem negationSymbol_ne_symbol (op : BinaryOp) : Operator.negationSymbol ≠ op.symbol := by
  cases op <;> decide

theorem beginsOperand_symbol (op : BinaryOp) : beginsOperand (some op.symbol) = true := by
  cases op <;> rfl

theorem priority_lt (op : BinaryOp) : op.priority < Operator.negationPriority := by
  cases op <;> decide

/-- After an operand, a binary operator is what its character says. -/
theorem rank?_symbol (op : BinaryOp) {previous : Option Char}
    (h : beginsOperand previous = false) : rank? previous op.symbol = some op.priority := by
  rw [rank?_of_not_negation (by simp [h])]
  exact congrArg (Option.map Operator.priority) (Operator.ofSymbol?_symbol (.binary op))

end BinaryOp

/-- No operand begins after a character of a literal, which is neither an operator nor a bracket. -/
theorem Decimal.Unsigned.beginsOperand_eq_false {l : Text} (hl : Decimal.Unsigned l) {c : Char}
    (hc : c ∈ l) : beginsOperand (some c) = false := by
  have hb := hl.not_isBracket hc
  rw [isBracket, Bool.or_eq_false_iff] at hb
  rw [beginsOperand, hl.not_operator hc, hb.1]
  rfl

/-- The sentences: literals without a sign, and sentences in brackets, after a minus or with an
operator between them. -/
inductive Sentence : Text → Prop where
  | literal {l : Text} (unsigned : Decimal.Unsigned l) : Sentence l
  | bracket {w : Text} : Sentence w → Sentence ('(' :: (w ++ [')']))
  | negation {w : Text} : Sentence w → Sentence ('-' :: w)
  | binary (op : BinaryOp) {w w' : Text} :
      Sentence w → Sentence w' → Sentence (w ++ op.symbol :: w')

namespace Sentence

variable {w w' : Text}

/-! ## Brackets and ends -/

theorem balanced (h : Sentence w) : Nesting.balanced w = true := by
  induction h with
  | literal hl => exact balanced_of_not_isBracket fun c hc => hl.not_isBracket hc
  | bracket _ ih => exact balanced_bracketed ih
  | negation _ ih => exact (balanced_append_iff (s := ['-']) rfl).mpr ⟨rfl, ih⟩
  | binary op _ _ ih ih' =>
    have hop : depthAfter 0 [op.symbol] = 0 := deepen_of_not_isBracket op.isBracket_symbol 0
    refine (balanced_append_iff (depthAfter_of_balanced ih)).mpr ⟨ih, ?_⟩
    refine (balanced_append_iff (s := [op.symbol]) hop).mpr ⟨?_, ih'⟩
    exact balanced_of_not_isBracket (by simpa using op.isBracket_symbol)

/-- No operand begins after a sentence. -/
theorem last (h : Sentence w) : beginsOperand w.getLast? = false := by
  induction h with
  | @literal l hl =>
    rw [List.getLast?_eq_some_getLast hl.ne_nil]
    exact hl.beginsOperand_eq_false (List.getLast_mem hl.ne_nil)
  | @bracket w _ _ =>
    rw [← List.cons_append, List.getLast?_concat]
    rfl
  | @negation w _ ih =>
    cases w with
    | nil => cases ih
    | cons c w => rwa [List.getLast?_cons_cons]
  | @binary op w w' _ _ _ ih' =>
    cases w' with
    | nil => cases ih'
    | cons c w' => rwa [List.getLast?_append, List.getLast?_cons_cons, List.getLast?_cons] at *

theorem ne_nil (h : Sentence w) : w ≠ [] := by
  rintro rfl
  cases h.last

theorem negationSymbol_notMem (h : Sentence w) : Operator.negationSymbol ∉ w := by
  induction h with
  | literal hl => exact hl.notMem rfl
  | bracket _ ih => simpa [Operator.negationSymbol] using ih
  | negation _ ih => simpa [Operator.negationSymbol] using ih
  | binary op _ _ ih ih' => simp [ih, ih', op.negationSymbol_ne_symbol]

/-! ## Offers -/

theorem not_offers_literal (h : Decimal.Unsigned w) (i rank : Nat) : ¬ Offers w i rank :=
  not_offersIn_of_forall fun _ hc => h.not_operator hc

theorem not_offers_bracket (h : Sentence w) (i rank : Nat) :
    ¬ Offers ('(' :: (w ++ [')'])) i rank :=
  not_offersIn_group h.balanced (Int.le_refl 0)

/-- A minus before a sentence is offered as a negation, with the offers of the sentence after
it. -/
theorem offers_negation (h : Sentence w) {i rank : Nat} :
    Offers ('-' :: w) i rank ↔
      (i = 0 ∧ rank = Operator.negationPriority) ∨ ∃ k, i = k + 1 ∧ Offers w k rank := by
  have hd : depthAfter 0 ('-' :: w) = 0 := depthAfter_of_balanced h.balanced
  rw [Offers, offersIn_cons, hd, rank?_negation rfl]
  refine or_congr ?_ (exists_congr fun k => and_congr_right fun _ => offersIn_congr rfl)
  simp [eq_comm]

/-- An operator between two sentences is offered next to the offers of both. -/
theorem offers_binary (op : BinaryOp) (h : Sentence w) (h' : Sentence w') {i rank : Nat} :
    Offers (w ++ op.symbol :: w') i rank ↔
      Offers w i rank ∨ (i = w.length ∧ rank = op.priority) ∨
        ∃ k, i = w.length + (k + 1) ∧ Offers w' k rank := by
  have hd : depthAfter 0 (op.symbol :: w') = 0 := by
    rw [depthAfter_cons, deepen_of_not_isBracket op.isBracket_symbol]
    exact depthAfter_of_balanced h'.balanced
  -- Behind an operator an operand begins, as at the start of a text.
  have hs : ∀ k, OffersIn (some op.symbol) w' 0 k rank ↔ Offers w' k rank := fun k =>
    offersIn_congr (by rw [op.beginsOperand_symbol]; rfl)
  rw [Offers, offersIn_append, hd]
  simp only [offersIn_cons, hd, Option.or_none, op.rank?_symbol h.last, hs]
  refine or_congr Iff.rfl ⟨?_, ?_⟩
  · rintro ⟨k, rfl, ⟨rfl, -, hr⟩ | ⟨k, rfl, ho⟩⟩
    · exact .inl ⟨rfl, (Option.some.inj hr).symm⟩
    · exact .inr ⟨k, rfl, ho⟩
  · rintro (⟨rfl, rfl⟩ | ⟨k, rfl, ho⟩)
    · exact ⟨0, rfl, .inl ⟨rfl, rfl, rfl⟩⟩
    · exact ⟨k + 1, rfl, .inr ⟨k, rfl, ho⟩⟩

/-! ## Cutting a sentence -/

/-- After a character that an operand may follow, what has been read before it does not matter. -/
theorem beginsOperand_append_cons {c : Char} (hc : beginsOperand (some c) = true) (p q : Text) :
    beginsOperand (p ++ c :: q).getLast? = beginsOperand q.getLast? := by
  cases q with
  | nil => rw [List.getLast?_concat, hc]; rfl
  | cons d q => rw [List.getLast?_append, List.getLast?_cons_cons, List.getLast?_cons]; rfl

theorem of_bracketed {g : Text} (hg : Nesting.balanced g = true)
    (h : Sentence ('(' :: (g ++ [')']))) : Sentence g := by
  generalize ht : '(' :: (g ++ [')']) = t at h
  cases h with
  | literal hl => exact absurd (ht ▸ List.mem_cons_self ..) (hl.notMem rfl)
  | bracket h =>
    obtain rfl := List.append_cancel_right (List.cons.inj ht).2
    exact h
  | negation => simp at ht
  | binary op h h' =>
    -- the operator would be offered, but a group in brackets offers nothing
    have ho := (offers_binary op h h').mpr (.inr (.inl ⟨rfl, rfl⟩))
    exact absurd (ht ▸ ho) (not_offersIn_group hg (Int.le_refl 0))

/-- Stripping leads from sentences to sentences. -/
theorem strip (h : Sentence w) : Sentence (Brackets.strip w) :=
  Brackets.strip_of (P := Sentence) (fun _ hg hw => of_bracketed hg hw) h

/-- Stripping comes from sentences only. -/
theorem of_strip (h : Sentence (Brackets.strip w)) : Sentence w :=
  Brackets.of_strip (P := Sentence) (fun _ _ hw => hw.bracket) h

/-- A stripped sentence that offers nothing is a literal. -/
theorem unsigned (h : Sentence w) (hs : Brackets.strip w = w) (ho : ∀ i rank, ¬ Offers w i rank) :
    Decimal.Unsigned w := by
  have he := Brackets.not_enclosed_strip w
  rw [hs] at he
  cases h with
  | literal hl => exact hl
  | bracket hw => exact absurd (Brackets.enclosed_iff.mpr ⟨_, hw.balanced, rfl⟩) he
  | negation hw => exact absurd ((offers_negation hw).mpr (.inl ⟨rfl, rfl⟩)) (ho _ _)
  | binary op hw hw' =>
    exact absurd ((offers_binary op hw hw').mpr (.inr (.inl ⟨rfl, rfl⟩))) (ho _ _)

/-- An operator between two texts cuts a sentence into sentences. -/
theorem parts {t p q : Text} {c : Char} {rank : Nat} (h : Sentence t) (ht : t = p ++ c :: q)
    (ho : Offers t p.length rank) (hn : ¬ (c = '-' ∧ beginsOperand p.getLast? = true)) :
    ∃ op : BinaryOp, c = op.symbol ∧ Sentence p ∧ Sentence q := by
  induction h generalizing p q with
  | literal hl => exact absurd ho (not_offers_literal hl _ _)
  | bracket hw _ => exact absurd ho (not_offers_bracket hw _ _)
  | @negation w hw ih =>
    cases p with
    | nil => exact absurd ⟨(List.cons.inj ht).1.symm, rfl⟩ hn
    | cons d p =>
      obtain ⟨rfl, rfl⟩ : '-' = d ∧ w = p ++ c :: q := by simpa using ht
      rcases (offers_negation hw).mp ho with ⟨hp, -⟩ | ⟨k, hp, ho⟩
      · simp at hp
      · obtain rfl : p.length = k := by simpa using hp
        rw [← List.nil_append ('-' :: p), beginsOperand_append_cons rfl] at hn
        obtain ⟨op, hc, hp, hq⟩ := ih rfl ho hn
        exact ⟨op, hc, hp.negation, hq⟩
  | @binary op w w' hw hw' ih ih' =>
    rcases List.append_eq_append_iff.mp ht with ⟨a, rfl, ha⟩ | ⟨a, rfl, ha⟩
    · cases a with
      | nil =>
        obtain ⟨rfl, rfl⟩ : op.symbol = c ∧ w' = q := by simpa using ha
        exact ⟨op, rfl, by simpa using hw, hw'⟩
      | cons d a =>
        obtain ⟨rfl, rfl⟩ : op.symbol = d ∧ w' = a ++ c :: q := by simpa using ha
        rw [beginsOperand_append_cons op.beginsOperand_symbol] at hn
        rw [List.length_append, List.length_cons, offers_binary op hw hw'] at ho
        rcases ho with ho | ⟨hk, -⟩ | ⟨k, hk, ho⟩
        · have := ho.lt
          omega
        · omega
        · obtain rfl : a.length = k := by omega
          obtain ⟨op', hc, hp, hq⟩ := ih' rfl ho hn
          exact ⟨op', hc, hw.binary op hp, hq⟩
    · cases a with
      | nil =>
        obtain ⟨rfl, rfl⟩ : c = op.symbol ∧ q = w' := by simpa using ha
        exact ⟨op, rfl, by simpa using hw, hw'⟩
      | cons d a =>
        obtain ⟨rfl, rfl⟩ : c = d ∧ q = a ++ op.symbol :: w' := by simpa using ha
        rw [offers_binary op hw hw', List.length_append, List.length_cons] at ho
        rcases ho with ho | ⟨hk, -⟩ | ⟨k, hk, -⟩
        · obtain ⟨op', hc, hp, hq⟩ := ih rfl ho hn
          exact ⟨op', hc, hp, hq.binary op hw'⟩
        · omega
        · omega

/-- If the weakest offer of a sentence is a negation, it is at the start, before a sentence. -/
theorem tail {p q : Text} {rank : Nat} (h : Sentence (p ++ '-' :: q))
    (ho : Weakest (p ++ '-' :: q) p.length rank) (hp : beginsOperand p.getLast? = true) :
    p = [] ∧ Sentence q := by
  obtain rfl := ho.rank_eq hp
  generalize ht : p ++ '-' :: q = t at h ho
  cases h with
  | literal hl => exact absurd ho.offers (not_offers_literal hl _ _)
  | bracket hw => exact absurd ho.offers (not_offers_bracket hw _ _)
  | @negation w hw =>
    -- the minus in front is offered as well, and no negation before it
    have hle := (ho.precedes 0 _ ((offers_negation hw).mpr (.inl ⟨rfl, rfl⟩))).2 rfl
    rw [if_neg (Nat.lt_irrefl _)] at hle
    obtain rfl : p = [] := List.eq_nil_of_length_eq_zero (Nat.le_zero.mp hle)
    obtain rfl := (List.cons.inj ht).2
    exact ⟨rfl, hw⟩
  | binary op hw hw' =>
    -- the operator between the sentences would be weaker than the negation
    have hle := (ho.precedes _ _ ((offers_binary op hw hw').mpr (.inr (.inl ⟨rfl, rfl⟩)))).1
    have := op.priority_lt
    omega

end Sentence

end Reckon

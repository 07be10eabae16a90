import Reckon.Proofs.Sentence
import Reckon.Proofs.Split.Role

/-!
# Derivations

A sentence may have many derivations, as the grammar does not say how operators are grouped. Yet all
of them have their operands at the same places: an operand begins exactly where the character
before allows one. So a minus negates exactly if an operand of the derivation begins with it.

## Main definitions

* `Derivation w`: the derivations of the text `w` in the grammar of sentences
* `Derivation.Begins d i`: an operand of the derivation `d` begins at the place `i`

## Main results

* `nonempty_derivation_iff`: the sentences are the texts that have a derivation
* `Derivation.beginsOperand_previous?_iff`: where the operands of a derivation begin
* `Derivation.isNegation_iff`: the minuses that negate are those that an operand begins with
-/

namespace Reckon

open Split

/-- The derivations of a text: it is a literal without a sign, or it is put together from other
derived texts by brackets, by a minus before it or by an operator. -/
inductive Derivation : Text → Type where
  | literal {l : Text} (unsigned : Decimal.Unsigned l) : Derivation l
  | bracket {w : Text} (d : Derivation w) : Derivation ('(' :: (w ++ [')']))
  | negation {w : Text} (d : Derivation w) : Derivation ('-' :: w)
  | binary (op : BinaryOp) {w w' : Text} (left : Derivation w) (right : Derivation w') :
      Derivation (w ++ op.symbol :: w')

variable {w : Text}

namespace Derivation

theorem sentence (d : Derivation w) : Sentence w := by
  induction d with
  | literal hl => exact .literal hl
  | bracket _ ih => exact .bracket ih
  | negation _ ih => exact .negation ih
  | binary op _ _ ih ih' => exact .binary op ih ih'

end Derivation

/-- The sentences are the texts that have a derivation. -/
theorem nonempty_derivation_iff : Nonempty (Derivation w) ↔ Sentence w := by
  refine ⟨fun ⟨d⟩ => d.sentence, fun h => ?_⟩
  induction h with
  | literal hl => exact ⟨.literal hl⟩
  | bracket _ ih => exact ih.map .bracket
  | negation _ ih => exact ih.map .negation
  | binary op _ _ ih ih' => exact ih.elim fun d => ih'.map (.binary op d)

namespace Derivation

/-- An operand of a derivation begins at the place `i`. The operands are all the derived texts that
a derivation is made of, the whole one among them. -/
def Begins : {w : Text} → Derivation w → (i : Nat) → Prop
  | _, literal _, i => i = 0
  | _, bracket d, i | _, negation d, i => i = 0 ∨ ∃ k, i = k + 1 ∧ d.Begins k
  | _, binary (w := w) _ left right, i =>
    left.Begins i ∨ ∃ k, i = w.length + (k + 1) ∧ right.Begins k

section Begins

variable {w' : Text} {d : Derivation w} {right : Derivation w'} {i : Nat}

@[simp] theorem begins_bracket_succ : (bracket d).Begins (i + 1) ↔ d.Begins i := by
  simp [Begins]

@[simp] theorem begins_negation_succ : (negation d).Begins (i + 1) ↔ d.Begins i := by
  simp [Begins]

/-- An operand begins in the text. -/
theorem Begins.lt (h : d.Begins i) : i < w.length := by
  induction d generalizing i with
  | literal hl =>
    obtain rfl : i = 0 := h
    exact List.length_pos_iff.mpr hl.ne_nil
  | bracket d ih =>
    rcases h with rfl | ⟨k, rfl, h⟩
    · exact Nat.zero_lt_succ _
    · have := ih h
      rw [List.length_cons, List.length_append]
      omega
  | negation d ih =>
    rcases h with rfl | ⟨k, rfl, h⟩
    · exact Nat.zero_lt_succ _
    · exact Nat.succ_lt_succ (ih h)
  | binary op left right ih ih' =>
    rw [List.length_append, List.length_cons]
    rcases h with h | ⟨k, rfl, h⟩
    · have := ih h
      omega
    · have := ih' h
      omega

theorem begins_binary_of_le (op : BinaryOp) (hi : i ≤ w.length) :
    (binary op d right).Begins i ↔ d.Begins i := by
  refine or_iff_left ?_
  rintro ⟨k, rfl, -⟩
  omega

theorem begins_binary_add (op : BinaryOp) :
    (binary op d right).Begins (w.length + (i + 1)) ↔ right.Begins i := by
  constructor
  · rintro (h | ⟨k, hk, h⟩)
    · have := h.lt
      omega
    · obtain rfl : i = k := by omega
      exact h
  · exact fun h => .inr ⟨i, rfl, h⟩

/-- The operands of a derivation begin where the character before allows it. None begins at the end
of the text. -/
theorem beginsOperand_previous?_iff (d : Derivation w) (hi : i ≤ w.length) :
    beginsOperand (previous? w i) = true ↔ d.Begins i := by
  induction d generalizing i with
  | @literal l hl =>
    cases i with
    | zero => exact iff_of_true rfl rfl
    | succ i =>
      rw [previous?, List.getElem?_eq_getElem hi,
        hl.beginsOperand_eq_false (List.getElem_mem hi)]
      exact iff_of_false Bool.false_ne_true (Nat.succ_ne_zero i)
  | @bracket w d ih =>
    cases i with
    | zero => exact iff_of_true rfl (.inl rfl)
    | succ i =>
      have hle : i ≤ (w ++ [')']).length := Nat.le_of_succ_le_succ hi
      rw [begins_bracket_succ, beginsOperand_previous?_cons rfl hle]
      rw [List.length_append, List.length_singleton] at hle
      rcases Nat.le_or_eq_of_le_succ hle with hle | rfl
      · rw [previous?_append_left hle, ih hle]
      · refine iff_of_false ?_ fun h => Nat.not_succ_lt_self h.lt
        rw [previous?, List.getElem?_concat_length]
        decide
  | @negation w d ih =>
    cases i with
    | zero => exact iff_of_true rfl (.inl rfl)
    | succ i =>
      have hle : i ≤ w.length := Nat.le_of_succ_le_succ hi
      rw [begins_negation_succ, beginsOperand_previous?_cons rfl hle, ih hle]
  | @binary op w w' left right ih ih' =>
    rw [List.length_append, List.length_cons] at hi
    by_cases hleft : i ≤ w.length
    · rw [begins_binary_of_le op hleft, previous?_append_left hleft, ih hleft]
    · obtain ⟨k, rfl⟩ : ∃ k, i = w.length + (k + 1) := ⟨i - w.length - 1, by omega⟩
      have hle : k ≤ w'.length := by omega
      rw [begins_binary_add, beginsOperand_previous?_append_cons op.beginsOperand_symbol hle,
        ih' hle]

end Begins

/-- The minuses that negate are those that an operand begins with. -/
theorem isNegation_iff (d : Derivation w) {i : Nat} (hi : w[i]? = some '-') :
    isNegation w i = true ↔ d.Begins i := by
  have hlt := (List.getElem?_eq_some_iff.mp hi).1
  rw [isNegation, hi, beq_self_eq_true, Bool.true_and,
    d.beginsOperand_previous?_iff (Nat.le_of_lt hlt)]

end Derivation

end Reckon

import Reckon.Split

/-!
# The role of a minus in a part of a text

Whether a minus negates is told by the character before it. A part of a text that stands where an
operand may begin can be looked at by itself: its first place has no character before it then, and
the other places have the same one.

## Main results

* `previous?_append`, `previous?_append_left`: the character before a place in a part of a text
* `beginsOperand_previous?_append`, `beginsOperand_previous?_append_cons`: a part that stands where
  an operand may begin is read as from the start of a text
* `isNegation_part`: a minus in such a part has the role that it has in the text
-/

namespace Reckon

namespace Split

variable {s u : Text} {k : Nat}

/-- What follows a place does not matter for the character before it. -/
theorem previous?_append_left (hk : k ≤ s.length) (t : Text) :
    previous? (s ++ t) k = previous? s k := by
  cases k with
  | zero => rfl
  | succ k => exact List.getElem?_append_left hk

/-- Before the first character of the second part stands the last one of the first part. -/
theorem previous?_append (s : Text) (hk : k ≤ u.length) :
    previous? (s ++ u) (s.length + k) = (previous? u k).or s.getLast? := by
  cases k with
  | zero =>
    rcases List.eq_nil_or_concat s with rfl | ⟨s, c, rfl⟩
    · rfl
    · simp [previous?]
  | succ k =>
    have hget : (s ++ u)[s.length + k]? = u[k]? := by
      rw [List.getElem?_append_right (Nat.le_add_right ..), Nat.add_sub_cancel_left]
    rw [← Nat.add_assoc, previous?, previous?, hget, List.getElem?_eq_getElem hk]
    rfl

/-- A part that stands where an operand may begin is read as from the start of a text. -/
theorem beginsOperand_previous?_append (hs : beginsOperand s.getLast? = true)
    (hk : k ≤ u.length) :
    beginsOperand (previous? (s ++ u) (s.length + k)) = beginsOperand (previous? u k) := by
  rw [previous?_append s hk]
  cases previous? u k with
  | none => exact hs
  | some c => rfl

/-- Behind an operator or an opening bracket a text is read as from its start. -/
theorem beginsOperand_previous?_append_cons {c : Char} (hc : beginsOperand (some c) = true)
    (hk : k ≤ u.length) (s : Text) :
    beginsOperand (previous? (s ++ c :: u) (s.length + (k + 1))) =
      beginsOperand (previous? u k) := by
  have hlast : beginsOperand (s ++ [c]).getLast? = true := by rwa [List.getLast?_concat]
  have hplace : s.length + (k + 1) = (s ++ [c]).length + k := by
    rw [List.length_append, List.length_singleton]
    omega
  rw [List.append_cons, hplace, beginsOperand_previous?_append hlast hk]

theorem beginsOperand_previous?_cons {c : Char} (hc : beginsOperand (some c) = true)
    (hk : k ≤ u.length) :
    beginsOperand (previous? (c :: u) (k + 1)) = beginsOperand (previous? u k) := by
  rw [← beginsOperand_previous?_append_cons hc hk [], List.length_nil, Nat.zero_add]
  rfl

/-- A minus in a part that stands where an operand may begin has the role that it has in the
text. -/
theorem isNegation_part (hs : beginsOperand s.getLast? = true) (hk : k < u.length) (t : Text) :
    isNegation (s ++ (u ++ t)) (s.length + k) = isNegation u k := by
  have hget : (s ++ (u ++ t))[s.length + k]? = u[k]? := by
    rw [List.getElem?_append_right (Nat.le_add_right ..), Nat.add_sub_cancel_left,
      List.getElem?_append_left hk]
  have hle : k ≤ (u ++ t).length := by
    rw [List.length_append]
    omega
  rw [isNegation, isNegation, hget, beginsOperand_previous?_append hs hle,
    previous?_append_left (Nat.le_of_lt hk)]

end Split

end Reckon

import Reckon.Nesting
import Reckon.Surface

/-!
# Enclosing brackets

A pair of brackets encloses a text when the text opens with one, ends with its partner, and is
balanced. Such pairs say nothing and are stripped.

## Main definitions

* `Brackets.enclosed`: whether one pair encloses the whole text
* `Brackets.strip`: the text without its enclosing pairs
* `Brackets.normalize`: the folded and stripped formula
-/

namespace Reckon

namespace Brackets

/-- Whether one matching pair of brackets encloses the whole text. -/
def enclosed (t : Text) : Bool :=
  t.head? == some '(' && t.getLast? == some ')' && Nesting.balanced t &&
    Nesting.dropPoint t == t.length - 1

/-- The text without its first and its last character. -/
def inner (t : Text) : Text := (t.drop 1).dropLast

theorem length_inner_lt {t : Text} (h : enclosed t = true) : (inner t).length < t.length := by
  cases t with
  | nil => simp [enclosed] at h
  | cons c t =>
    have : (inner (c :: t)).length = t.length - 1 := by simp [inner]
    rw [this, List.length_cons]
    omega

/-- Strips enclosing pairs of brackets until none is left. -/
def strip (t : Text) : Text :=
  if h : enclosed t = true then
    have := length_inner_lt h
    strip (inner t)
  else t
termination_by t.length

theorem strip_of_enclosed {t : Text} (h : enclosed t = true) : strip t = strip (inner t) := by
  rw [strip]; simp [h]

theorem strip_of_not_enclosed {t : Text} (h : ¬ enclosed t = true) : strip t = t := by
  rw [strip]; simp [h]

/-- A stripped text has no enclosing pair. -/
theorem not_enclosed_strip (t : Text) : ¬ enclosed (strip t) = true := by
  fun_induction strip t with
  | case1 _ _ _ ih => exact ih
  | case2 _ h => exact h

theorem length_strip_le (t : Text) : (strip t).length ≤ t.length := by
  fun_induction strip t with
  | case1 t h hlt ih => omega
  | case2 _ h => exact Nat.le_refl _

/-- A formula with its spellings folded and its enclosing brackets stripped. -/
def normalize (formula : Text) : Text := strip (Surface.fold formula)

end Brackets

end Reckon

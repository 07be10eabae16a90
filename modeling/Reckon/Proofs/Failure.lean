import Reckon.Failure

/-!
# Wordings

The wording of a failure tells its cause, the number or the signal in it included. So what holds of
the cause may be said of the wording, which is all that a reader of the failure sees.

## Main results

* `Cause.message_inj`: different causes are worded differently
-/

namespace Reckon

namespace Cause

/-- Different causes are worded differently. -/
theorem message_inj {a b : Cause} : a.message = b.message ↔ a = b := by
  constructor
  · intro h
    unfold message at h
    have hlist := congrArg String.toList h
    -- The fixed parts differ near their beginning, unless the cause is the same up to a parameter.
    cases a with
    | arithmetic s =>
      cases b with
      | arithmetic s' => revert h; cases s <;> cases s' <;> decide
      | _ => simp at hlist
    | leftover n =>
      cases b with
      | leftover m =>
        have hdigits : Nat.toDigits 10 n = Nat.toDigits 10 m := by simpa using hlist
        have hnumber := congrArg (Nat.ofDigitChars 10 · 0) hdigits
        simpa using hnumber
      | _ => simp at hlist
    | _ => cases b <;> simp at hlist ⊢
  · rintro rfl
    rfl

end Cause

end Reckon

import Mathlib.Data.List.TakeWhile
import Reckon.Decimal.Literal
import Reckon.Operator
import Reckon.Proofs.Nesting.Balance
import Reckon.Proofs.Numeral

/-!
# Reading literals

What a literal consists of: a body of digits with at most one point, perhaps a sign before it and a
line feed after it. No character of a literal without a sign is an operator or a bracket, so such a
literal is never split.

## Main definitions

* `Decimal.Digits`: the texts of decimal digits
* `Decimal.Body`: what is left of a literal without sign and line feed
* `Decimal.Unsigned`: a literal without a sign

## Main results

* `ofUnsigned?_whole`, `ofUnsigned?_pointed`: what a body is read as
* `exists_ofDigits_of_ofLiteral?`: what a literal is read as
* `Unsigned.mem`: the characters of a literal without a sign
* `Unsigned.not_operator`, `Unsigned.not_isBracket`: none of them is an operator or a bracket
* `unsigned_or_signed`: a literal has no sign or is one after a sign
-/

namespace Reckon

open DecimalDigit

/-! ## Digits -/

theorem Operator.isDigit_symbol (o : Operator) : isDigit o.symbol = false := by
  rcases o with op | _
  · cases op <;> decide
  · decide

theorem Operator.ofSymbol?_of_isDigit {c : Char} (h : isDigit c = true) :
    Operator.ofSymbol? c = none := by
  rw [Option.eq_none_iff_forall_ne_some]
  intro o ho
  rw [← Operator.symbol_of_ofSymbol? ho, Operator.isDigit_symbol] at h
  cases h

namespace Decimal

/-- A text of decimal digits. -/
def Digits (t : Text) : Prop := ∀ c ∈ t, isDigit c = true

theorem Digits.append {s t : Text} (hs : Digits s) (ht : Digits t) : Digits (s ++ t) := by
  intro c hc
  rcases List.mem_append.mp hc with hc | hc
  · exact hs c hc
  · exact ht c hc

theorem Digits.takeWhile (t : Text) : Digits (t.takeWhile isDigit) := fun _ hc =>
  List.mem_takeWhile_imp hc

/-! ## Bodies -/

/-- Digits without a point are a body. -/
theorem ofUnsigned?_whole {t : Text} (ht : Digits t) (hne : t ≠ []) (negative : Bool) :
    ofUnsigned? negative t = some (ofDigits negative t []) := by
  have htake : t.takeWhile isDigit = t := List.takeWhile_eq_self_iff.mpr ht
  have hdrop : t.dropWhile isDigit = [] := List.dropWhile_eq_nil_iff.mpr ht
  simp [ofUnsigned?, htake, hdrop, hne]

/-- Digits with a point among them are a body. -/
theorem ofUnsigned?_pointed {whole fraction : Text} (hw : Digits whole) (hf : Digits fraction)
    (hne : whole ≠ [] ∨ fraction ≠ []) (negative : Bool) :
    ofUnsigned? negative (whole ++ '.' :: fraction) =
      some (ofDigits negative whole fraction) := by
  have hpoint : ¬ isDigit '.' = true := by decide
  have htake : (whole ++ '.' :: fraction).takeWhile isDigit = whole := by
    rw [List.takeWhile_append_of_pos hw, List.takeWhile_cons_of_neg hpoint, List.append_nil]
  have hdrop : (whole ++ '.' :: fraction).dropWhile isDigit = '.' :: fraction := by
    rw [List.dropWhile_append_of_pos hw, List.dropWhile_cons_of_neg hpoint]
  have hall : fraction.all isDigit = true := List.all_eq_true.mpr hf
  have hempty : (whole.isEmpty && fraction.isEmpty) = false := by
    rw [Bool.and_eq_false_iff]
    simpa [List.isEmpty_eq_false_iff] using hne
  simp [ofUnsigned?, htake, hdrop, hall, hempty]

/-- What is left of a literal without its sign and the line feed at its end: digits, perhaps with a
point among them. -/
inductive Body : Text → Prop where
  | whole {t : Text} (digits : Digits t) (ne_nil : t ≠ []) : Body t
  | pointed {whole fraction : Text} (digits : Digits whole) (digits' : Digits fraction)
      (ne_nil : whole ≠ [] ∨ fraction ≠ []) : Body (whole ++ '.' :: fraction)

theorem Body.exists_ofUnsigned? {t : Text} (h : Body t) (negative : Bool) :
    ∃ a, ofUnsigned? negative t = some a := by
  cases h with
  | whole hd hne => exact ⟨_, ofUnsigned?_whole hd hne negative⟩
  | pointed hw hf hne => exact ⟨_, ofUnsigned?_pointed hw hf hne negative⟩

theorem body_of_ofUnsigned? {negative : Bool} {t : Text} {a : Decimal}
    (h : ofUnsigned? negative t = some a) : Body t := by
  have ht : t = t.takeWhile isDigit ++ t.dropWhile isDigit :=
    List.takeWhile_append_dropWhile.symm
  simp only [ofUnsigned?] at h
  split at h
  · rename_i hdrop
    rw [hdrop, List.append_nil] at ht
    split at h
    · cases h
    · rename_i hne
      rw [← ht] at hne
      exact .whole (ht ▸ Digits.takeWhile t) (by simpa using hne)
  · rename_i fraction hdrop
    rw [hdrop] at ht
    split at h
    · rename_i hf
      obtain ⟨hf, hne⟩ : Digits fraction ∧ (t.takeWhile isDigit ≠ [] ∨ fraction ≠ []) := by
        simpa [Digits] using hf
      rw [ht]
      exact .pointed (Digits.takeWhile t) hf hne
    · cases h
  · cases h

/-- A body is read as the digits of a whole and a fraction, which are all digits it has. -/
theorem exists_ofDigits_of_ofUnsigned? {negative : Bool} {t : Text} {a : Decimal}
    (h : ofUnsigned? negative t = some a) :
    ∃ whole fraction, a = ofDigits negative whole fraction ∧
      whole.length + fraction.length = t.countP isDigit := by
  cases body_of_ofUnsigned? h with
  | whole hd hne =>
    rw [ofUnsigned?_whole hd hne] at h
    exact ⟨t, [], (Option.some.inj h).symm, (List.countP_eq_length.mpr hd).symm⟩
  | @pointed whole fraction hw hf hne =>
    rw [ofUnsigned?_pointed hw hf hne] at h
    refine ⟨whole, fraction, (Option.some.inj h).symm, ?_⟩
    rw [List.countP_append, List.countP_cons_of_neg (by decide), List.countP_eq_length.mpr hw,
      List.countP_eq_length.mpr hf]

theorem Body.mem {t : Text} (h : Body t) {c : Char} (hc : c ∈ t) : isDigit c = true ∨ c = '.' := by
  cases h with
  | whole hd _ => exact .inl (hd c hc)
  | pointed hw hf _ =>
    rcases List.mem_append.mp hc with hc | hc
    · exact .inl (hw c hc)
    · rcases List.mem_cons.mp hc with hc | hc
      · exact .inr hc
      · exact .inl (hf c hc)

theorem Body.notMem {t : Text} (h : Body t) {c : Char} (hd : isDigit c = false) (hc : c ≠ '.') :
    c ∉ t := fun hmem => (h.mem hmem).elim (fun h => by simp [hd] at h) hc

theorem Body.withoutLineFeed {t : Text} (h : Body t) : withoutLineFeed t = t := by
  refine if_neg fun hlast => ?_
  exact h.notMem rfl (by decide) (List.mem_of_getLast? hlast)

theorem Body.readSign {t : Text} (h : Body t) : readSign t = (false, t) := by
  unfold Decimal.readSign
  split
  · exact absurd (List.mem_cons_self ..) (h.notMem rfl (by decide))
  · exact absurd (List.mem_cons_self ..) (h.notMem rfl (by decide))
  · rfl

/-! ## Literals -/

theorem withoutLineFeed_or (t : Text) :
    withoutLineFeed t = t ∨ t = withoutLineFeed t ++ ['\n'] := by
  unfold withoutLineFeed
  split
  · rename_i h
    exact .inr (List.dropLast_append_getLast? '\n' h).symm
  · exact .inl rfl

theorem withoutLineFeed_cons {c : Char} (hc : c ≠ '\n') (t : Text) :
    withoutLineFeed (c :: t) = c :: withoutLineFeed t := by
  cases t with
  | nil => simp [withoutLineFeed, hc]
  | cons d t =>
    simp only [withoutLineFeed, List.getLast?_cons_cons]
    split <;> simp

theorem countP_withoutLineFeed (t : Text) :
    (withoutLineFeed t).countP isDigit = t.countP isDigit := by
  rcases withoutLineFeed_or t with h | h
  · rw [h]
  · conv_rhs => rw [h, List.countP_append]
    rfl

theorem countP_readSign (t : Text) : (readSign t).2.countP isDigit = t.countP isDigit := by
  unfold readSign
  split
  · exact (List.countP_cons_of_neg (by decide)).symm
  · exact (List.countP_cons_of_neg (by decide)).symm
  · rfl

/-- A literal is read as the digits of a whole and a fraction, which are all digits it has. -/
theorem exists_ofDigits_of_ofLiteral? {t : Text} {a : Decimal} (h : ofLiteral? t = some a) :
    ∃ negative whole fraction, a = ofDigits negative whole fraction ∧
      whole.length + fraction.length = t.countP isDigit := by
  obtain ⟨whole, fraction, rfl, hcount⟩ := exists_ofDigits_of_ofUnsigned? h
  exact ⟨_, whole, fraction, rfl,
    hcount.trans ((countP_readSign _).trans (countP_withoutLineFeed t))⟩

/-- The coefficient has no more digits than the literal. -/
theorem ofDigits_coefficient_lt (negative : Bool) (whole fraction : Text) :
    (ofDigits negative whole fraction).coefficient < 10 ^ (whole.length + fraction.length) := by
  have hten : ∀ d ∈ (whole ++ fraction).map DecimalDigit.value, d < 10 := fun d hd => by
    obtain ⟨c, -, rfl⟩ := List.mem_map.mp hd
    exact Numeral.value_lt_ten c
  simpa [ofDigits] using Numeral.join_lt hten

/-- The characters that literals without a sign are made of. -/
def isLiteralChar (c : Char) : Bool := isDigit c || c == '.' || c == '\n'

/-- A literal without a sign. -/
def Unsigned (t : Text) : Prop := isLiteral t = true ∧ t.head? ≠ some '+' ∧ t.head? ≠ some '-'

instance (t : Text) : Decidable (Unsigned t) := by unfold Unsigned; infer_instance

theorem ofLiteral?_of_body {t : Text} (h : Body (withoutLineFeed t)) :
    ofLiteral? t = ofUnsigned? false (withoutLineFeed t) := by
  simp only [ofLiteral?, h.readSign]

theorem ofLiteral?_of_sign {t : Text} :
    ofLiteral? ('-' :: t) = ofUnsigned? true (withoutLineFeed t) ∧
      ofLiteral? ('+' :: t) = ofUnsigned? false (withoutLineFeed t) := by
  simp [ofLiteral?, withoutLineFeed_cons, readSign]

/-- The literals without a sign are the bodies with at most one line feed after them. -/
theorem unsigned_iff {t : Text} : Unsigned t ↔ Body (withoutLineFeed t) := by
  constructor
  · rintro ⟨hl, hplus, hminus⟩
    obtain ⟨a, ha⟩ := Option.isSome_iff_exists.mp hl
    -- The line feed at the end does not matter for the first character.
    have hhead : ∀ c, c ≠ '\n' → (withoutLineFeed t).head? = some c → t.head? = some c := by
      intro c _ h
      rcases withoutLineFeed_or t with he | he
      · rwa [he] at h
      · rw [he, List.head?_append, h]
        rfl
    simp only [ofLiteral?, readSign] at ha
    split at ha
    · rename_i u he
      exact absurd (hhead '-' (by decide) (by rw [he]; rfl)) hminus
    · rename_i u he
      exact absurd (hhead '+' (by decide) (by rw [he]; rfl)) hplus
    · exact body_of_ofUnsigned? ha
  · intro h
    obtain ⟨a, ha⟩ := h.exists_ofUnsigned? false
    have hhead : ∀ c, c ≠ '\n' → t.head? = some c → c ∈ withoutLineFeed t := by
      intro c hc hh
      obtain ⟨u, rfl⟩ : ∃ u, t = c :: u := by
        cases t with
        | nil => cases hh
        | cons d u => exact ⟨u, by rw [Option.some.inj hh]⟩
      rw [withoutLineFeed_cons hc]
      exact List.mem_cons_self ..
    refine ⟨?_, fun hh => ?_, fun hh => ?_⟩
    · rw [isLiteral, ofLiteral?_of_body h, ha]
      rfl
    · exact h.notMem rfl (by decide) (hhead '+' (by decide) hh)
    · exact h.notMem rfl (by decide) (hhead '-' (by decide) hh)

theorem Body.unsigned {t : Text} (h : Body t) : Unsigned t :=
  unsigned_iff.mpr (h.withoutLineFeed.symm ▸ h)

/-- A literal has no sign, or is one after a sign. -/
theorem unsigned_or_signed {t : Text} (h : isLiteral t = true) :
    Unsigned t ∨ ∃ u, Unsigned u ∧ (t = '+' :: u ∨ t = '-' :: u) := by
  by_cases hs : t.head? = some '+' ∨ t.head? = some '-'
  · refine .inr ?_
    obtain ⟨c, u, rfl⟩ : ∃ c u, t = c :: u := by
      cases t with
      | nil => simp at hs
      | cons c u => exact ⟨c, u, rfl⟩
    obtain ⟨a, ha⟩ := Option.isSome_iff_exists.mp h
    obtain rfl | rfl : c = '+' ∨ c = '-' := by simpa using hs
    · rw [ofLiteral?_of_sign.2] at ha
      exact ⟨u, unsigned_iff.mpr (body_of_ofUnsigned? ha), .inl rfl⟩
    · rw [ofLiteral?_of_sign.1] at ha
      exact ⟨u, unsigned_iff.mpr (body_of_ofUnsigned? ha), .inr rfl⟩
  · rw [not_or] at hs
    exact .inl ⟨h, hs⟩

namespace Unsigned

variable {t : Text} (h : Unsigned t)

include h

theorem ne_nil : t ≠ [] := by
  rintro rfl
  exact absurd h (by decide)

theorem mem {c : Char} (hc : c ∈ t) : isLiteralChar c = true := by
  have hb := unsigned_iff.mp h
  have hbody (hc : c ∈ withoutLineFeed t) : isLiteralChar c = true := by
    rcases hb.mem hc with hd | rfl
    · simp [isLiteralChar, hd]
    · rfl
  rcases withoutLineFeed_or t with he | he
  · rw [he] at hbody
    exact hbody hc
  · rw [he, List.mem_append, List.mem_singleton] at hc
    rcases hc with hc | rfl
    · exact hbody hc
    · rfl

theorem notMem {c : Char} (hc : isLiteralChar c = false) : c ∉ t := fun hmem => by
  simp [h.mem hmem] at hc

/-- No character of a literal without a sign is an operator. -/
theorem not_operator {c : Char} (hc : c ∈ t) : Operator.ofSymbol? c = none := by
  have hc := h.mem hc
  rw [isLiteralChar, Bool.or_eq_true, Bool.or_eq_true, beq_iff_eq, beq_iff_eq] at hc
  rcases hc with (hd | rfl) | rfl
  · exact Operator.ofSymbol?_of_isDigit hd
  · rfl
  · rfl

theorem ofText?_eq_none : Operator.ofText? t = none := by
  match t with
  | [] => rfl
  | _ :: _ :: _ => rfl
  | [c] => exact h.not_operator (List.mem_singleton_self c)

/-- No character of a literal without a sign is a bracket. -/
theorem not_isBracket {c : Char} (hc : c ∈ t) : Nesting.isBracket c = false := by
  rw [Bool.eq_false_iff]
  intro hb
  obtain rfl | rfl : c = '(' ∨ c = ')' := by simpa [Nesting.isBracket] using hb
  · exact h.notMem rfl hc
  · exact h.notMem rfl hc

end Unsigned

/-- No literal is an operator; a sign alone is none. -/
theorem ofText?_of_isLiteral {t : Text} (h : isLiteral t = true) : Operator.ofText? t = none := by
  rcases unsigned_or_signed h with hu | ⟨u, hu, rfl | rfl⟩
  · exact hu.ofText?_eq_none
  · obtain ⟨c, u, rfl⟩ := List.exists_cons_of_ne_nil hu.ne_nil
    rfl
  · obtain ⟨c, u, rfl⟩ := List.exists_cons_of_ne_nil hu.ne_nil
    rfl

/-- No literal has a bracket. -/
theorem bracket_notMem_of_isLiteral {t : Text} (h : isLiteral t = true) : '(' ∉ t := by
  have hu {u : Text} (hu : Unsigned u) : '(' ∉ u := hu.notMem rfl
  rcases unsigned_or_signed h with ht | ⟨u, ht, rfl | rfl⟩
  · exact hu ht
  · simpa using hu ht
  · simpa using hu ht

end Decimal

end Reckon

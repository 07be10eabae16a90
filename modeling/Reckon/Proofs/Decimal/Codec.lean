import Reckon.Proofs.Decimal.Places
import Reckon.Proofs.Decimal.Sign

/-!
# Reading and writing decimal numbers

The reader of literals is more generous than the writer: it takes any sign, superfluous zeros, a
point at either end, the digits of any script and a line feed after them. Still nothing but the
value of a literal and the number of its fraction digits gets into its canonical text, and that is
read as the value again.

## Main definitions

* `Decimal.Spells t negative whole fraction`: the text `t` is a literal with the digits `whole` and
  `fraction` before and after the point
* `Decimal.positional whole fraction`: the fraction that these digits stand for

## Main results

* `isLiteral_iff`: the literals are the texts that spell something
* `toRat_ofDigits`: what a literal spells is what it is read as
* `plain_eq_iff`: which numbers have the same plain notation
* `literal_codec`: what is read, what is written, and when canonical texts are the same
-/

namespace Reckon

namespace Decimal

open DecimalDigit

/-! ## The form of literals -/

/-- The signs of literals, and whether they make the number negative. -/
inductive Sign : Text → Bool → Prop where
  | absent : Sign [] false
  | plus : Sign ['+'] false
  | minus : Sign ['-'] true

/-- The text is digits with an optional point and fraction digits, or a point and at least one
digit; `whole` and `fraction` are the digits on either side of the point. -/
inductive Parts : (t whole fraction : Text) → Prop where
  | whole {w : Text} : Digits w → w ≠ [] → Parts w w []
  | pointed {w f : Text} : Digits w → w ≠ [] → Digits f → Parts (w ++ '.' :: f) w f
  | fraction {f : Text} : Digits f → f ≠ [] → Parts ('.' :: f) [] f

/-- The text is an optional sign, digits with an optional point, and at most one line feed. -/
inductive Spells : (t : Text) → (negative : Bool) → (whole fraction : Text) → Prop where
  | intro {sign body ending whole fraction : Text} {negative : Bool} : Sign sign negative →
      Parts body whole fraction → ending = [] ∨ ending = ['\n'] →
      Spells (sign ++ (body ++ ending)) negative whole fraction

variable {t whole fraction : Text} {negative : Bool}

theorem Parts.ofUnsigned?_eq (h : Parts t whole fraction) (negative : Bool) :
    ofUnsigned? negative t = some (ofDigits negative whole fraction) := by
  cases h with
  | whole hw hne => exact ofUnsigned?_whole hw hne negative
  | pointed hw hne hf => exact ofUnsigned?_pointed hw hf (.inl hne) negative
  | fraction hf hne =>
    have hnil : Digits [] := fun c hc => absurd hc List.not_mem_nil
    exact ofUnsigned?_pointed hnil hf (.inr hne) negative

theorem Parts.body (h : Parts t whole fraction) : Body t :=
  body_of_ofUnsigned? (h.ofUnsigned?_eq false)

theorem Body.exists_parts (h : Body t) : ∃ whole fraction, Parts t whole fraction := by
  cases h with
  | whole hd hne => exact ⟨t, [], .whole hd hne⟩
  | @pointed w f hw hf hne =>
    by_cases hw' : w = []
    · subst hw'
      exact ⟨[], f, .fraction hf (hne.resolve_left fun h => h rfl)⟩
    · exact ⟨w, f, .pointed hw hw' hf⟩

theorem withoutLineFeed_body_append {body ending : Text} (h : Body body)
    (he : ending = [] ∨ ending = ['\n']) : withoutLineFeed (body ++ ending) = body := by
  rcases he with rfl | rfl
  · rw [List.append_nil, h.withoutLineFeed]
  · simp [withoutLineFeed]

/-- What spells digits is read as the number with these digits. -/
theorem Spells.ofLiteral?_eq (h : Spells t negative whole fraction) :
    ofLiteral? t = some (ofDigits negative whole fraction) := by
  obtain ⟨hsign, hparts, hending⟩ := h
  have hbody := withoutLineFeed_body_append hparts.body hending
  cases hsign with
  | absent =>
    rw [List.nil_append, ofLiteral?_of_body (hbody.symm ▸ hparts.body), hbody]
    exact hparts.ofUnsigned?_eq false
  | plus =>
    rw [List.singleton_append, ofLiteral?_of_sign.2, hbody]
    exact hparts.ofUnsigned?_eq false
  | minus =>
    rw [List.singleton_append, ofLiteral?_of_sign.1, hbody]
    exact hparts.ofUnsigned?_eq true

theorem Unsigned.exists_spells {u sign : Text} (h : Unsigned u) (hs : Sign sign negative) :
    ∃ whole fraction, Spells (sign ++ u) negative whole fraction := by
  have hb := unsigned_iff.mp h
  obtain ⟨whole, fraction, hp⟩ := hb.exists_parts
  refine ⟨whole, fraction, ?_⟩
  rcases withoutLineFeed_or u with he | he
  · rw [he] at hp
    have hu := Spells.intro hs hp (.inl rfl)
    rwa [List.append_nil] at hu
  · rw [he]
    exact .intro hs hp (.inr rfl)

/-- The literals are the texts that spell something. -/
theorem isLiteral_iff :
    isLiteral t = true ↔ ∃ negative whole fraction, Spells t negative whole fraction := by
  constructor
  · intro h
    rcases unsigned_or_signed h with hu | ⟨u, hu, rfl | rfl⟩
    · exact ⟨false, hu.exists_spells .absent⟩
    · exact ⟨false, hu.exists_spells .plus⟩
    · exact ⟨true, hu.exists_spells .minus⟩
  · rintro ⟨negative, whole, fraction, h⟩
    rw [isLiteral, h.ofLiteral?_eq]
    rfl

/-! ## The value of literals -/

/-- The fraction that the digits on either side of a point stand for: the digit before the point
counts one, and every other digit ten times as much as the one after it. -/
def positional (whole fraction : Text) : ℚ :=
  Nat.ofDigits (10 : ℚ) (whole.reverse.map value) +
    Nat.ofDigits (10 : ℚ)⁻¹ (0 :: fraction.map value)

theorem numeral_eq_ofDigits (ds : Text) :
    (numeral ds : ℚ) = Nat.ofDigits (10 : ℚ) (ds.reverse.map value) := by
  rw [numeral, Numeral.join_eq_ofDigits, ← List.map_reverse, Nat.coe_ofDigits]
  rfl

/-- Digits after the point are so many units of the last place. -/
theorem ofDigits_inv_eq (ds : Text) :
    Nat.ofDigits (10 : ℚ)⁻¹ (0 :: ds.map value) = numeral ds / (10 : ℚ) ^ ds.length := by
  induction ds with
  | nil => simp [Nat.ofDigits, numeral]
  | cons c ds ih =>
    have hnumeral : numeral (c :: ds) = value c * 10 ^ ds.length + numeral ds := by
      have hjoin := Numeral.join_append [value c] (ds.map value)
      have hone : Numeral.join [value c] = value c := by simp [Numeral.join_eq_ofDigits]
      rwa [hone, List.length_map] at hjoin
    simp only [Nat.ofDigits, Nat.cast_zero, zero_add, List.map_cons] at ih ⊢
    rw [ih, hnumeral, List.length_cons]
    push_cast
    field_simp
    ring

/-- The number with given digits has the value that they stand for. -/
theorem toRat_ofDigits (negative : Bool) (whole fraction : Text) :
    (ofDigits negative whole fraction).toRat = signed negative (positional whole fraction) := by
  have hcoefficient : (ofDigits negative whole fraction).coefficient =
      numeral whole * 10 ^ fraction.length + numeral fraction := by
    rw [ofDigits, List.map_append, Numeral.join_append, List.length_map]
    rfl
  have hexponent : (ofDigits negative whole fraction).exponent = -(fraction.length : Int) := rfl
  have hsign : (ofDigits negative whole fraction).negative = negative := rfl
  rw [toRat, hsign, hcoefficient, hexponent, positional, ofDigits_inv_eq, ← numeral_eq_ofDigits,
    zpow_neg, zpow_natCast]
  congr 1
  push_cast
  field_simp

/-! ## Canonical texts -/

/-- Numbers have the same plain notation exactly if they have the same value and as many digits
after the point. -/
theorem plain_eq_iff {a b : Decimal} :
    a.plain = b.plain ↔ a.toRat = b.toRat ∧ min a.exponent 0 = min b.exponent 0 := by
  constructor
  · intro h
    have hs := settled_eq_of_plain_eq h
    exact ⟨by rw [← toRat_settled, hs, toRat_settled], congrArg exponent hs⟩
  · rintro ⟨hvalue, hexponent⟩
    exact (written_plain a).unique (written_plain b) (by omega) hvalue

theorem canonical?_of_canonical? {t v : Text} (h : canonical? t = some v) :
    canonical? v = some v := by
  obtain ⟨a, -, rfl⟩ := Option.map_eq_some_iff.mp h
  exact canonical?_plain a

/-- Literals have the same canonical text exactly if they have the same value and as many fraction
digits. -/
theorem Spells.canonical?_eq_iff {s t : Text} {negative negative' : Bool}
    {whole fraction whole' fraction' : Text} (hs : Spells s negative whole fraction)
    (ht : Spells t negative' whole' fraction') :
    canonical? s = canonical? t ↔
      signed negative (positional whole fraction) = signed negative' (positional whole' fraction') ∧
        fraction.length = fraction'.length := by
  have hexponent (n : Bool) (w f : Text) : min (ofDigits n w f).exponent 0 = -(f.length : Int) :=
    min_eq_left (Int.neg_nonpos_of_nonneg (Int.natCast_nonneg _))
  rw [canonical?, canonical?, hs.ofLiteral?_eq, ht.ofLiteral?_eq, Option.map_some, Option.map_some,
    Option.some_inj, plain_eq_iff, toRat_ofDigits, toRat_ofDigits, hexponent, hexponent]
  simp

/-- **The codec of decimal numbers.** The literals are the texts with an optional sign, digits with
an optional point, and at most one line feed after them, and a literal is read as the value that its
digits spell, with the exponent that the number of its fraction digits tells. Plain notation is read
as the same value, with no positive exponent, and with the same sign but for zero. So a canonical
text is its own canonical text, and literals share it exactly if they have the same value and as
many fraction digits. -/
theorem literal_codec :
    (∀ t, isLiteral t = true ↔ ∃ negative whole fraction, Spells t negative whole fraction) ∧
    (∀ t negative whole fraction, Spells t negative whole fraction →
      ∃ a, ofLiteral? t = some a ∧ a.toRat = signed negative (positional whole fraction) ∧
        a.exponent = -fraction.length ∧ a.negative = negative) ∧
    (∀ a : Decimal, ∃ b, ofLiteral? a.plain = some b ∧ b.toRat = a.toRat ∧
      b.exponent = min a.exponent 0 ∧
      b.coefficient = a.coefficient * 10 ^ (max a.exponent 0).toNat ∧
      b.negative = (a.negative && !a.isZero)) ∧
    (∀ t v, canonical? t = some v → canonical? v = some v) ∧
    ∀ s t negative negative' whole whole' fraction fraction',
      Spells s negative whole fraction → Spells t negative' whole' fraction' →
      (canonical? s = canonical? t ↔
        signed negative (positional whole fraction) =
            signed negative' (positional whole' fraction') ∧
          fraction.length = fraction'.length) := by
  refine ⟨fun t => isLiteral_iff, ?read, ?write, fun t v => canonical?_of_canonical?, ?same⟩
  case read =>
    intro t negative whole fraction h
    exact ⟨_, h.ofLiteral?_eq, toRat_ofDigits negative whole fraction, rfl, rfl⟩
  case write =>
    intro a
    have hpow : (max a.exponent 0).toNat = a.exponent.toNat := by omega
    rw [hpow]
    exact ⟨a.settled, ofLiteral?_plain a, toRat_settled a, rfl, rfl, rfl⟩
  case same =>
    intro s t negative negative' whole whole' fraction fraction' hs ht
    exact hs.canonical?_eq_iff ht

/-- A literal with a plus, a zero in front, a digit of another script and a line feed, and the
literal that it shares its canonical text with. -/
theorem literal_codec_scripts :
    let s := ['+', '0', '\u0664', '.', '5', '\n']
    let t := ['4', '.', '5']
    (Spells s false ['0', '\u0664'] ['5'] ∧ Spells t false ['4'] ['5'] ∧ canonical? s = some t) ∧
      (∃ a, ofLiteral? s = some a ∧ a.toRat = 9 / 2 ∧ a.exponent = -1 ∧ a.negative = false) ∧
      canonical? t = some t ∧ canonical? s = canonical? t := by
  intro s t
  have hfraction : Digits ['5'] := List.all_eq_true.mp rfl
  have hs : Spells s false ['0', '\u0664'] ['5'] := by
    have hwhole : Digits ['0', '\u0664'] := List.all_eq_true.mp rfl
    exact .intro .plus (.pointed hwhole (by decide) hfraction) (.inr rfl)
  have ht : Spells t false ['4'] ['5'] := by
    have hwhole : Digits ['4'] := List.all_eq_true.mp rfl
    exact .intro .absent (.pointed hwhole (by decide) hfraction) (.inl rfl)
  have hv : canonical? s = some t := by decide
  obtain ⟨-, hread, -, hstable, hsame⟩ := literal_codec
  have hvalue : positional ['0', '\u0664'] ['5'] = 9 / 2 := by
    have hfour : value '\u0664' = 4 := by decide
    have hfive : value '5' = 5 := by decide
    have hzero : value '0' = 0 := by decide
    norm_num [positional, Nat.ofDigits, hfour, hfive, hzero]
  have hvalue' : positional ['4'] ['5'] = 9 / 2 := by
    have hfour : value '4' = 4 := by decide
    have hfive : value '5' = 5 := by decide
    norm_num [positional, Nat.ofDigits, hfour, hfive]
  refine ⟨⟨hs, ht, hv⟩, ?_, hstable s t hv, ?_⟩
  · obtain ⟨a, ha, hrat, hexponent, hnegative⟩ := hread s _ _ _ hs
    exact ⟨a, ha, hrat.trans hvalue, hexponent, hnegative⟩
  · exact (hsame s t _ _ _ _ _ _ hs ht).mpr ⟨by rw [hvalue, hvalue'], rfl⟩

/-- Digits after the point count for canonical texts, the sign of zero does not. -/
example : canonical? ['-', '.', '0', '0'] = some ['0', '.', '0', '0'] ∧
    canonical? ['0', '.', '0'] = some ['0', '.', '0'] := by decide

end Decimal

end Reckon

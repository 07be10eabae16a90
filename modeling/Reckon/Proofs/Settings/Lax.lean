import Reckon.Proofs.Decimal.Canonical
import Reckon.Proofs.Settings.Documented
import Reckon.Settings.Lax

/-!
# The lax validator keeps the documented rules

The readers of the lax validator do what is documented of a validator. A plain numeral needs no
tidying; a model is read by putting together what its fields and the forbidden keys make of the
defaults, and the problems of these parts are put together in the same order.

## Main results

* `IntegerText.read_integerText`: a numeral is read as its integer
* `Validator.foldr_both`: parts that are put together, and their problems
* `Validator.lax_documented`: the lax validator keeps the rules
-/

namespace Reckon

open Value Numeral Decimal

/-! ## Numerals -/

namespace IntegerText

theorem headLength_le (t : Text) : headLength t ≤ t.length := by
  have hle (u : Text) : (u.takeWhile Char.isDigit).length ≤ u.length :=
    (List.takeWhile_prefix _).length_le
  unfold headLength
  split
  rename_i signLength u hu
  have hlength : signLength + u.length = t.length := by
    split at hu <;> cases hu
    · exact Nat.add_comm _ _
    · exact Nat.zero_add _
  split
  · exact Nat.zero_le _
  · exact hlength ▸ Nat.add_le_add_left (hle u) _

theorem isLong_of_length_le {t : Text} (h : t.length ≤ maxLength) : isLong t = false :=
  decide_eq_false (Nat.not_lt.mpr ((headLength_le t).trans h))

/-- Digits without superfluous zeros in front need no tidying. -/
theorem ofDigits?_whole {t : Text} (h : Whole t) :
    ofDigits? t = some (join (t.map DecimalDigit.value) : Int) ∧
      ofDigits? ('-' :: t) = some (-(join (t.map DecimalDigit.value) : Int)) := by
  have hdigits : t.all Char.isDigit = true := List.all_eq_true.mpr h.isDigit_of_mem
  have hempty : t.isEmpty = false := by simpa using h.ne_nil
  have hzero : (t.head? == some '0' && t.length != 1) = false := by
    by_cases hhead : t.head? = some '0'
    · rw [h.eq_of_head? hhead]
      rfl
    · simp [hhead]
  have hminus : ∀ u, t ≠ '-' :: u := by
    rintro u rfl
    exact absurd (h.isDigit_of_mem '-' List.mem_cons_self) (by decide)
  constructor
  · unfold ofDigits?
    split
    rename_i negative digits hd
    split at hd
    · exact absurd rfl (hminus _)
    · cases hd
      simp [hempty, hdigits, hzero]
  · simp [ofDigits?, hempty, hdigits, hzero]

theorem ofDigits?_integerText (n : Int) : ofDigits? (integerText n) = some n := by
  obtain ⟨hpos, hneg⟩ := ofDigits?_whole (whole_toText n.natAbs)
  rw [join_toText] at hpos hneg
  rw [integerText]
  split
  · rw [hneg]
    congr 1
    omega
  · rw [hpos]
    congr 1
    omega

/-- A numeral that is not too long is read as its integer. -/
theorem read_integerText {n : Int} (h : (integerText n).length ≤ maxLength) :
    read (integerText n) = .ok n := by
  rw [read, isLong_of_length_le h, ofDigits?_integerText]
  rfl

/-! ### Texts without a digit -/

section NoDigit

theorem mem_of_mem_trim {t : Text} {c : Char} (h : c ∈ Text.trim t) : c ∈ t := by
  rw [Text.trim, List.mem_reverse] at h
  have h := List.mem_reverse.mp ((List.dropWhile_suffix _).mem h)
  exact (List.dropWhile_suffix _).mem h

variable {t : Text} (h : ∀ c ∈ t, c.isDigit = false)

include h

theorem takeWhile_isDigit_of_noDigit : t.takeWhile Char.isDigit = [] := by
  cases t with
  | nil => rfl
  | cons c t => simp [h c List.mem_cons_self]

theorem isLong_of_noDigit : isLong t = false := by
  have hhead : headLength t ≤ 1 := by
    unfold headLength
    split
    rename_i signLength u hu
    have hsign : signLength ≤ 1 ∧ ∀ c ∈ u, c.isDigit = false := by
      split at hu <;> cases hu
      · exact ⟨Nat.le_refl 1, fun c hc => h c (List.mem_cons_of_mem _ hc)⟩
      · exact ⟨Nat.zero_le 1, h⟩
    split
    · exact Nat.zero_le 1
    · rw [takeWhile_isDigit_of_noDigit hsign.2]
      exact hsign.1
  exact decide_eq_false (Nat.not_lt.mpr (hhead.trans (by decide)))

theorem ofDigits?_of_noDigit : ofDigits? t = none := by
  unfold ofDigits?
  split
  rename_i negative u hu
  have hu : ∀ c ∈ u, c.isDigit = false := by
    split at hu <;> cases hu
    · exact fun c hc => h c (List.mem_cons_of_mem _ hc)
    · exact h
  cases u with
  | nil => rfl
  | cons c u => simp [hu c List.mem_cons_self]

theorem withoutZeros?_of_noDigit : withoutZeros? t = none := by
  unfold withoutZeros?
  split
  · exact absurd (h '0' List.mem_cons_self) (by decide)
  · rename_i c u _
    simp [h c List.mem_cons_self]
  · rfl

theorem isDigit_of_mem_splitSign {c : Char} (hc : c ∈ (splitSign t).2) : c.isDigit = false := by
  refine h c ?_
  unfold splitSign at hc
  split at hc
  · exact List.mem_cons_of_mem _ hc
  · exact List.mem_cons_of_mem _ hc
  · exact hc

theorem tidy?_of_noDigit : tidy? t = none := by
  have htrim : ∀ c ∈ Text.trim t, c.isDigit = false := fun c hc => h c (mem_of_mem_trim hc)
  simp only [tidy?, withoutZeros?_of_noDigit fun c => isDigit_of_mem_splitSign htrim]
  rfl

/-- A text without a digit holds no integer. -/
theorem read_of_noDigit : read t = .error .notAnInteger := by
  rw [read, isLong_of_noDigit h, ofDigits?_of_noDigit h, tidy?_of_noDigit h]
  rfl

end NoDigit

end IntegerText

namespace Validator

theorem readInteger_of_coerces {v : Value} {n : Int} (h : Coerces v n) : readInteger v = .ok n := by
  cases h with
  | integer n => rfl
  | boolean b => rfl
  | @real x _ hx hlt =>
    have hfinite : x.isFinite = true := by
      cases x with
      | finite => rfl
      | _ => cases hx
    have hlt : (n.natAbs : Int) < maxIntegralReal := by
      rw [maxIntegralReal]
      exact_mod_cast hlt
    simp only [readInteger, hfinite, hx, if_pos hlt]
    rfl
  | numeral hn => rw [readInteger, integerOfText, IntegerText.read_integerText hn]; rfl

theorem readInteger_of_misfits {v : Value} {c : Complaint} (h : Misfits v c) :
    readInteger v = .error c := by
  cases h with
  | null | sequence | mapping => rfl
  | infinite hx => simp [readInteger, hx]
  | fractional hx hno => simp [readInteger, hx, hno]
  | word ht => rw [readInteger, integerOfText, IntegerText.read_of_noDigit ht]; rfl

theorem readWithin_unbounded (v : Value) :
    readWithin {} v = (readInteger v).mapError fun c => [⟨[], c⟩] := by
  rw [readWithin]
  cases readInteger v <;> rfl

/-- An integer is read within bounds if they have no complaint about it. -/
theorem readWithin_of_ok {v : Value} {n : Int} (h : readWithin {} v = .ok n) (b : Bounds) :
    readWithin b v = (b.complaint? n).elim (.ok n) complain := by
  rw [readWithin_unbounded, mapError_eq_ok] at h
  rw [readWithin, h]

theorem readWithin_of_error {v : Value} {ps : List Problem} (h : readWithin {} v = .error ps)
    (b : Bounds) : readWithin b v = .error ps ∧ ∃ c, ps = [⟨[], c⟩] := by
  rw [readWithin_unbounded, mapError_eq_error] at h
  obtain ⟨c, hc, rfl⟩ := h
  rw [readWithin, hc]
  exact ⟨rfl, c, rfl⟩

namespace Bounds

variable {b : Bounds} {n : Int}

theorem complaint?_above {g : Int} (hg : b.greatest? = some g) (h : g < n) :
    b.complaint? n = some .lessThanEqual := by
  simp [complaint?, hg, h]

theorem complaint?_of_le (h : ∀ g, b.greatest? = some g → n ≤ g) :
    b.complaint? n = if b.least?.any (n < ·) then some .greaterThanEqual else none := by
  rw [complaint?, if_neg]
  cases hg : b.greatest? with
  | none => simp
  | some g => simpa using h g hg

theorem complaint?_below {l : Int} (hl : b.least? = some l) (hlt : n < l)
    (h : ∀ g, b.greatest? = some g → n ≤ g) : b.complaint? n = some .greaterThanEqual := by
  simp [complaint?_of_le h, hl, hlt]

theorem Contains.complaint?_eq_none (h : b.Contains n) : b.complaint? n = none := by
  rw [complaint?_of_le h.greatest, if_neg]
  cases hl : b.least? with
  | none => simp
  | some l => simpa using h.least l hl

end Bounds

/-! ## Models -/

section Model

variable {α β : Type}

/-- The problems of an outcome. -/
def problemsOf : Except (List Problem) β → List Problem
  | .ok _ => []
  | .error ps => ps

/-- An instance after an outcome. -/
def changed (a : α) : Except (List Problem) (α → α) → α
  | .ok change => change a
  | .error _ => a

/-- Parts that are put together: one change after the other, or the problems of all of them. -/
theorem foldr_both (cs : List (Except (List Problem) (α → α))) :
    ((∀ c ∈ cs, ∃ change, c = .ok change) →
      ∃ change, cs.foldr both (.ok id) = .ok change ∧ ∀ a, change a = cs.foldl changed a) ∧
    (∀ c ∈ cs, ∀ ps, c = .error ps → cs.foldr both (.ok id) = .error (cs.flatMap problemsOf)) := by
  induction cs with
  | nil => exact ⟨fun _ => ⟨id, rfl, fun a => rfl⟩, fun c hc => by cases hc⟩
  | cons c cs ih =>
    obtain ⟨hok, herror⟩ := ih
    by_cases hcs : ∀ c ∈ cs, ∃ change, c = .ok change
    · obtain ⟨rest, hrest, hfold⟩ := hok hcs
      have hnil : cs.flatMap problemsOf = [] := by
        refine List.flatMap_eq_nil_iff.mpr fun c hc => ?_
        obtain ⟨change, rfl⟩ := hcs c hc
        rfl
      rw [List.foldr_cons, hrest, List.flatMap_cons, hnil, List.append_nil]
      cases c with
      | ok change =>
        refine ⟨fun _ => ⟨rest ∘ change, rfl, fun a => hfold (change a)⟩, fun d hd ps he => ?_⟩
        rcases List.mem_cons.mp hd with rfl | hd
        · cases he
        · obtain ⟨change', rfl⟩ := hcs d hd
          cases he
      | error ps =>
        refine ⟨fun hall => ?_, fun d hd qs he => rfl⟩
        obtain ⟨change, he⟩ := hall _ List.mem_cons_self
        cases he
    · push Not at hcs
      obtain ⟨d, hd, hno⟩ := hcs
      obtain ⟨ps, rfl⟩ : ∃ ps, d = .error ps := by
        cases d with
        | ok change => exact absurd rfl (hno change)
        | error ps => exact ⟨ps, rfl⟩
      refine ⟨fun hall => ?_, fun e he qs hqs => ?_⟩
      · obtain ⟨change, he⟩ := hall _ (List.mem_cons_of_mem _ hd)
        cases he
      · rw [List.foldr_cons, herror _ hd ps rfl, List.flatMap_cons]
        cases c <;> rfl

variable {m : Model α} {fields : List (Text × Value)}

theorem problemsOf_change (f : Field α) :
    problemsOf (f.change (entriesOf fields)) = f.problems fields := by
  rw [Field.change, Field.problems, find?_entriesOf]
  cases fields.lookup f.name with
  | none => rfl
  | some v => cases hv : f.read v <;> simp [hv, Except.mapError, problemsOf]

theorem changed_change (a : α) (f : Field α) :
    changed a (f.change (entriesOf fields)) = f.fill fields a := by
  rw [Field.change, Field.fill, find?_entriesOf]
  cases fields.lookup f.name with
  | none => rfl
  | some v => cases hv : f.read v <;> simp [hv, Except.mapError, changed]

theorem forbidden_entriesOf (m : Model α) (fields : List (Text × Value)) :
    m.forbidden (entriesOf fields) = m.undeclared fields := by
  rw [Model.forbidden, Model.undeclared]
  cases m.extra with
  | ignore => rfl
  | forbid =>
    induction fields with
    | nil => rfl
    | cons f fs ih =>
      show ((Value.text f.1, f.2) :: entriesOf fs).filterMap (unknownKey? m.names) = _
      rw [List.filterMap_cons]
      simp only [] at ih
      rw [ih]
      by_cases h : f.1 ∈ m.names <;> simp [unknownKeys, unknownKey?, h]

/-- The parts that a model is read from. -/
def changes (m : Model α) (fields : List (Text × Value)) : List (Except (List Problem) (α → α)) :=
  m.fields.map (Field.change (entriesOf fields)) ++
    (m.undeclared fields).map fun p => .error [p]

theorem readModel_object (m : Model α) (fields : List (Text × Value)) :
    readModel m (.object fields) =
      ((changes m fields).foldr both (.ok id)).map (· m.defaults) := by
  rw [changes, ← forbidden_entriesOf]
  rfl

/-- All parts are changes exactly if the data fits. -/
theorem changes_iff (hkeys : (fields.map Prod.fst).Nodup) :
    (∀ c ∈ changes m fields, ∃ change, c = .ok change) ↔ m.Fits fields := by
  have hfield (f : Field α) : (∃ change, f.change (entriesOf fields) = .ok change) ↔
      ∀ v, (f.name, v) ∈ fields → ∃ change, f.read v = .ok change := by
    simp only [← lookup_eq_some_iff hkeys]
    rw [Field.change, find?_entriesOf]
    cases fields.lookup f.name with
    | none => simp
    | some v => simp [mapError_eq_ok]
  have hothers : (∀ p ∈ m.undeclared fields, ∃ change : α → α,
      (.error [p] : Except (List Problem) (α → α)) = .ok change) ↔ m.undeclared fields = [] := by
    rw [List.eq_nil_iff_forall_not_mem]
    simp
  rw [changes, List.forall_mem_append, List.forall_mem_map, List.forall_mem_map, hothers,
    Model.undeclared_eq_nil_iff]
  simp only [hfield]
  exact ⟨fun ⟨hgiven, hdeclared⟩ => ⟨hgiven, hdeclared⟩, fun h => ⟨h.given, h.declared⟩⟩

theorem foldl_changed_fields (fs : List (Field α)) (a : α) :
    (fs.map (Field.change (entriesOf fields))).foldl changed a =
      fs.foldl (Field.fill fields) a := by
  rw [List.foldl_map]
  simp only [changed_change]

/-- The problems of the parts are those of the model. -/
theorem flatMap_changes : (changes m fields).flatMap problemsOf = m.problems fields := by
  rw [changes, List.flatMap_append, List.flatMap_map, List.flatMap_map, Model.problems]
  simp only [problemsOf_change]
  congr 1
  exact List.flatMap_singleton' _

theorem readModel_of_fits (hkeys : (fields.map Prod.fst).Nodup) (h : m.Fits fields) :
    readModel m (.object fields) = .ok (m.filled fields) := by
  obtain ⟨change, hchange, hfold⟩ := (foldr_both _).1 ((changes_iff hkeys).mpr h)
  have hnone : m.undeclared fields = [] := Model.undeclared_eq_nil_iff.mpr h.declared
  rw [readModel_object, hchange, Model.filled, ← foldl_changed_fields]
  refine congrArg Except.ok ((hfold _).trans ?_)
  rw [changes, hnone, List.map_nil, List.append_nil]

theorem readModel_of_not_fits (hkeys : (fields.map Prod.fst).Nodup) (h : ¬m.Fits fields) :
    readModel m (.object fields) = .error (m.problems fields) := by
  rw [← changes_iff hkeys] at h
  push Not at h
  obtain ⟨c, hc, hno⟩ := h
  cases c with
  | ok change => exact absurd rfl (hno change)
  | error ps =>
    rw [readModel_object, (foldr_both _).2 _ hc ps rfl, flatMap_changes]
    rfl

end Model

/-- **The lax validator keeps the documented rules.** -/
theorem lax_documented : lax.Documented where
  integer_coerces h := by
    rw [lax_integer, readWithin_unbounded, readInteger_of_coerces h]
    rfl
  integer_misfits h := by
    rw [lax_integer, readWithin_unbounded, readInteger_of_misfits h]
    rfl
  integer_refused h := (readWithin_of_error h {}).2
  integer_unread b h := (readWithin_of_error h b).1
  integer_within h hn := by
    rw [lax_integer, readWithin_of_ok h, hn.complaint?_eq_none]
    rfl
  integer_above h hg hlt := by
    rw [lax_integer, readWithin_of_ok h, Bounds.complaint?_above hg hlt]
    rfl
  integer_below h hl hlt hg := by
    rw [lax_integer, readWithin_of_ok h, Bounds.complaint?_below hl hlt hg]
    rfl
  text_writes h := by
    cases h with
    | text t => rfl
    | bytes hbs => simp [readText, hbs]
  text_undecodable h := by simp [readText, h, complain]
  text_misfits {v} ht hbs := by
    cases v with
    | text t => exact absurd rfl (ht t)
    | bytes bs => exact absurd rfl (hbs bs)
    | _ => rfl
  model_type {_} m {v} h := by
    cases v with
    | mapping entries => exact absurd rfl (h entries)
    | _ => rfl
  model_accepts {_ m fields} hkeys := by
    refine ⟨fun ⟨a, ha⟩ => ?_, fun h => ⟨_, readModel_of_fits hkeys h⟩⟩
    by_contra hno
    rw [lax_model, readModel_of_not_fits hkeys hno] at ha
    cases ha
  model_instance {_ m fields _} hkeys h := by
    by_cases hfits : m.Fits fields
    · rw [lax_model, readModel_of_fits hkeys hfits] at h
      exact (Except.ok.inj h).symm
    · rw [lax_model, readModel_of_not_fits hkeys hfits] at h
      cases h
  model_reports {_ m fields _} hkeys h := by
    by_cases hfits : m.Fits fields
    · rw [lax_model, readModel_of_fits hkeys hfits] at h
      cases h
    · rw [lax_model, readModel_of_not_fits hkeys hfits] at h
      exact (Except.error.inj h).symm

end Validator

end Reckon

import Reckon.Proofs.Settings.Answers
import Reckon.Proofs.Settings.Lax

/-!
# What validation accepts and reports

Whatever validator with the documented rules reads them: of named data, exactly those mappings are
settings whose fields are all known and hold what they should; they are read as what they hold, with
the defaults for what is missing. Any other mapping is refused with the list of all offending keys,
each of them once and at its place: the known ones in a fixed order, then the unknown ones as they
come, and the keys of the answer texts where the answer texts stand.

## Main definitions

* `Settings.Describes`: what fields describe
* `Settings.Offends`: the problems of offending keys
* `Settings.places`: the places that can have a problem, in their order

## Main results

* `Settings.validate_object_eq_ok_iff`: what is accepted
* `Settings.mem_problems_iff`, `Settings.places_problems`: what is reported, and in which order
* `Settings.validate_toValue`: valid settings are accepted in their full form
* `Settings.validate_exact`: validation is exact and stable
-/

namespace Reckon

open Value Validator

variable {validator : Validator} {fields : List (Text × Value)}

namespace Settings

/-- Why a value is refused as a precision: it is no integer, for which the validator has a
complaint, or one out of range. -/
inductive RefusedFor (validator : Validator) (v : Value) : Complaint → Prop where
  | unread {c : Complaint} : validator.integer {} v = .error [⟨[], c⟩] → RefusedFor validator v c
  | above {n : Int} : validator.integer {} v = .ok n → 999 < n →
      RefusedFor validator v .lessThanEqual
  | below {n : Int} : validator.integer {} v = .ok n → n < 1 →
      RefusedFor validator v .greaterThanEqual

/-- The fields describe the settings: all are known, the precision is accepted as an integer in
range, the answer texts are a mapping that describes them, and what has no field is the default. -/
structure Describes (validator : Validator) (fields : List (Text × Value)) (s : Settings) :
    Prop where
  known : ∀ f ∈ fields, f.1 = precisionKey ∨ f.1 = messagesKey
  precision : ∀ v, (precisionKey, v) ∈ fields →
    validator.integer {} v = .ok s.precision ∧ 1 ≤ s.precision ∧ s.precision ≤ 999
  missingPrecision : (∀ v, (precisionKey, v) ∉ fields) → s.precision = 28
  messages : ∀ v, (messagesKey, v) ∈ fields →
    ∃ inner, v = .object inner ∧ Messages.Describes inner s.messages
  missingMessages : (∀ v, (messagesKey, v) ∉ fields) → s.messages = {}

/-- The problems of offending keys: a precision that is refused, answer texts that are no mapping,
the offending keys among them, and an unknown key. -/
inductive Offends (validator : Validator) (fields : List (Text × Value)) : Problem → Prop where
  | precision {v : Value} {c : Complaint} : (precisionKey, v) ∈ fields → RefusedFor validator v c →
      Offends validator fields ⟨[.name precisionKey], c⟩
  | noMapping {v : Value} : (messagesKey, v) ∈ fields → (∀ inner, v ≠ .object inner) →
      Offends validator fields ⟨[.name messagesKey], .modelType⟩
  | message {inner : List (Text × Value)} {p : Problem} : (messagesKey, .object inner) ∈ fields →
      Messages.Offends inner p → Offends validator fields (p.under messagesKey)
  | unknown {name : Text} {v : Value} : (name, v) ∈ fields → name ≠ precisionKey →
      name ≠ messagesKey → Offends validator fields ⟨[.name name], .extraForbidden⟩

/-- The places inside the answer texts that can have a problem. -/
def answerPlaces (fields : List (Text × Value)) : List (List Problem.Step) :=
  (fields.lookup messagesKey).elim [] fun v => Messages.places v.fields

/-- The places that can have a problem: the precision, the answer texts and what is inside them,
then the unknown keys as they come. -/
def places (fields : List (Text × Value)) : List (List Problem.Step) :=
  [.name precisionKey] :: [.name messagesKey] ::
      (answerPlaces fields).map (Problem.Step.name messagesKey :: ·) ++
    (unknownKeys [precisionKey, messagesKey] fields).map fun name => [.name name]

theorem names_model : (model validator).names = [precisionKey, messagesKey] := rfl

theorem contains_precisionBounds {n : Int} : precisionBounds.Contains n ↔ 1 ≤ n ∧ n ≤ 999 := by
  constructor
  · exact fun hn => ⟨hn.least _ rfl, hn.greatest _ rfl⟩
  · rintro ⟨hmin, hmax⟩
    refine ⟨fun l hl => ?_, fun g hg => ?_⟩
    · cases hl
      exact hmin
    · cases hg
      exact hmax

/-- What is given takes the place of the defaults. -/
theorem filled_model : (model validator).filled fields =
    ⟨(given? (validator.integer precisionBounds) precisionKey fields).getD 28,
      (given? (Messages.validate validator) messagesKey fields).getD {}⟩ := by
  have hprecision (s : Settings) : (precisionField validator).fill fields s = { s with
      precision := (given? (validator.integer precisionBounds) precisionKey fields).getD
        s.precision } := by
    refine (Field.fill_map (fun precision (s : Settings) => { s with precision }) s).trans ?_
    cases given? (validator.integer precisionBounds) precisionKey fields <;> rfl
  have hmessages (s : Settings) : (messagesField validator).fill fields s = { s with
      messages := (given? (Messages.validate validator) messagesKey fields).getD
        s.messages } := by
    refine (Field.fill_map (fun messages (s : Settings) => { s with messages }) s).trans ?_
    cases given? (Messages.validate validator) messagesKey fields <;> rfl
  show (messagesField validator).fill fields ((precisionField validator).fill fields {}) = _
  rw [hprecision, hmessages]

/-- No place comes twice. -/
theorem nodup_places (hkeys : (fields.map Prod.fst).Nodup) (hvalues : ∀ f ∈ fields, f.2.IsNamed) :
    (places fields).Nodup := by
  have hinside : ∀ l ∈ answerPlaces fields, l ≠ [] := by
    intro l hl
    rw [answerPlaces] at hl
    cases hlookup : fields.lookup messagesKey with
    | none => simp [hlookup] at hl
    | some v =>
      rw [hlookup] at hl
      obtain ⟨name, -, rfl⟩ := List.mem_map.mp hl
      exact List.cons_ne_nil _ _
  have hanswers : (answerPlaces fields).Nodup := by
    rw [answerPlaces]
    cases hlookup : fields.lookup messagesKey with
    | none => exact List.nodup_nil
    | some v =>
      have hv := hvalues _ ((lookup_eq_some_iff hkeys).mp hlookup)
      exact Messages.nodup_places hv.nodup_fields
  have hnames : ([precisionKey, messagesKey] ++
      unknownKeys [precisionKey, messagesKey] fields).Nodup :=
    nodup_known_append (by decide) hkeys
  obtain ⟨-, hothers, hdisjoint⟩ := List.nodup_append'.mp hnames
  have hdiffer : precisionKey ≠ messagesKey := by decide
  rw [places, List.nodup_append']
  refine ⟨?_, hothers.map fun name name' he => by simpa using he, ?_⟩
  · rw [List.nodup_cons, List.nodup_cons]
    refine ⟨by simp [hdiffer, hdiffer.symm], ?_, hanswers.map fun l l' he => by simpa using he⟩
    rintro hmem
    obtain ⟨l, hl, he⟩ := List.mem_map.mp hmem
    exact hinside l hl (List.cons.inj he).2
  · intro l hl hl'
    obtain ⟨name, hname, rfl⟩ := List.mem_map.mp hl'
    have hunknown : name ∉ [precisionKey, messagesKey] := fun hmem => hdisjoint hmem hname
    simp only [List.mem_cons, List.cons.injEq, Problem.Step.name.injEq, and_true,
      List.mem_map] at hl hunknown
    rcases hl with rfl | rfl | ⟨l, hl, -, he⟩
    · exact hunknown (.inl rfl)
    · exact hunknown (.inr (.inl rfl))
    · exact hinside l hl he

section Documented

variable (h : validator.Documented)

include h

theorem read_precisionField_eq_ok_iff {v : Value} {n : Int} :
    validator.integer precisionBounds v = .ok n ↔
      validator.integer {} v = .ok n ∧ 1 ≤ n ∧ n ≤ 999 := by
  rw [h.integer_eq_ok_iff, contains_precisionBounds]

theorem read_precisionField_eq_error_iff {v : Value} {ps : List Problem} :
    validator.integer precisionBounds v = .error ps ↔
      ∃ c, RefusedFor validator v c ∧ ps = [⟨[], c⟩] := by
  constructor
  · intro hps
    match hv : validator.integer {} v with
    | .error qs =>
      obtain ⟨c, rfl⟩ := h.integer_refused hv
      rw [h.integer_unread _ hv] at hps
      exact ⟨c, .unread hv, (Except.error.inj hps).symm⟩
    | .ok n =>
      by_cases habove : 999 < n
      · rw [h.integer_above hv rfl habove] at hps
        exact ⟨_, .above hv habove, (Except.error.inj hps).symm⟩
      · have hmax : ∀ g, precisionBounds.greatest? = some g → n ≤ g := by
          rintro g ⟨⟩
          exact Int.not_lt.mp habove
        by_cases hbelow : n < 1
        · rw [h.integer_below hv rfl hbelow hmax] at hps
          exact ⟨_, .below hv hbelow, (Except.error.inj hps).symm⟩
        · have hin := contains_precisionBounds.mpr ⟨Int.not_lt.mp hbelow, Int.not_lt.mp habove⟩
          rw [h.integer_within hv hin] at hps
          cases hps
  · rintro ⟨c, hc, rfl⟩
    cases hc with
    | unread hv => exact h.integer_unread _ hv
    | above hv habove => exact h.integer_above hv rfl habove
    | below hv hbelow =>
      refine h.integer_below hv rfl hbelow ?_
      rintro g ⟨⟩
      show _ ≤ (999 : Int)
      omega

variable (hkeys : (fields.map Prod.fst).Nodup) (hvalues : ∀ f ∈ fields, f.2.IsNamed)

include hkeys hvalues

theorem fits_iff : (model validator).Fits fields ↔ (model validator).problems fields = [] := by
  refine Model.fits_iff hkeys fun f hf v hv hread => ?_
  rcases List.mem_pair.mp hf with rfl | rfl
  · obtain ⟨c, -, hc⟩ := (read_precisionField_eq_error_iff h).mp (map_eq_error.mp hread)
    cases hc
  · exact Messages.validate_ne_error_nil h (hvalues _ hv) (map_eq_error.mp hread)

/-- What is accepted as settings, and as which. -/
theorem validate_object_eq_ok_iff {s : Settings} :
    validate validator (.object fields) = .ok s ↔ Describes validator fields s := by
  have hinner {v m} (hv : (messagesKey, v) ∈ fields) :=
    Messages.validate_eq_ok_iff h (hvalues _ hv) (m := m)
  rw [validate, h.model_eq_ok_iff hkeys, filled_model]
  constructor
  · rintro ⟨hfits, rfl⟩
    have hknown : ∀ f ∈ fields, f.1 = precisionKey ∨ f.1 = messagesKey := fun f hf =>
      List.mem_pair.mp (hfits.declared rfl f hf)
    refine ⟨hknown, fun v hv => ?_, fun hno => ?_, fun v hv => ?_, fun hno => ?_⟩
    · obtain ⟨change, hread⟩ := hfits.given (precisionField validator) List.mem_cons_self v hv
      obtain ⟨n, hn, -⟩ := map_eq_ok.mp hread
      rw [given?_of_mem hkeys hv hn]
      exact (read_precisionField_eq_ok_iff h).mp hn
    · rw [given?_of_absent hkeys hno]
      rfl
    · obtain ⟨change, hread⟩ :=
        hfits.given (messagesField validator) (List.mem_cons_of_mem _ List.mem_cons_self) v hv
      obtain ⟨m, hm, -⟩ := map_eq_ok.mp hread
      rw [given?_of_mem hkeys hv hm]
      exact (hinner hv).mp hm
    · rw [given?_of_absent hkeys hno]
      rfl
  · intro hs
    refine ⟨⟨fun f hf v hv => ?_, fun _ f hf => List.mem_pair.mpr (hs.known f hf)⟩, ?_⟩
    · rcases List.mem_pair.mp hf with rfl | rfl
      · exact ⟨_, map_eq_ok.mpr
          ⟨_, (read_precisionField_eq_ok_iff h).mpr (hs.precision v hv), rfl⟩⟩
      · exact ⟨_, map_eq_ok.mpr ⟨_, (hinner hv).mpr (hs.messages v hv), rfl⟩⟩
    · rw [getD_given? hkeys (fun v hv => (read_precisionField_eq_ok_iff h).mpr (hs.precision v hv))
          hs.missingPrecision,
        getD_given? hkeys (fun v hv => (hinner hv).mpr (hs.messages v hv)) hs.missingMessages]

/-- The problems come in the order of the places. -/
theorem places_problems :
    (((model validator).problems fields).map Problem.place).Sublist (places fields) := by
  have hsublist := Validator.places_problems (m := model validator) hkeys
    (fun f => if f.name = precisionKey then [[]] else [] :: answerPlaces fields)
    fun f hf v ps hv hps => by
      rcases List.mem_pair.mp hf with rfl | rfl
      · obtain ⟨c, -, rfl⟩ := (read_precisionField_eq_error_iff h).mp (map_eq_error.mp hps)
        exact List.Sublist.refl _
      · have hps : Messages.validate validator v = .error ps := map_eq_error.mp hps
        have hlookup : fields.lookup messagesKey = some v := (lookup_eq_some_iff hkeys).mpr hv
        rcases (hvalues _ hv).object_or with ⟨inner, rfl, hkeys', -⟩ | hno
        · obtain ⟨-, rfl⟩ := (h.model_eq_error_iff hkeys').mp hps
          have hinner : answerPlaces fields = Messages.places inner := by
            rw [answerPlaces, hlookup, Option.elim_some, fields_object]
          show (List.map _ _).Sublist ([] :: answerPlaces fields)
          rw [hinner]
          exact (Messages.places_problems h hkeys').cons _
        · rw [Messages.validate_of_ne_mapping h hno] at hps
          cases hps
          exact (List.nil_sublist _).cons_cons _
  have hdiffer : messagesKey ≠ precisionKey := by decide
  have hinside : (model validator).fields.flatMap (fun f =>
      (if f.name = precisionKey then [[]] else [] :: answerPlaces fields).map
        (Problem.Step.name f.name :: ·)) =
      [.name precisionKey] :: [.name messagesKey] ::
        (answerPlaces fields).map (Problem.Step.name messagesKey :: ·) := by
    simp [model, precisionField, messagesField, hdiffer]
  rw [hinside, names_model] at hsublist
  exact hsublist

omit hvalues in
/-- What is reported of settings in an exchange format is what the offending keys have. -/
theorem mem_problems_iff (hvalues : ∀ f ∈ fields, f.2.IsJson) {p : Problem} :
    p ∈ (model validator).problems fields ↔ Offends validator fields p := by
  have hprecision : p ∈ (precisionField validator).problems fields ↔
      ∃ v c, (precisionKey, v) ∈ fields ∧ RefusedFor validator v c ∧
        p = ⟨[.name precisionKey], c⟩ := by
    rw [Field.mem_problems_iff hkeys]
    constructor
    · rintro ⟨v, ps, hv, hps, q, hq, rfl⟩
      obtain ⟨c, hc, rfl⟩ := (read_precisionField_eq_error_iff h).mp (map_eq_error.mp hps)
      exact ⟨v, c, hv, hc, List.mem_singleton.mp hq ▸ rfl⟩
    · rintro ⟨v, c, hv, hc, rfl⟩
      exact ⟨v, _, hv, map_eq_error.mpr ((read_precisionField_eq_error_iff h).mpr ⟨c, hc, rfl⟩), _,
        List.mem_singleton_self _, rfl⟩
  have hmessages : p ∈ (messagesField validator).problems fields ↔
      ∃ v q, (messagesKey, v) ∈ fields ∧ ((∀ inner, v ≠ .object inner) ∧ q = ⟨[], .modelType⟩ ∨
        ∃ inner, v = .object inner ∧ Messages.Offends inner q) ∧ q.under messagesKey = p := by
    rw [Field.mem_problems_iff hkeys]
    constructor
    · rintro ⟨v, ps, hv, hps, q, hq, rfl⟩
      have hq := (Messages.exists_error_iff h (hvalues _ hv)).mp ⟨ps, map_eq_error.mp hps, hq⟩
      exact ⟨v, q, hv, hq, rfl⟩
    · rintro ⟨v, q, hv, hq, rfl⟩
      obtain ⟨ps, hps, hq⟩ := (Messages.exists_error_iff h (hvalues _ hv)).mpr hq
      exact ⟨v, ps, hv, map_eq_error.mpr hps, q, hq, rfl⟩
  rw [Model.problems, List.mem_append, Model.mem_undeclared_iff]
  show p ∈ [precisionField validator, messagesField validator].flatMap _ ∨ _ ↔ _
  rw [List.flatMap_cons, List.flatMap_cons, List.flatMap_nil, List.append_nil, List.mem_append,
    hprecision, hmessages]
  constructor
  · rintro ((⟨v, c, hv, hc, rfl⟩ | ⟨v, q, hv, ⟨hno, rfl⟩ | ⟨inner, rfl, hq⟩, rfl⟩) |
      ⟨-, name, v, hv, hunknown, rfl⟩)
    · exact .precision hv hc
    · exact .noMapping hv hno
    · exact .message hv hq
    · obtain ⟨hp, hm⟩ : name ≠ precisionKey ∧ name ≠ messagesKey := by
        simpa [names_model] using hunknown
      exact .unknown hv hp hm
  · intro hp
    cases hp with
    | precision hv hc => exact .inl (.inl ⟨_, _, hv, hc, rfl⟩)
    | noMapping hv hno => exact .inl (.inr ⟨_, _, hv, .inl ⟨hno, rfl⟩, rfl⟩)
    | message hv hq => exact .inl (.inr ⟨_, _, hv, .inr ⟨_, rfl, hq⟩, rfl⟩)
    | unknown hv hp hm => exact .inr ⟨rfl, _, _, hv, by simp [names_model, hp, hm], rfl⟩

end Documented

section Results

variable (h : validator.Documented)

include h

/-- Accepted settings have a precision in range. -/
theorem valid_of_validate {v : Value} {s : Settings} (hv : v.IsNamed)
    (hs : validate validator v = .ok s) : s.Valid := by
  rcases hv.object_or with ⟨fields, rfl, hkeys, hvalues⟩ | hno
  · have hdescribes := (validate_object_eq_ok_iff h hkeys hvalues).mp hs
    by_cases hmissing : ∀ v, (precisionKey, v) ∉ fields
    · rw [Valid, hdescribes.missingPrecision hmissing]
      decide
    · simp only [not_forall, not_not] at hmissing
      obtain ⟨v, hv⟩ := hmissing
      exact (hdescribes.precision v hv).2
  · obtain ⟨entries, he⟩ := h.exists_mapping hs
    exact absurd he (hno entries)

/-- Valid settings are accepted in their full form. -/
theorem validate_toValue {s : Settings} (hs : s.Valid) :
    validate validator s.toValue = .ok s := by
  have hdiffer : precisionKey ≠ messagesKey := by decide
  have hfull : s.toValue = .object
      [(precisionKey, .integer s.precision), (messagesKey, s.messages.toValue)] := rfl
  rw [hfull, Messages.toValue_eq_object]
  refine (validate_object_eq_ok_iff h (by simpa using hdiffer) fun f hf => ?_).mpr
    ⟨fun f hf => ?_, fun v hv => ?_, fun hno => ?_, fun v hv => ?_, fun hno => ?_⟩
  · rcases List.mem_pair.mp hf with rfl | rfl
    · exact .other fun entries he => by cases he
    · refine .object s.messages.nodup_fullFields fun f hf => ?_
      obtain ⟨kind, -, rfl⟩ := List.mem_map.mp hf
      exact .other fun entries he => by cases he
  · exact (List.mem_pair.mp hf).imp (congrArg Prod.fst) (congrArg Prod.fst)
  · obtain rfl : v = .integer s.precision := by simpa [hdiffer] using hv
    exact ⟨h.integer_coerces (.integer _), hs⟩
  · exact absurd List.mem_cons_self (hno _)
  · obtain rfl : v = .object s.messages.fullFields := by simpa [hdiffer.symm] using hv
    exact ⟨_, rfl, s.messages.describes_fullFields⟩
  · exact absurd (List.mem_cons_of_mem _ List.mem_cons_self) (hno _)

omit h in
/-- The fields of a precision alone. -/
theorem nodup_precision (v : Value) : ([(precisionKey, v)].map Prod.fst).Nodup ∧
    ∀ w, (messagesKey, w) ∉ [(precisionKey, v)] := by
  refine ⟨List.nodup_singleton _, fun w hw => ?_⟩
  have hkey : messagesKey = precisionKey := congrArg Prod.fst (List.mem_singleton.mp hw)
  exact absurd hkey (by decide)

/-- A precision alone, of a value that counts as an integer. -/
theorem validate_precision_of_coerces {v : Value} {n : Int} (hv : Coerces v n) :
    validate validator (.object [(precisionKey, v)]) = .ok { precision := n } ↔
      1 ≤ n ∧ n ≤ 999 := by
  obtain ⟨hkeys, hmessages⟩ := nodup_precision v
  have hnamed : v.IsNamed := .other (by cases hv <;> exact fun entries he => by cases he)
  rw [validate_object_eq_ok_iff h hkeys fun f hf => List.mem_singleton.mp hf ▸ hnamed]
  constructor
  · exact fun hs => (hs.precision v List.mem_cons_self).2
  · intro hn
    refine ⟨fun f hf => ?_, fun w hw => ?_, fun hno => ?_, fun w hw => ?_, fun _ => rfl⟩
    · exact .inl (congrArg Prod.fst (List.mem_singleton.mp hf))
    · obtain rfl : w = v := congrArg Prod.snd (List.mem_singleton.mp hw)
      exact ⟨h.integer_coerces hv, hn⟩
    · exact absurd List.mem_cons_self (hno v)
    · exact absurd hw (hmessages w)

/-- A precision alone, of a value that counts as no integer. -/
theorem validate_precision_of_misfits {v : Value} {c : Complaint} (hv : Misfits v c) :
    validate validator (.object [(precisionKey, v)]) = .error [⟨[.name precisionKey], c⟩] := by
  obtain ⟨hkeys, hmessages⟩ := nodup_precision v
  have hread : validator.integer precisionBounds v = .error [⟨[], c⟩] :=
    h.integer_unread _ (h.integer_misfits hv)
  have hmissing : [(precisionKey, v)].lookup messagesKey = none :=
    (lookup_eq_none_iff hkeys).mpr hmessages
  refine (h.model_eq_error_iff hkeys).mpr ⟨fun hfits => ?_, ?_⟩
  · obtain ⟨change, hchange⟩ :=
      hfits.given (precisionField validator) List.mem_cons_self v List.mem_cons_self
    obtain ⟨n, hn, -⟩ := map_eq_ok.mp hchange
    rw [hread] at hn
    cases hn
  · simp [Model.problems, Model.undeclared, model, Field.problems, precisionField, messagesField,
      hread, hmissing, Except.map, Problem.under, unknownKeys, Model.names]

/-- **Validation is exact and stable**, whatever validator with the documented rules it uses. Data
in an exchange format is accepted exactly if it is a mapping whose fields describe settings, and it
is read as these; their full form is read as the same settings again. A mapping that is refused is
told all its offending keys, each of them once, at its place and in the order of the places. Other
data has one problem, at the root. A value that counts as an integer is a precision exactly if it is
one from 1 to 999, and one that counts as none is refused for that. -/
theorem validate_exact {d : Value} (hd : d.IsJson) :
    (∀ s, validate validator d = .ok s ↔
      ∃ fields, d = .object fields ∧ Describes validator fields s) ∧
    (∀ s, validate validator d = .ok s → validate validator s.toValue = .ok s) ∧
    (∀ fields, d = .object fields → (∀ s, ¬Describes validator fields s) →
      ∃ ps, validate validator d = .error ps ∧ ps ≠ [] ∧
        (∀ p, p ∈ ps ↔ Offends validator fields p) ∧
        (ps.map Problem.place).Sublist (places fields) ∧ (places fields).Nodup) ∧
    ((∀ fields, d ≠ .object fields) → validate validator d = .error [⟨[], .modelType⟩]) ∧
    (∀ v n, Coerces v n → (validate validator (.object [(precisionKey, v)]) =
      .ok { precision := n } ↔ 1 ≤ n ∧ n ≤ 999)) ∧
    ∀ v c, Misfits v c →
      validate validator (.object [(precisionKey, v)]) = .error [⟨[.name precisionKey], c⟩] := by
  have hno : (∀ fields, d ≠ .object fields) → ∀ entries, d ≠ .mapping entries := by
    intro hno
    rcases hd.isNamed.object_or with ⟨fields, rfl, -⟩ | hno'
    · exact absurd rfl (hno fields)
    · exact hno'
  refine ⟨fun s => ⟨fun hs => ?accepted, ?described⟩,
    fun s hs => validate_toValue h (valid_of_validate h hd.isNamed hs), ?refused,
    fun hd => h.model_type _ (hno hd), fun v n => validate_precision_of_coerces h,
    fun v c => validate_precision_of_misfits h⟩
  case accepted =>
    by_cases hobject : ∃ fields, d = .object fields
    · obtain ⟨fields, rfl⟩ := hobject
      obtain ⟨hkeys, hvalues⟩ := hd.isNamed.of_object
      exact ⟨fields, rfl, (validate_object_eq_ok_iff h hkeys hvalues).mp hs⟩
    · obtain ⟨entries, he⟩ := h.exists_mapping hs
      exact absurd he (hno (not_exists.mp hobject) entries)
  case described =>
    rintro ⟨fields, rfl, hs⟩
    obtain ⟨hkeys, hvalues⟩ := hd.isNamed.of_object
    exact (validate_object_eq_ok_iff h hkeys hvalues).mpr hs
  case refused =>
    rintro fields rfl hundescribed
    obtain ⟨hkeys, hvalues⟩ := hd.isNamed.of_object
    have hfits : ¬(model validator).Fits fields := fun hfits =>
      hundescribed _ ((validate_object_eq_ok_iff h hkeys hvalues).mp
        ((h.model_eq_ok_iff hkeys).mpr ⟨hfits, rfl⟩))
    refine ⟨_, (h.model_eq_error_iff hkeys).mpr ⟨hfits, rfl⟩,
      fun hnil => hfits ((fits_iff h hkeys hvalues).mpr hnil),
      fun p => mem_problems_iff h hkeys fun f hf => hd.of_mem_object hf,
      places_problems h hkeys hvalues, nodup_places hkeys hvalues⟩

end Results

/-- Wrong keys at both levels, in an order of their own, and accepted settings next to them, as the
lax validator reads them. -/
theorem validate_exact_mixed :
    let inner : List (Text × Value) :=
      [(['x'], .null), (Messages.keyOf .divisionByZero, .integer 0),
        (Messages.keyOf .malformedFormat, .text ['?'])]
    let fields : List (Text × Value) :=
      [(['y'], .null), (messagesKey, .object inner), (precisionKey, .integer 1000)]
    let ps : List Problem :=
      [⟨[.name precisionKey], .lessThanEqual⟩,
        ⟨[.name messagesKey, .name (Messages.keyOf .divisionByZero)], .stringType⟩,
        ⟨[.name messagesKey, .name ['x']], .extraForbidden⟩, ⟨[.name ['y']], .extraForbidden⟩]
    let accepted : Value := .object [(precisionKey, .boolean true)]
    let s : Settings := { precision := 1 }
    (Validator.lax.Documented ∧ (Value.object fields).IsJson ∧
        ofValue (.object fields) = .error ps ∧ accepted.IsJson ∧ ofValue accepted = .ok s) ∧
      (∀ p, p ∈ ps ↔ Offends .lax fields p) ∧ (ps.map Problem.place).Sublist (places fields) ∧
      ofValue s.toValue = .ok s ∧ ofValue .null = .error [⟨[], .modelType⟩] ∧
      ofValue (.object [(precisionKey, .text ['9', '9', '9'])]) = .ok { precision := 999 } ∧
      ofValue (.object [(precisionKey, .text ['x'])]) =
        .error [⟨[.name precisionKey], .intParsing⟩] := by
  intro inner fields ps accepted s
  have hinner : (Value.object inner).IsJson := by
    refine .object (by decide) fun f hf => ?_
    simp only [inner, List.mem_cons, List.not_mem_nil, or_false] at hf
    rcases hf with rfl | rfl | rfl
    · exact .null
    · exact .integer 0
    · exact .text _
  have hfields : (Value.object fields).IsJson := by
    refine .object (by decide) fun f hf => ?_
    simp only [fields, List.mem_cons, List.not_mem_nil, or_false] at hf
    rcases hf with rfl | rfl | rfl
    · exact .null
    · exact hinner
    · exact .integer 1000
  have haccepted : accepted.IsJson :=
    .object (by decide) fun f hf => List.mem_singleton.mp hf ▸ .boolean true
  have hps : ofValue (.object fields) = .error ps := by rfl
  have hs : ofValue accepted = .ok s := by rfl
  have hlax := Validator.lax_documented
  obtain ⟨hdescribed, -, hrefused, -⟩ := validate_exact hlax hfields
  have hundescribed : ∀ s, ¬Describes .lax fields s := by
    intro s hs
    have hok : ofValue (.object fields) = .ok s := (hdescribed s).mpr ⟨fields, rfl, hs⟩
    rw [hps] at hok
    cases hok
  obtain ⟨ps', hps', -, hmem, hsublist, -⟩ := hrefused fields rfl hundescribed
  obtain rfl : ps' = ps := Except.error.inj (hps'.symm.trans hps)
  obtain ⟨-, hstable, -⟩ := validate_exact hlax haccepted
  obtain ⟨-, -, -, hother, hcoerces, hmisfits⟩ := validate_exact hlax .null
  have hnumeral : Coerces (.text ['9', '9', '9']) 999 := .numeral (n := 999) (by decide)
  have hword : Misfits (.text ['x']) .intParsing :=
    .word fun c hc => by rw [List.mem_singleton.mp hc]; rfl
  exact ⟨⟨hlax, hfields, hps, haccepted, hs⟩, hmem, hsublist, hstable s hs,
    hother (fun fields he => by cases he), (hcoerces _ _ hnumeral).mpr (by decide),
    hmisfits _ _ hword⟩

end Settings

end Reckon

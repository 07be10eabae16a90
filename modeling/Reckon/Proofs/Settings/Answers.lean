import Reckon.Proofs.Settings.Documented

/-!
# Answer texts in data

Whatever validator with the documented rules reads them: of named data, exactly those mappings are
answer texts whose keys are all kinds of failure and whose values write texts; a kind without a key
has its default. What is reported otherwise are the offending keys, the kinds first, in their order.

## Main definitions

* `Messages.Describes`: what fields describe
* `Messages.Offends`: the problems of offending keys
* `Messages.places`: the places that can have a problem, in their order

## Main results

* `Messages.validate_object_eq_ok_iff`: what is accepted
* `Messages.mem_problems_iff`, `Messages.places_problems`: what is reported, and in which order
-/

namespace Reckon

open Value Validator

variable {validator : Validator} {fields : List (Text × Value)}

namespace Messages

/-- The fields describe the answer texts: all are known and write texts, and an answer text without
a field is the default. -/
structure Describes (fields : List (Text × Value)) (m : Messages) : Prop where
  known : ∀ f ∈ fields, ∃ kind, f.1 = keyOf kind
  given : ∀ kind v, (keyOf kind, v) ∈ fields → v.Writes (m.forKind kind)
  missing : ∀ kind, (∀ v, (keyOf kind, v) ∉ fields) → m.forKind kind = ({} : Messages).forKind kind

/-- The problems of offending keys: a known one whose value is no text, and an unknown one. -/
inductive Offends (fields : List (Text × Value)) : Problem → Prop where
  | noText {kind : FailureKind} {v : Value} : (keyOf kind, v) ∈ fields → (∀ t, v ≠ .text t) →
      Offends fields ⟨[.name (keyOf kind)], .stringType⟩
  | unknown {name : Text} {v : Value} : (name, v) ∈ fields → (∀ kind, name ≠ keyOf kind) →
      Offends fields ⟨[.name name], .extraForbidden⟩

/-- The places that can have a problem: those of the known keys in order, then those of the unknown
keys as they come. -/
def places (fields : List (Text × Value)) : List (List Problem.Step) :=
  (kinds.map keyOf ++ unknownKeys (kinds.map keyOf) fields).map fun name => [.name name]

theorem mem_kinds (kind : FailureKind) : kind ∈ kinds := by
  cases kind <;> decide

theorem mem_keys {name : Text} : name ∈ kinds.map keyOf ↔ ∃ kind, name = keyOf kind := by
  constructor
  · intro h
    obtain ⟨kind, -, rfl⟩ := List.mem_map.mp h
    exact ⟨kind, rfl⟩
  · rintro ⟨kind, rfl⟩
    exact List.mem_map_of_mem (mem_kinds kind)

theorem names_model : (model validator).names = kinds.map keyOf := rfl

theorem mem_fields_model {f : Validator.Field Messages} :
    f ∈ (model validator).fields ↔ ∃ kind, f = field validator kind := by
  constructor
  · intro hf
    obtain ⟨kind, -, rfl⟩ := List.mem_map.mp hf
    exact ⟨kind, rfl⟩
  · rintro ⟨kind, rfl⟩
    exact List.mem_map_of_mem (mem_kinds kind)

theorem nodup_places (hkeys : (fields.map Prod.fst).Nodup) : (places fields).Nodup := by
  have hnames : (kinds.map keyOf ++ unknownKeys (kinds.map keyOf) fields).Nodup :=
    nodup_known_append (by decide) hkeys
  exact hnames.map fun name name' he => by simpa using he

theorem fill_field (kind : FailureKind) (m : Messages) :
    (field validator kind).fill fields m =
      (given? validator.text (keyOf kind) fields).elim m (m.set kind) :=
  Field.fill_map (fun text (m : Messages) => m.set kind text) m

/-- Fields that are filled in one after the other leave the text that is given for a kind. -/
theorem forKind_foldl_fill (ks : List FailureKind) (m : Messages) (kind : FailureKind) :
    ((ks.map (field validator)).foldl (Field.fill fields) m).forKind kind =
      if kind ∈ ks then (given? validator.text (keyOf kind) fields).getD (m.forKind kind)
      else m.forKind kind := by
  induction ks generalizing m with
  | nil => rfl
  | cons k ks ih =>
    rw [List.map_cons, List.foldl_cons, ih, fill_field]
    by_cases hk : kind = k
    · subst hk
      cases given? validator.text (keyOf kind) fields <;> simp
    · cases given? validator.text (keyOf k) fields <;> simp [hk]

theorem forKind_filled (kind : FailureKind) :
    ((model validator).filled fields).forKind kind =
      (given? validator.text (keyOf kind) fields).getD (({} : Messages).forKind kind) :=
  (forKind_foldl_fill kinds {} kind).trans (if_pos (mem_kinds kind))

section Documented

variable (h : validator.Documented) (hkeys : (fields.map Prod.fst).Nodup)

include h

/-- A field of an answer text is read exactly from what writes a text. -/
theorem exists_read_iff {kind : FailureKind} {v : Value} :
    (∃ change, (field validator kind).read v = .ok change) ↔ ∃ t, v.Writes t := by
  simp only [field, map_eq_ok, h.text_eq_ok_iff]
  constructor
  · rintro ⟨change, t, ht, -⟩
    exact ⟨t, ht⟩
  · rintro ⟨t, ht⟩
    exact ⟨_, t, ht, rfl⟩

theorem read_eq_error {kind : FailureKind} {v : Value} {ps : List Problem}
    (hps : (field validator kind).read v = .error ps) : ∃ c, ps = [⟨[], c⟩] :=
  h.text_refused (map_eq_error.mp hps)

include hkeys

/-- What is accepted as answer texts, and as which. -/
theorem validate_object_eq_ok_iff {m : Messages} :
    validate validator (.object fields) = .ok m ↔ Describes fields m := by
  rw [validate, h.model_eq_ok_iff hkeys]
  constructor
  · rintro ⟨hfits, rfl⟩
    refine ⟨fun f hf => mem_keys.mp (hfits.declared rfl f hf), fun kind v hv => ?_,
      fun kind hno => ?_⟩
    · obtain ⟨t, ht⟩ :=
        (exists_read_iff h).mp (hfits.given _ (mem_fields_model.mpr ⟨kind, rfl⟩) v hv)
      rw [forKind_filled, given?_of_mem hkeys hv (h.text_writes ht)]
      exact ht
    · rw [forKind_filled, given?_of_absent hkeys hno, Option.getD_none]
  · intro hm
    refine ⟨⟨fun f hf v hv => ?_, fun _ f hf => mem_keys.mpr (hm.known f hf)⟩,
      ext_forKind fun kind => ?_⟩
    · obtain ⟨kind, rfl⟩ := mem_fields_model.mp hf
      exact (exists_read_iff h).mpr ⟨_, hm.given kind v hv⟩
    · rw [forKind_filled]
      exact (getD_given? hkeys (fun v hv => h.text_writes (hm.given kind v hv))
        (hm.missing kind)).symm

theorem fits_iff : (model validator).Fits fields ↔ (model validator).problems fields = [] := by
  refine Model.fits_iff hkeys fun f hf v _ hread => ?_
  obtain ⟨kind, rfl⟩ := mem_fields_model.mp hf
  obtain ⟨c, hc⟩ := read_eq_error h hread
  cases hc

/-- The problems of answer texts come in the order of the places. -/
theorem places_problems :
    (((model validator).problems fields).map Problem.place).Sublist (places fields) := by
  have hsublist := Validator.places_problems (m := model validator) hkeys (fun _ => [[]])
    fun f hf v ps _ hps => by
      obtain ⟨kind, rfl⟩ := mem_fields_model.mp hf
      obtain ⟨c, rfl⟩ := read_eq_error h hps
      exact List.Sublist.refl _
  rw [places, List.map_append]
  exact hsublist

/-- What is reported of answer texts in an exchange format is what the offending keys have. -/
theorem mem_problems_iff (hvalues : ∀ f ∈ fields, f.2.IsJson) {p : Problem} :
    p ∈ (model validator).problems fields ↔ Offends fields p := by
  have herror {kind v ps} (hv : (keyOf kind, v) ∈ fields) :
      (field validator kind).read v = .error ps ↔
        (∀ t, v ≠ .text t) ∧ ps = [⟨[], .stringType⟩] := by
    rw [field, map_eq_error]
    constructor
    · intro hps
      have hno : ∀ t, v ≠ .text t := by
        rintro t rfl
        rw [h.text_writes (.text t)] at hps
        cases hps
      have hbytes : ∀ bs, v ≠ .bytes bs := by
        rintro bs rfl
        cases hvalues _ hv
      rw [h.text_misfits hno hbytes] at hps
      exact ⟨hno, (Except.error.inj hps).symm⟩
    · rintro ⟨hno, rfl⟩
      refine h.text_misfits hno ?_
      rintro bs rfl
      cases hvalues _ hv
  rw [Model.problems, List.mem_append, List.mem_flatMap, Model.mem_undeclared_iff]
  constructor
  · rintro (⟨f, hf, hp⟩ | ⟨-, name, v, hv, hunknown, rfl⟩)
    · obtain ⟨kind, rfl⟩ := mem_fields_model.mp hf
      obtain ⟨v, ps, hv, hps, q, hq, rfl⟩ := (Field.mem_problems_iff hkeys).mp hp
      obtain ⟨hno, rfl⟩ := (herror hv).mp hps
      rw [List.mem_singleton.mp hq]
      exact .noText hv hno
    · exact .unknown hv fun kind hkind => hunknown (mem_keys.mpr ⟨kind, hkind⟩)
  · rintro (@⟨kind, v, hv, hno⟩ | @⟨name, v, hv, hunknown⟩)
    · exact .inl ⟨_, mem_fields_model.mpr ⟨kind, rfl⟩, (Field.mem_problems_iff hkeys).mpr
        ⟨v, _, hv, (herror hv).mpr ⟨hno, rfl⟩, _, List.mem_singleton_self _, rfl⟩⟩
    · refine .inr ⟨rfl, name, v, hv, fun hmem => ?_, rfl⟩
      obtain ⟨kind, hkind⟩ := mem_keys.mp hmem
      exact hunknown kind hkind

end Documented

/-! ### Values -/

section Values

variable (h : validator.Documented) {v : Value}

include h

/-- Only mappings are accepted as answer texts. -/
theorem validate_of_ne_mapping (hno : ∀ entries, v ≠ .mapping entries) :
    validate validator v = .error [⟨[], .modelType⟩] :=
  h.model_type _ hno

theorem validate_eq_ok_iff (hv : v.IsNamed) {m : Messages} : validate validator v = .ok m ↔
    ∃ inner, v = .object inner ∧ Describes inner m := by
  rcases hv.object_or with ⟨inner, rfl, hkeys, -⟩ | hno
  · rw [validate_object_eq_ok_iff h hkeys]
    constructor
    · exact fun hm => ⟨inner, rfl, hm⟩
    · rintro ⟨inner', he, hm⟩
      exact object_inj he ▸ hm
  · rw [validate_of_ne_mapping h hno]
    constructor
    · exact fun hm => by cases hm
    · rintro ⟨inner, rfl, -⟩
      exact absurd rfl (hno _)

/-- Answer texts are not refused without a problem. -/
theorem validate_ne_error_nil (hv : v.IsNamed) : validate validator v ≠ .error [] := by
  intro hnil
  rcases hv.object_or with ⟨inner, rfl, hkeys, -⟩ | hno
  · obtain ⟨hno, hps⟩ := (h.model_eq_error_iff hkeys).mp hnil
    exact hno ((fits_iff h hkeys).mpr hps.symm)
  · rw [validate_of_ne_mapping h hno] at hnil
    cases hnil

/-- What is reported of a value: that it is no mapping, or what the offending keys have. -/
theorem exists_error_iff (hv : v.IsJson) {p : Problem} :
    (∃ ps, validate validator v = .error ps ∧ p ∈ ps) ↔
      (∀ inner, v ≠ .object inner) ∧ p = ⟨[], .modelType⟩ ∨
        ∃ inner, v = .object inner ∧ Offends inner p := by
  rcases hv.isNamed.object_or with ⟨inner, rfl, hkeys, -⟩ | hno
  · have hmem := mem_problems_iff h hkeys (p := p) fun f hf => hv.of_mem_object hf
    have hobject : (∃ ps, validate validator (.object inner) = .error ps ∧ p ∈ ps) ↔
        p ∈ (model validator).problems inner := by
      constructor
      · rintro ⟨ps, hps, hp⟩
        exact ((h.model_eq_error_iff hkeys).mp hps).2 ▸ hp
      · intro hp
        refine ⟨_, (h.model_eq_error_iff hkeys).mpr ⟨fun hfits => ?_, rfl⟩, hp⟩
        exact List.ne_nil_of_mem hp ((fits_iff h hkeys).mp hfits)
    rw [hobject, hmem]
    constructor
    · exact fun hp => .inr ⟨inner, rfl, hp⟩
    · rintro (⟨hno, -⟩ | ⟨inner', he, hp⟩)
      · exact absurd rfl (hno inner)
      · exact object_inj he ▸ hp
  · rw [validate_of_ne_mapping h hno]
    constructor
    · rintro ⟨ps, ⟨⟩, hp⟩
      exact .inl ⟨fun inner => hno _, List.mem_singleton.mp hp⟩
    · rintro (⟨-, rfl⟩ | ⟨inner, rfl, -⟩)
      · exact ⟨_, rfl, List.mem_singleton_self _⟩
      · exact absurd rfl (hno _)

end Values

/-! ### The full form -/

/-- All kinds with their texts. -/
def fullFields (m : Messages) : List (Text × Value) :=
  kinds.map fun kind => (keyOf kind, .text (m.forKind kind))

theorem toValue_eq_object (m : Messages) : m.toValue = .object m.fullFields := by
  rw [toValue, object, entriesOf, fullFields, List.map_map]
  rfl

theorem nodup_fullFields (m : Messages) : (m.fullFields.map Prod.fst).Nodup := by
  rw [fullFields, List.map_map]
  show (kinds.map keyOf).Nodup
  decide

/-- Answer texts are described by their full form. -/
theorem describes_fullFields (m : Messages) : Describes m.fullFields m := by
  have hmem {f : Text × Value} (hf : f ∈ m.fullFields) :
      ∃ kind, f = (keyOf kind, .text (m.forKind kind)) := by
    obtain ⟨kind, -, rfl⟩ := List.mem_map.mp hf
    exact ⟨kind, rfl⟩
  have hkeys : ∀ kind kind', keyOf kind = keyOf kind' → kind = kind' := by
    intro kind kind'
    cases kind <;> cases kind' <;> decide
  refine ⟨fun f hf => ?_, fun kind v hv => ?_, fun kind hno => ?_⟩
  · obtain ⟨kind, rfl⟩ := hmem hf
    exact ⟨kind, rfl⟩
  · obtain ⟨kind', he⟩ := hmem hv
    obtain ⟨hkey, rfl⟩ := Prod.mk.inj he
    rw [hkeys _ _ hkey]
    exact .text _
  · exact absurd (List.mem_map_of_mem (mem_kinds kind)) (hno _)

end Messages

end Reckon

import Reckon.Encoding.Utf8
import Reckon.Proofs.Outcome
import Reckon.Proofs.Settings.Json
import Reckon.Settings.Validate

/-!
# What is known of a validator

Settings are declared for any validator, and nothing is assumed of it but its documented rules:
which values count as integers and as texts, how bounds are kept, and what is reported of a model,
in which order. What a text that is no plain numeral counts as, for instance, is left to the
validator.

From the rules follows what becomes of a model that is declared with given fields: the data is
accepted exactly if there are no problems, it is then the defaults with what the fields give, and
the problems are those of the given fields and the other keys, in the order of the places where they
can be.

## Main definitions

* `Value.Writes`: a text in data
* `Validator.Coerces`, `Validator.Misfits`: what counts as an integer, and what does not
* `Validator.Model.problems`, `Validator.Model.filled`: what fields give for a model
* `Validator.Documented`: the documented rules
* `Validator.given?`: what the value under a name is read as

## Main results

* `Documented.integer_eq_ok_iff`, `Documented.text_eq_ok_iff`: which integers and texts are read
* `Documented.model_eq_ok_iff`, `Documented.model_eq_error_iff`: which instances are read, and what
  is reported otherwise
* `Validator.places_problems`: the problems of a model come in the order of their places
-/

namespace Reckon

-- Powers are those of the core library, whatever else is imported.
attribute [local instance (high)] instPowNat

open Value

/-- A text in data: as it is, or in UTF-8. -/
inductive Value.Writes : Value → Text → Prop where
  | text (t : Text) : Writes (.text t) t
  | bytes {bs : List UInt8} {t : Text} : Utf8.decode bs = .ok t → Writes (.bytes bs) t

namespace Validator

/-! ## Rules for integers -/

/-- The longest text that counts as an integer, in characters. -/
def maxNumeral : Nat := 4300

/-- The values that count as integers: integers themselves, truth values as one and zero, integral
reals that are not too large, and numerals. -/
inductive Coerces : Value → Int → Prop where
  | integer (n : Int) : Coerces (.integer n) n
  | boolean (b : Bool) : Coerces (.boolean b) (if b then 1 else 0)
  | real {x : Binary64} {n : Int} : x.toInt? = some n → n.natAbs < 2 ^ (63 : Nat) →
      Coerces (.real x) n
  | numeral {n : Int} : (integerText n).length ≤ maxNumeral → Coerces (.text (integerText n)) n

/-- The values that count as no integer, with what is wrong with them. -/
inductive Misfits : Value → Complaint → Prop where
  | null : Misfits .null .intType
  | sequence (items : List Value) : Misfits (.sequence items) .intType
  | mapping (entries : List (Value × Value)) : Misfits (.mapping entries) .intType
  | infinite {x : Binary64} : x.isFinite = false → Misfits (.real x) .finiteNumber
  | fractional {x : Binary64} : x.isFinite = true → x.toInt? = none →
      Misfits (.real x) .intFromFloat
  | word {t : Text} : (∀ c ∈ t, c.isDigit = false) → Misfits (.text t) .intParsing

/-- An integer keeps within bounds. -/
structure Bounds.Contains (b : Bounds) (n : Int) : Prop where
  least : ∀ l, b.least? = some l → l ≤ n
  greatest : ∀ g, b.greatest? = some g → n ≤ g

/-! ## Rules for models -/

section Model

variable {α : Type}

/-- The problems of the value under the name of a field. -/
def Field.problems (fields : List (Text × Value)) (f : Field α) : List Problem :=
  match fields.lookup f.name with
  | none => []
  | some v =>
    match f.read v with
    | .ok _ => []
    | .error ps => ps.map (Problem.under f.name)

/-- An instance with what the value under the name of a field makes of it. -/
def Field.fill (fields : List (Text × Value)) (a : α) (f : Field α) : α :=
  match fields.lookup f.name with
  | none => a
  | some v =>
    match f.read v with
    | .ok change => change a
    | .error _ => a

/-- The problems of keys that are not declared, where these are forbidden. -/
def Model.undeclared (m : Model α) (fields : List (Text × Value)) : List Problem :=
  match m.extra with
  | .ignore => []
  | .forbid => (unknownKeys m.names fields).map fun name => ⟨[.name name], .extraForbidden⟩

/-- All problems of the data of a model: those of the fields in the order of their declaration, then
those of other keys as they come. -/
def Model.problems (m : Model α) (fields : List (Text × Value)) : List Problem :=
  m.fields.flatMap (Field.problems fields) ++ m.undeclared fields

/-- The instance that the data of a model describes: the defaults with what is given. -/
def Model.filled (m : Model α) (fields : List (Text × Value)) : α :=
  m.fields.foldl (Field.fill fields) m.defaults

/-- Data fits a model: every field that is given is read, and no forbidden key is there. -/
structure Model.Fits (m : Model α) (fields : List (Text × Value)) : Prop where
  given : ∀ f ∈ m.fields, ∀ v, (f.name, v) ∈ fields → ∃ change, f.read v = .ok change
  declared : m.extra = .forbid → ∀ x ∈ fields, x.1 ∈ m.names

end Model

/-- The documented rules of a validator. -/
structure Documented (validator : Validator) : Prop where
  /-- What counts as an integer is read as that integer. -/
  integer_coerces {v : Value} {n : Int} : Coerces v n → validator.integer {} v = .ok n
  /-- What counts as no integer is refused for that. -/
  integer_misfits {v : Value} {c : Complaint} : Misfits v c →
    validator.integer {} v = .error [⟨[], c⟩]
  /-- A value that is refused as an integer has one problem, which is its own. -/
  integer_refused {v : Value} {ps : List Problem} : validator.integer {} v = .error ps →
    ∃ c, ps = [⟨[], c⟩]
  /-- Bounds do not matter for what is no integer. -/
  integer_unread {v : Value} {ps : List Problem} (b : Bounds) :
    validator.integer {} v = .error ps → validator.integer b v = .error ps
  /-- An integer within bounds is read. -/
  integer_within {v : Value} {n : Int} {b : Bounds} : validator.integer {} v = .ok n →
    b.Contains n → validator.integer b v = .ok n
  /-- An integer above the upper bound is refused for that. -/
  integer_above {v : Value} {n g : Int} {b : Bounds} : validator.integer {} v = .ok n →
    b.greatest? = some g → g < n → validator.integer b v = .error [⟨[], .lessThanEqual⟩]
  /-- An integer below the lower bound is refused for that, unless the upper bound refuses it. -/
  integer_below {v : Value} {n l : Int} {b : Bounds} : validator.integer {} v = .ok n →
    b.least? = some l → n < l → (∀ g, b.greatest? = some g → n ≤ g) →
      validator.integer b v = .error [⟨[], .greaterThanEqual⟩]
  /-- A text is read as it is, and bytes as the text that they write. -/
  text_writes {v : Value} {t : Text} : v.Writes t → validator.text v = .ok t
  /-- Bytes that are not in UTF-8 are refused for that. -/
  text_undecodable {bs : List UInt8} {f : Utf8.Fault} : Utf8.decode bs = .error f →
    validator.text (.bytes bs) = .error [⟨[], .stringUnicode⟩]
  /-- What is neither a text nor bytes is refused as a text. -/
  text_misfits {v : Value} : (∀ t, v ≠ .text t) → (∀ bs, v ≠ .bytes bs) →
    validator.text v = .error [⟨[], .stringType⟩]
  /-- A model is read from mappings only. -/
  model_type {α : Type} (m : Model α) {v : Value} : (∀ entries, v ≠ .mapping entries) →
    validator.model m v = .error [⟨[], .modelType⟩]
  /-- Data is accepted if and only if it fits the model. -/
  model_accepts {α : Type} {m : Model α} {fields : List (Text × Value)} :
    (fields.map Prod.fst).Nodup →
      ((∃ a, validator.model m (.object fields) = .ok a) ↔ m.Fits fields)
  /-- An instance holds what is given, and the defaults for what is missing. -/
  model_instance {α : Type} {m : Model α} {fields : List (Text × Value)} {a : α} :
    (fields.map Prod.fst).Nodup → validator.model m (.object fields) = .ok a → a = m.filled fields
  /-- What is reported of data are all its problems, in their order. -/
  model_reports {α : Type} {m : Model α} {fields : List (Text × Value)} {ps : List Problem} :
    (fields.map Prod.fst).Nodup → validator.model m (.object fields) = .error ps →
      ps = m.problems fields

namespace Documented

variable {validator : Validator} (h : validator.Documented) {v : Value} {ps : List Problem}

include h

/-! ## Integers and texts -/

theorem integer_eq_ok_iff {b : Bounds} {n : Int} :
    validator.integer b v = .ok n ↔ validator.integer {} v = .ok n ∧ b.Contains n := by
  constructor
  · intro hn
    match hv : validator.integer {} v with
    | .error ps =>
      rw [h.integer_unread b hv] at hn
      cases hn
    | .ok k =>
      by_cases hk : b.Contains k
      · rw [h.integer_within hv hk] at hn
        cases hn
        exact ⟨rfl, hk⟩
      · by_cases hg : ∀ g, b.greatest? = some g → k ≤ g
        · have hl : ¬∀ l, b.least? = some l → l ≤ k := fun hl => hk ⟨hl, hg⟩
          obtain ⟨l, hl⟩ := not_forall.mp hl
          obtain ⟨hb, hlt⟩ := Classical.not_imp.mp hl
          rw [h.integer_below hv hb (Int.not_le.mp hlt) hg] at hn
          cases hn
        · obtain ⟨g, hg⟩ := not_forall.mp hg
          obtain ⟨hb, hlt⟩ := Classical.not_imp.mp hg
          rw [h.integer_above hv hb (Int.not_le.mp hlt)] at hn
          cases hn
  · rintro ⟨hv, hn⟩
    exact h.integer_within hv hn

theorem text_eq_ok_iff {t : Text} : validator.text v = .ok t ↔ v.Writes t := by
  refine ⟨fun ht => ?_, h.text_writes⟩
  cases v with
  | text u =>
    rw [h.text_writes (.text u)] at ht
    cases ht
    exact .text _
  | bytes bs =>
    cases hbs : Utf8.decode bs with
    | ok u =>
      rw [h.text_writes (.bytes hbs)] at ht
      cases ht
      exact .bytes hbs
    | error f =>
      rw [h.text_undecodable hbs] at ht
      cases ht
  | _ =>
    rw [h.text_misfits (fun _ he => by cases he) (fun _ he => by cases he)] at ht
    cases ht

/-- A value that is refused as a text has one problem, which is its own. -/
theorem text_refused (hps : validator.text v = .error ps) : ∃ c, ps = [⟨[], c⟩] := by
  cases v with
  | text u =>
    rw [h.text_writes (.text u)] at hps
    cases hps
  | bytes bs =>
    cases hbs : Utf8.decode bs with
    | ok u =>
      rw [h.text_writes (.bytes hbs)] at hps
      cases hps
    | error f =>
      rw [h.text_undecodable hbs] at hps
      cases hps
      exact ⟨_, rfl⟩
  | _ =>
    rw [h.text_misfits (fun _ he => by cases he) (fun _ he => by cases he)] at hps
    cases hps
    exact ⟨_, rfl⟩

/-! ## Models -/

variable {α : Type} {m : Model α} {a : α} {fields : List (Text × Value)}

/-- What is read as an instance of a model is a mapping. -/
theorem exists_mapping (ha : validator.model m v = .ok a) : ∃ entries, v = .mapping entries := by
  by_contra hno
  rw [h.model_type m (not_exists.mp hno)] at ha
  cases ha

theorem model_eq_ok_iff (hkeys : (fields.map Prod.fst).Nodup) :
    validator.model m (.object fields) = .ok a ↔ m.Fits fields ∧ a = m.filled fields := by
  constructor
  · exact fun ha => ⟨(h.model_accepts hkeys).mp ⟨a, ha⟩, h.model_instance hkeys ha⟩
  · rintro ⟨hfits, rfl⟩
    obtain ⟨b, hb⟩ := (h.model_accepts hkeys).mpr hfits
    rw [hb, h.model_instance hkeys hb]

theorem model_eq_error_iff (hkeys : (fields.map Prod.fst).Nodup) :
    validator.model m (.object fields) = .error ps ↔ ¬m.Fits fields ∧ ps = m.problems fields := by
  constructor
  · intro hps
    refine ⟨fun hfits => ?_, h.model_reports hkeys hps⟩
    rw [(h.model_eq_ok_iff hkeys).mpr ⟨hfits, rfl⟩] at hps
    cases hps
  · rintro ⟨hno, rfl⟩
    match hv : validator.model m (.object fields) with
    | .ok a => exact absurd ((h.model_eq_ok_iff hkeys).mp hv).1 hno
    | .error qs => rw [h.model_reports hkeys hv]

end Documented

/-! ## What fields give -/

section Given

variable {α β : Type} {read : Value → Except (List Problem) β} {name : Text}
  {fields : List (Text × Value)}

/-- What the value under a name is read as, if there is one and it is read. -/
def given? (read : Value → Except (List Problem) β) (name : Text) (fields : List (Text × Value)) :
    Option β :=
  (fields.lookup name).bind fun v => (read v).toOption

/-- A field with a reader and a change of the instance makes this change with what is given. -/
theorem Field.fill_map (change : β → α → α) (a : α) :
    Field.fill fields a ⟨name, fun v => (read v).map change⟩ =
      (given? read name fields).elim a (change · a) := by
  rw [Field.fill, given?]
  cases hl : fields.lookup name with
  | none => simp
  | some v => cases hv : read v <;> simp [hv, Except.map, Except.toOption]

variable (hkeys : (fields.map Prod.fst).Nodup)

include hkeys

theorem given?_of_mem {v : Value} {b : β} (hv : (name, v) ∈ fields) (hb : read v = .ok b) :
    given? read name fields = some b := by
  rw [given?, (lookup_eq_some_iff hkeys).mpr hv, Option.bind_some, hb]
  rfl

theorem given?_of_absent (hno : ∀ v, (name, v) ∉ fields) : given? read name fields = none := by
  rw [given?, (lookup_eq_none_iff hkeys).mpr hno, Option.bind_none]

/-- What every value under a name is read as, and the default for none, is given with this default. -/
theorem getD_given? {default b : β} (hgiven : ∀ v, (name, v) ∈ fields → read v = .ok b)
    (hmissing : (∀ v, (name, v) ∉ fields) → b = default) :
    (given? read name fields).getD default = b := by
  by_cases hno : ∀ v, (name, v) ∉ fields
  · rw [given?_of_absent hkeys hno, hmissing hno, Option.getD_none]
  · simp only [not_forall, not_not] at hno
    obtain ⟨v, hv⟩ := hno
    rw [given?_of_mem hkeys hv (hgiven v hv), Option.getD_some]

end Given

/-! ## The problems of a model -/

section Problems

variable {α : Type} {m : Model α} {fields : List (Text × Value)}

theorem Field.mem_problems_iff (hkeys : (fields.map Prod.fst).Nodup) {f : Field α} {p : Problem} :
    p ∈ f.problems fields ↔ ∃ v ps, (f.name, v) ∈ fields ∧ f.read v = .error ps ∧
      ∃ q ∈ ps, q.under f.name = p := by
  simp only [← lookup_eq_some_iff hkeys]
  rw [Field.problems]
  cases fields.lookup f.name with
  | none => simp
  | some v => cases hv : f.read v <;> simp [hv]

theorem Model.mem_undeclared_iff {p : Problem} :
    p ∈ m.undeclared fields ↔ m.extra = .forbid ∧ ∃ name v, (name, v) ∈ fields ∧ name ∉ m.names ∧
      p = ⟨[.name name], .extraForbidden⟩ := by
  rw [Model.undeclared]
  cases m.extra with
  | ignore => simp
  | forbid =>
    simp only [List.mem_map, mem_unknownKeys, true_and]
    constructor
    · rintro ⟨name, ⟨hno, v, hv⟩, rfl⟩
      exact ⟨name, v, hv, hno, rfl⟩
    · rintro ⟨name, v, hv, hno, rfl⟩
      exact ⟨name, ⟨hno, v, hv⟩, rfl⟩

theorem Model.undeclared_eq_nil_iff :
    m.undeclared fields = [] ↔ (m.extra = .forbid → ∀ x ∈ fields, x.1 ∈ m.names) := by
  rw [Model.undeclared]
  cases m.extra with
  | ignore => simp
  | forbid =>
    rw [List.map_eq_nil_iff, unknownKeys_eq_nil_iff]
    simp

/-- Data fits a model exactly if it has no problems, where no field refuses a value without one. -/
theorem Model.fits_iff (hkeys : (fields.map Prod.fst).Nodup)
    (htell : ∀ f ∈ m.fields, ∀ v, (f.name, v) ∈ fields → f.read v ≠ .error []) :
    m.Fits fields ↔ m.problems fields = [] := by
  have hfield {f} (hf : f ∈ m.fields) : f.problems fields = [] ↔
      ∀ v, (f.name, v) ∈ fields → ∃ change, f.read v = .ok change := by
    rw [List.eq_nil_iff_forall_not_mem]
    constructor
    · intro hno v hv
      match hread : f.read v with
      | .ok change => exact ⟨change, rfl⟩
      | .error [] => exact absurd hread (htell f hf v hv)
      | .error (q :: qs) =>
        refine absurd ((f.mem_problems_iff hkeys).mpr ?_) (hno (q.under f.name))
        exact ⟨v, _, hv, hread, q, List.mem_cons_self, rfl⟩
    · intro hread p hp
      obtain ⟨v, ps, hv, hps, -⟩ := (f.mem_problems_iff hkeys).mp hp
      obtain ⟨change, hchange⟩ := hread v hv
      rw [hchange] at hps
      cases hps
  rw [Model.problems, List.append_eq_nil_iff, List.flatMap_eq_nil_iff,
    Model.undeclared_eq_nil_iff]
  constructor
  · exact fun h => ⟨fun f hf => (hfield hf).mpr (h.given f hf), h.declared⟩
  · exact fun ⟨hnil, hdeclared⟩ => ⟨fun f hf => (hfield hf).mp (hnil f hf), hdeclared⟩

/-- The problems of a field come in the order of the places inside its value, under its name. -/
theorem Field.places_problems (hkeys : (fields.map Prod.fst).Nodup) {f : Field α}
    {inside : List (List Problem.Step)}
    (h : ∀ v ps, (f.name, v) ∈ fields → f.read v = .error ps →
      (ps.map Problem.place).Sublist inside) :
    ((f.problems fields).map Problem.place).Sublist
      (inside.map (Problem.Step.name f.name :: ·)) := by
  rw [Field.problems]
  cases hl : fields.lookup f.name with
  | none => exact List.nil_sublist _
  | some v =>
    cases hv : f.read v with
    | ok change => simp [hv]
    | error ps =>
      have hplaces : (ps.map (Problem.under f.name)).map Problem.place =
          (ps.map Problem.place).map (Problem.Step.name f.name :: ·) := by
        rw [List.map_map, List.map_map]
        rfl
      simp only [hv, hplaces]
      exact (h v ps ((lookup_eq_some_iff hkeys).mp hl) hv).map _

/-- The problems of a model come in the order of their places: for every field, those inside its
value, and then the keys that are not declared. -/
theorem places_problems (hkeys : (fields.map Prod.fst).Nodup)
    (inside : Field α → List (List Problem.Step))
    (h : ∀ f ∈ m.fields, ∀ v ps, (f.name, v) ∈ fields → f.read v = .error ps →
      (ps.map Problem.place).Sublist (inside f)) :
    ((m.problems fields).map Problem.place).Sublist
      ((m.fields.flatMap fun f => (inside f).map (Problem.Step.name f.name :: ·)) ++
        (unknownKeys m.names fields).map fun name => [.name name]) := by
  have hfields : ∀ fs : List (Field α), (∀ f ∈ fs, f ∈ m.fields) →
      ((fs.flatMap (Field.problems fields)).map Problem.place).Sublist
        (fs.flatMap fun f => (inside f).map (Problem.Step.name f.name :: ·)) := by
    intro fs hfs
    induction fs with
    | nil => exact List.Sublist.refl _
    | cons f fs ih =>
      rw [List.flatMap_cons, List.flatMap_cons, List.map_append]
      exact (f.places_problems hkeys (h f (hfs f List.mem_cons_self))).append
        (ih fun g hg => hfs g (List.mem_cons_of_mem _ hg))
  have hothers : ((m.undeclared fields).map Problem.place).Sublist
      ((unknownKeys m.names fields).map fun name => [.name name]) := by
    rw [Model.undeclared]
    cases m.extra with
    | ignore => exact List.nil_sublist _
    | forbid =>
      rw [List.map_map]
      exact List.Sublist.refl _
  rw [Model.problems, List.map_append]
  exact (hfields m.fields fun _ hf => hf).append hothers

end Problems

end Validator

end Reckon

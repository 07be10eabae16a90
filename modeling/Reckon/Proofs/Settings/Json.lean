import Mathlib.Data.List.Nodup
import Reckon.Value.Basic

/-!
# Data with names

Data whose mappings have texts as keys, and no key twice. A name leads to every value under it then,
so what is said of the value that is looked up may be said of the fields instead. Data that programs
exchange is of this form, and so is a document whose keys are texts.

## Main definitions

* `Value.object fields`: a mapping with texts as keys
* `Value.IsNamed`: data whose mappings have texts as keys, and no key twice
* `Value.IsJson`: data in an exchange format
* `unknownKeys known fields`: the keys that are not known, as they come

## Main results

* `Value.lookup_eq_some_iff`: a name leads to every value under it
* `Value.IsJson.isNamed`: data in an exchange format has names
-/

namespace Reckon

namespace Value

/-- The entries with texts as keys. -/
def entriesOf (fields : List (Text × Value)) : List (Value × Value) :=
  fields.map fun f => (.text f.1, f.2)

/-- A mapping with texts as keys. -/
def object (fields : List (Text × Value)) : Value := .mapping (entriesOf fields)

/-- The fields of a mapping; none for other values. -/
def fields : Value → List (Text × Value)
  | mapping entries =>
    entries.filterMap fun
      | (text name, v) => some (name, v)
      | _ => none
  | _ => []

/-- Data whose mappings have texts as keys, and no key twice. -/
inductive IsNamed : Value → Prop where
  | object {fields : List (Text × Value)} : (fields.map Prod.fst).Nodup →
      (∀ f ∈ fields, IsNamed f.2) → IsNamed (.object fields)
  | other {v : Value} : (∀ entries, v ≠ .mapping entries) → IsNamed v

/-- Data in an exchange format: mappings have texts as keys, and no key twice. -/
inductive IsJson : Value → Prop where
  | null : IsJson .null
  | boolean (b : Bool) : IsJson (.boolean b)
  | integer (n : Int) : IsJson (.integer n)
  | real (x : Binary64) : IsJson (.real x)
  | text (t : Text) : IsJson (.text t)
  | sequence {items : List Value} : (∀ v ∈ items, IsJson v) → IsJson (.sequence items)
  | object {fields : List (Text × Value)} : (fields.map Prod.fst).Nodup →
      (∀ f ∈ fields, IsJson f.2) → IsJson (.object fields)

variable {fs : List (Text × Value)} {name : Text} {v : Value}

@[simp] theorem fields_object (fs : List (Text × Value)) : (object fs).fields = fs := by
  simp [object, entriesOf, fields, List.filterMap_map]

theorem object_inj {fs fs' : List (Text × Value)} (h : object fs = object fs') : fs = fs' := by
  rw [← fields_object fs, h, fields_object]

/-! ## Looking up a name -/

theorem find?_entriesOf (name : Text) (fs : List (Text × Value)) :
    find? name (entriesOf fs) = fs.lookup name := by
  induction fs with
  | nil => rfl
  | cons f fs ih =>
    obtain ⟨key, v⟩ := f
    by_cases h : key = name
    · subst h
      simp [entriesOf, find?]
    · rw [List.lookup_cons, beq_false_of_ne (Ne.symm h)]
      show (if key = name then some v else find? name (entriesOf fs)) = _
      rw [if_neg h, ih]

/-- Where no key comes twice, a name leads to every value under it. -/
theorem lookup_eq_some_iff (h : (fs.map Prod.fst).Nodup) :
    fs.lookup name = some v ↔ (name, v) ∈ fs := by
  induction fs with
  | nil => simp
  | cons f fs ih =>
    obtain ⟨key, w⟩ := f
    obtain ⟨hkey, hrest⟩ := List.nodup_cons.mp h
    by_cases hk : name = key
    · subst hk
      have habsent : (name, v) ∉ fs := fun hmem => hkey (List.mem_map.mpr ⟨_, hmem, rfl⟩)
      simp [habsent, eq_comm]
    · rw [List.lookup_cons, beq_false_of_ne hk, ih hrest]
      simp [hk]

theorem lookup_eq_none_iff (h : (fs.map Prod.fst).Nodup) :
    fs.lookup name = none ↔ ∀ v, (name, v) ∉ fs := by
  rw [Option.eq_none_iff_forall_ne_some]
  exact forall_congr' fun v => not_congr (lookup_eq_some_iff h)

/-! ## Named data -/

/-- Named data is a mapping of named data, or no mapping. -/
theorem IsNamed.object_or (h : IsNamed v) :
    (∃ fs, v = Value.object fs ∧ (fs.map Prod.fst).Nodup ∧ ∀ f ∈ fs, IsNamed f.2) ∨
      ∀ entries, v ≠ .mapping entries := by
  cases h with
  | object hkeys hvalues => exact .inl ⟨_, rfl, hkeys, hvalues⟩
  | other hno => exact .inr hno

theorem IsNamed.of_object (h : (Value.object fs).IsNamed) :
    (fs.map Prod.fst).Nodup ∧ ∀ f ∈ fs, IsNamed f.2 := by
  obtain ⟨fs', he, hkeys, hvalues⟩ := h.object_or.resolve_right fun hno => hno _ rfl
  obtain rfl := object_inj he
  exact ⟨hkeys, hvalues⟩

theorem IsNamed.nodup_fields (h : IsNamed v) : (v.fields.map Prod.fst).Nodup := by
  rcases h.object_or with ⟨fs, rfl, hkeys, -⟩ | hno
  · rwa [fields_object]
  · cases v with
    | mapping entries => exact absurd rfl (hno entries)
    | _ => exact List.nodup_nil

/-- Data in an exchange format has names. -/
theorem IsJson.isNamed (h : IsJson v) : IsNamed v := by
  induction h with
  | object hkeys _ ih => exact .object hkeys ih
  | _ => exact .other fun entries he => by cases he

theorem IsJson.of_mem_object (h : (Value.object fs).IsJson) {f : Text × Value} (hf : f ∈ fs) :
    IsJson f.2 := by
  generalize he : Value.object fs = v at h
  cases h with
  | object _ hvalues =>
    obtain rfl := object_inj he
    exact hvalues f hf
  | _ => cases he

end Value

/-! ## Unknown keys -/

variable {known : List Text} {fields : List (Text × Value)}

/-- The keys that are not known, as they come. -/
def unknownKeys (known : List Text) (fields : List (Text × Value)) : List Text :=
  (fields.map Prod.fst).filter fun name => !known.contains name

theorem mem_unknownKeys {name : Text} :
    name ∈ unknownKeys known fields ↔ name ∉ known ∧ ∃ v, (name, v) ∈ fields := by
  simp [unknownKeys, and_comm]

theorem unknownKeys_eq_nil_iff : unknownKeys known fields = [] ↔ ∀ f ∈ fields, f.1 ∈ known := by
  simp [unknownKeys]

theorem nodup_known_append (hk : known.Nodup) (h : (fields.map Prod.fst).Nodup) :
    (known ++ unknownKeys known fields).Nodup := by
  refine hk.append (h.filter _) fun name hknown hname => ?_
  exact (mem_unknownKeys.mp hname).1 hknown

end Reckon

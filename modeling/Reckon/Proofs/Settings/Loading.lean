import Reckon.Proofs.Calculator.Fault
import Reckon.Proofs.Calculator.Literal
import Reckon.Proofs.Settings.Validation
import Reckon.Settings.Load

/-!
# Loaded settings

Loading refuses a file, or it yields settings that every calculation can work with: their precision
is in range, so a calculation never fails for it, and a formula with a failure is answered by the
text that the file gives for its kind, or by the default text of that kind. This holds for any
reader of documents, of which nothing is assumed, and any validator with the documented rules.

## Main definitions

* `Value.IsNothing`: what counts as nothing
* `LoadFault.IsConfiguration`: the faults that concern what a file holds as settings
* `Settings.Asks read place kind t`: the text that a place asks for as the answer to a kind of
  failure

## Main results

* `Settings.load_file_eq_ok_iff`, `Settings.valid_of_load`: which settings a file has, and that they
  are valid
* `Settings.asks_of_load`: the answer texts are those that the place asks for
* `Settings.load_usable`: loaded settings are usable
-/

namespace Reckon

/-! ## Values -/

namespace Value

/-- The values that count as nothing. -/
inductive IsNothing : Value → Prop where
  | null : IsNothing .null
  | boolean : IsNothing (.boolean false)
  | integer : IsNothing (.integer 0)
  | real {x : Binary64} : x.isZero = true → IsNothing (.real x)
  | text : IsNothing (.text [])
  | bytes : IsNothing (.bytes [])
  | sequence : IsNothing (.sequence [])
  | mapping : IsNothing (.mapping [])
  | set : IsNothing (.set [])

theorem isEmpty_iff {v : Value} : v.isEmpty = true ↔ v.IsNothing := by
  constructor
  · intro h
    cases v with
    | null => exact .null
    | boolean b =>
      obtain rfl : b = false := by simpa [isEmpty] using h
      exact .boolean
    | integer n =>
      obtain rfl : n = 0 := by simpa [isEmpty] using h
      exact .integer
    | real x => exact .real h
    | text t =>
      obtain rfl := List.isEmpty_iff.mp h
      exact .text
    | bytes bs =>
      obtain rfl := List.isEmpty_iff.mp h
      exact .bytes
    | sequence items =>
      obtain rfl := List.isEmpty_iff.mp h
      exact .sequence
    | mapping entries =>
      obtain rfl := List.isEmpty_iff.mp h
      exact .mapping
    | set entries =>
      obtain rfl := List.isEmpty_iff.mp h
      exact .set
    | date | moment => cases h
  · rintro (_ | _ | _ | h | _ | _ | _ | _ | _)
    case real => exact h
    all_goals rfl

/-- The value under a name; there is none in what is no mapping. -/
def child? (name : Text) : Value → Option Value
  | mapping entries => find? name entries
  | _ => none

/-- The value that a document gives for the answer to a kind of failure. -/
def answer? (v : Value) (kind : FailureKind) : Option Value :=
  (v.child? Settings.messagesKey).bind (child? (Messages.keyOf kind))

theorem IsNothing.child?_eq_none {v : Value} (h : v.IsNothing) (name : Text) :
    v.child? name = none := by
  cases h <;> rfl

end Value

/-- The faults that concern what a file holds as settings, and not its encoding. -/
def LoadFault.IsConfiguration : LoadFault → Prop
  | malformed | notMapping _ | invalid _ => True
  | directory | encoding _ | unreadable _ => False

theorem Yaml.ofFile_of_decode {bytes : List UInt8} {t : Text} (h : Utf8.decode bytes = .ok t) :
    ofFile bytes = load (.ofText (withLineFeeds t)) := by
  rw [ofFile, Stream.ofBytes_of_decode h]

namespace Settings

open Validator
open Value (object find?_entriesOf lookup_eq_some_iff lookup_eq_none_iff)

variable {read : DocumentReader} {validator : Validator} {v : Value} {s : Settings}
  {bytes : List UInt8} {argument environment : Option Place}

/-! ## Documents -/

/-- A mapping that does not count as nothing is read as settings. -/
theorem ofDocument_mapping {entries : List (Value × Value)}
    (hv : ¬(Value.mapping entries).IsNothing) :
    ofDocument validator (.mapping entries) =
      (validate validator (.mapping entries)).mapError .invalid := by
  rw [ofDocument, if_neg fun he => hv (Value.isEmpty_iff.mp he)]

theorem ofDocument_of_ne_mapping (hv : ¬v.IsNothing) (hno : ∀ entries, v ≠ .mapping entries) :
    ofDocument validator v = .error (.notMapping v.typeName) := by
  rw [ofDocument, if_neg fun he => hv (Value.isEmpty_iff.mp he)]
  cases v with
  | mapping entries => exact absurd rfl (hno entries)
  | _ => rfl

section Documented

variable (h : validator.Documented)

include h

/-- An empty mapping describes the defaults. -/
theorem validate_empty : validate validator (.mapping []) = .ok {} := by
  have hkeys : (([] : List (Text × Value)).map Prod.fst).Nodup := List.nodup_nil
  have hvalues : ∀ f ∈ ([] : List (Text × Value)), f.2.IsNamed := nofun
  exact (validate_object_eq_ok_iff h hkeys hvalues).mpr
    ⟨nofun, nofun, fun _ => rfl, nofun, fun _ => rfl⟩

theorem ofDocument_of_isNothing (hv : v.IsNothing) : ofDocument validator v = .ok {} := by
  rw [ofDocument, if_pos (Value.isEmpty_iff.mpr hv)]
  exact mapError_eq_ok.mpr (validate_empty h)

/-- Which settings a document has. -/
theorem ofDocument_eq_ok_iff :
    ofDocument validator v = .ok s ↔ v.IsNothing ∧ s = {} ∨
      ¬v.IsNothing ∧ (∃ entries, v = .mapping entries) ∧ validate validator v = .ok s := by
  by_cases hv : v.IsNothing
  · simp [ofDocument_of_isNothing h hv, hv, eq_comm]
  · by_cases hm : ∃ entries, v = .mapping entries
    · obtain ⟨entries, rfl⟩ := hm
      simp [ofDocument_mapping hv, mapError_eq_ok, hv]
    · simp [ofDocument_of_ne_mapping hv (not_exists.mp hm), hv, hm]

theorem ofDocument_of_validate_error {entries : List (Value × Value)} {ps : List Problem}
    (hps : validate validator (.mapping entries) = .error ps) :
    ofDocument validator (.mapping entries) = .error (.invalid ps) := by
  have hsome : ¬(Value.mapping entries).IsNothing := by
    rintro (_ | _)
    rw [validate_empty h] at hps
    cases hps
  rw [ofDocument_mapping hsome]
  exact mapError_eq_error.mpr ⟨ps, hps, rfl⟩

/-- A document that is refused is refused as settings. -/
theorem isConfiguration_of_ofDocument {x : LoadFault} (hx : ofDocument validator v = .error x) :
    x.IsConfiguration := by
  by_cases hn : v.IsNothing
  · rw [ofDocument_of_isNothing h hn] at hx
    cases hx
  · by_cases hm : ∃ entries, v = .mapping entries
    · obtain ⟨entries, rfl⟩ := hm
      rw [ofDocument_mapping hn] at hx
      obtain ⟨ps, -, rfl⟩ := mapError_eq_error.mp hx
      trivial
    · rw [ofDocument_of_ne_mapping hn (not_exists.mp hm)] at hx
      cases hx
      trivial

end Documented

/-! ## Places -/

theorem load_file (hp : (argument <|> environment) = some (.file bytes)) :
    loadWith read validator argument environment =
      ((read bytes).mapError LoadFault.ofDocumentFault).bind (ofDocument validator) := by
  rw [loadWith, hp]
  cases hread : read bytes <;> simp [ofFile, hread, Except.mapError, Except.bind]

/-- The chosen file, if there is one, holds a document with texts as keys, or none. -/
def HoldsNamed (read : DocumentReader) (place : Option Place) : Prop :=
  ∀ bytes v, place = some (.file bytes) → read bytes = .ok v → v.IsNamed

/-- The text that a place asks for as the answer to a kind of failure: the one that its document
gives, or the default. -/
inductive Asks (read : DocumentReader) (place : Option Place) (kind : FailureKind) :
    Text → Prop where
  | given {bytes : List UInt8} {v w : Value} {t : Text} : place = some (.file bytes) →
      read bytes = .ok v → v.answer? kind = some w → w.Writes t → Asks read place kind t
  | default : (∀ bytes v, place = some (.file bytes) → read bytes = .ok v →
      v.answer? kind = none) → Asks read place kind (({} : Messages).forKind kind)

section Documented

variable (h : validator.Documented)

include h

/-- Which settings a file has. -/
theorem load_file_eq_ok_iff (hp : (argument <|> environment) = some (.file bytes)) :
    loadWith read validator argument environment = .ok s ↔ ∃ v, read bytes = .ok v ∧
      (v.IsNothing ∧ s = {} ∨
        ¬v.IsNothing ∧ (∃ entries, v = .mapping entries) ∧ validate validator v = .ok s) := by
  rw [load_file hp, bind_eq_ok]
  simp only [mapError_eq_ok, ofDocument_eq_ok_iff h]

omit h in
/-- Settings that are loaded are the defaults, or those of a document. -/
theorem eq_or_exists_document_of_load
    (hs : loadWith read validator argument environment = .ok s) :
    ((∀ bytes, (argument <|> environment) ≠ some (.file bytes)) ∧ s = {}) ∨
      ∃ bytes v, (argument <|> environment) = some (.file bytes) ∧ read bytes = .ok v ∧
        ofDocument validator v = .ok s := by
  match hp : argument <|> environment with
  | none | some .nowhere | some .missing =>
    rw [loadWith, hp] at hs
    cases hs
    exact .inl ⟨fun bytes => nofun, rfl⟩
  | some .directory =>
    rw [loadWith, hp] at hs
    cases hs
  | some (.file bytes) =>
    rw [load_file hp] at hs
    obtain ⟨v, hv, hs⟩ := bind_eq_ok.mp hs
    exact .inr ⟨bytes, v, rfl, mapError_eq_ok.mp hv, hs⟩

/-- Settings that are loaded from a document with names have a precision in range. -/
theorem valid_of_load (hnamed : HoldsNamed read (argument <|> environment))
    (hs : loadWith read validator argument environment = .ok s) : s.Valid := by
  rcases eq_or_exists_document_of_load hs with ⟨-, rfl⟩ | ⟨bytes, v, hp, hv, hs⟩
  · exact valid_default
  · rcases (ofDocument_eq_ok_iff h).mp hs with ⟨-, rfl⟩ | ⟨-, -, hs⟩
    · exact valid_default
    · exact valid_of_validate h (hnamed bytes v hp hv) hs

/-! ## Answer texts -/

/-- Accepted answer texts are those that the mapping gives, and the defaults. -/
theorem forKind_of_validate (hv : v.IsNamed) (hs : validate validator v = .ok s)
    (kind : FailureKind) :
    (v.answer? kind = none ∧ s.messages.forKind kind = ({} : Messages).forKind kind) ∨
      ∃ w, v.answer? kind = some w ∧ w.Writes (s.messages.forKind kind) := by
  obtain ⟨entries, he⟩ := h.exists_mapping hs
  rcases hv.object_or with ⟨fields, rfl, hkeys, hvalues⟩ | hno
  · have hdescribes := (validate_object_eq_ok_iff h hkeys hvalues).mp hs
    rw [Value.answer?, object, Value.child?, find?_entriesOf]
    cases hlookup : fields.lookup messagesKey with
    | none =>
      rw [hdescribes.missingMessages ((lookup_eq_none_iff hkeys).mp hlookup)]
      exact .inl ⟨rfl, rfl⟩
    | some inner =>
      have hmem := (lookup_eq_some_iff hkeys).mp hlookup
      obtain ⟨texts, rfl, htexts⟩ := hdescribes.messages inner hmem
      have hkeys' := ((hvalues _ hmem).of_object).1
      rw [Option.bind_some, object, Value.child?, find?_entriesOf]
      cases hw : texts.lookup (Messages.keyOf kind) with
      | none => exact .inl ⟨rfl, htexts.missing kind ((lookup_eq_none_iff hkeys').mp hw)⟩
      | some w =>
        exact .inr ⟨w, rfl, htexts.given kind w ((lookup_eq_some_iff hkeys').mp hw)⟩
  · exact absurd he (hno entries)

/-- The answer texts that are loaded are those that the place asks for. -/
theorem asks_of_load (hnamed : HoldsNamed read (argument <|> environment))
    (hs : loadWith read validator argument environment = .ok s) (kind : FailureKind) :
    Asks read (argument <|> environment) kind (s.messages.forKind kind) := by
  rcases eq_or_exists_document_of_load hs with ⟨hno, rfl⟩ | ⟨bytes, v, hp, hv, hs⟩
  · exact .default fun bytes v hp => absurd hp (hno bytes)
  · have hdefault (hnone : v.answer? kind = none) (bytes' v') :
        (argument <|> environment) = some (.file bytes') → read bytes' = .ok v' →
          v'.answer? kind = none := by
      intro hp' hv'
      obtain rfl : bytes = bytes' := by simpa [hp] using hp'
      obtain rfl := Except.ok.inj (hv.symm.trans hv')
      exact hnone
    rcases (ofDocument_eq_ok_iff h).mp hs with ⟨hnothing, rfl⟩ | ⟨-, -, hs⟩
    · refine .default (hdefault ?_)
      rw [Value.answer?, hnothing.child?_eq_none, Option.bind_none]
    · rcases forKind_of_validate h (hnamed bytes v hp hv) hs kind with ⟨hnone, ht⟩ | ⟨w, hw, ht⟩
      · rw [ht]
        exact .default (hdefault hnone)
      · exact .given hp hv hw ht

end Documented

end Settings

/-! ## Calculations -/

namespace Calculator

variable {s : Settings} {f : Text}

/-- An answer is missing exactly if the report is. -/
theorem answer_eq_error_iff {x : Fault} :
    answer s f = .error x ↔ report s.precision f = .error x := by
  rw [answer, report]
  rcases detailed s.precision f with (failure | y) | v
  · simp [toAnswer, toReport]
  · simp [toAnswer, toReport]
  · simp [toAnswer, toReport]

/-- A failure that is reported is answered by the text for its kind. -/
theorem answer_of_report {r : Report} {failure : Failure} (h : report s.precision f = .ok r)
    (hf : r.failure = some failure) : answer s f = .ok (s.messages.forKind failure.cause.kind) := by
  rw [report] at h
  rw [answer]
  rcases hd : detailed s.precision f with (failure' | y) | v
  · rw [hd] at h
    cases h
    cases hf
    rfl
  · rw [hd] at h
    cases h
  · rw [hd] at h
    cases h
    cases hf

/-- Under valid settings only an overflow has no answer. -/
theorem eq_overflow_of_answer (hs : s.Valid) {x : Fault} (h : answer s f = .error x) :
    x = .signal .overflow := by
  obtain ⟨c, hc, hle⟩ := s.exists_context hs
  have hreport := answer_eq_error_iff.mp h
  rw [hc] at hreport
  exact ((report_eq_error_iff_overflows (hle.trans (by decide))).mp hreport).1

end Calculator

namespace Settings

open Calculator

/-- **Loaded settings are usable**, whatever reader of documents and whatever validator with the
documented rules they are loaded with. The environment counts only without an argument. Where no
file is named or it is missing, the defaults hold. A file has settings exactly if its document
counts as nothing, and they are the defaults then, or is a mapping that is read as them; a malformed
document, one that is no mapping and a mapping that is refused are faults of the configuration.
Under settings that are loaded from a document with texts as keys no calculation fails for its
precision, and a failure is answered by the text that the file gives for its kind, or by the
default. -/
theorem load_usable (read : DocumentReader) {validator : Validator} (h : validator.Documented)
    (argument environment : Option Place) :
    (∀ p, argument = some p → ∀ e, loadWith read validator argument environment =
      loadWith read validator argument e) ∧
    (argument = none → loadWith read validator argument environment =
      loadWith read validator environment none) ∧
    (∀ place, (argument <|> environment) = place →
      place = none ∨ place = some .nowhere ∨ place = some .missing →
        loadWith read validator argument environment = .ok {}) ∧
    (∀ bytes, (argument <|> environment) = some (.file bytes) →
      (∀ s, loadWith read validator argument environment = .ok s ↔ ∃ v, read bytes = .ok v ∧
        (v.IsNothing ∧ s = {} ∨
          ¬v.IsNothing ∧ (∃ entries, v = .mapping entries) ∧ validate validator v = .ok s)) ∧
      (read bytes = .error .malformed →
        loadWith read validator argument environment = .error .malformed) ∧
      (∀ v, read bytes = .ok v → ¬v.IsNothing → (∀ entries, v ≠ .mapping entries) →
        loadWith read validator argument environment = .error (.notMapping v.typeName)) ∧
      (∀ entries ps, read bytes = .ok (.mapping entries) →
        validate validator (.mapping entries) = .error ps →
          loadWith read validator argument environment = .error (.invalid ps)) ∧
      ((∀ x, read bytes = .error x → x = .malformed) →
        ∀ x, loadWith read validator argument environment = .error x → x.IsConfiguration)) ∧
    (HoldsNamed read (argument <|> environment) →
      ∀ s, loadWith read validator argument environment = .ok s → ∀ f,
        (∀ x, answer s f = .error x → x = .signal .overflow) ∧
        ∀ r failure, report s.precision f = .ok r → r.failure = some failure →
          ∃ t, Asks read (argument <|> environment) failure.cause.kind t ∧ answer s f = .ok t) := by
  refine ⟨?argument, ?environment, ?defaults, fun bytes hp => ?file,
    fun hnamed s hs f => ?answers⟩
  case argument =>
    rintro p rfl e
    rfl
  case environment =>
    rintro rfl
    cases environment <;> rfl
  case defaults =>
    rintro place hp (rfl | rfl | rfl) <;> rw [loadWith, hp]
  case file =>
    refine ⟨fun s => load_file_eq_ok_iff h hp, fun hd => ?_, fun v hv hsome hno => ?_,
      fun entries ps hv hps => ?_, fun hread x hx => ?_⟩
    · rw [load_file hp, hd]
      rfl
    · rw [load_file hp, hv]
      exact ofDocument_of_ne_mapping hsome hno
    · rw [load_file hp, hv]
      exact ofDocument_of_validate_error h hps
    · rw [load_file hp] at hx
      rcases bind_eq_error.mp hx with hd | ⟨v, -, hv⟩
      · obtain ⟨y, hy, rfl⟩ := mapError_eq_error.mp hd
        obtain rfl := hread y hy
        trivial
      · exact isConfiguration_of_ofDocument h hv
  case answers =>
    refine ⟨fun x => eq_overflow_of_answer (valid_of_load h hnamed hs),
      fun r failure hr hf => ?_⟩
    exact ⟨_, asks_of_load h hnamed hs failure.cause.kind, answer_of_report hr hf⟩

/-- A file that gives one answer text, one that holds no mapping and one that is malformed, in YAML
and with the lax validator. -/
theorem load_usable_message :
    let messages : Text := "\"messages\":\n  \"division_by_zero\": \"none\"".toList
    let plain : Text := "\"none\"".toList
    let toBytes (t : Text) : List UInt8 := t.map fun c => c.toNat.toUInt8
    let s : Settings := { messages := { divisionByZero := ['n', 'o', 'n', 'e'] } }
    let f : Text := ['1', '/', '0']
    let place : Option Place := some (.file (toBytes messages))
    (Validator.lax.Documented ∧ HoldsNamed Yaml.ofFile place) ∧
      load none place = .ok s ∧
      (∃ t, Asks Yaml.ofFile place .divisionByZero t ∧ answer s f = .ok t) ∧
      load (some (.file (toBytes plain))) (some .missing) = .error (.notMapping "str") ∧
      load (some (.file (toBytes plain))) (some .missing) =
        load (some (.file (toBytes plain))) none ∧
      load (some .nowhere) (some (.file (toBytes plain))) = .ok {} ∧
      load none (some (.file (toBytes ['[']))) = .error .malformed := by
  -- the documents are read before the texts have names, which would hold up the evaluation
  have hmessages : Yaml.load (.ofText (Yaml.withLineFeeds
      "\"messages\":\n  \"division_by_zero\": \"none\"".toList)) =
      .ok (.mapping [(.text messagesKey, .mapping
        [(.text ['d', 'i', 'v', 'i', 's', 'i', 'o', 'n', '_', 'b', 'y', '_', 'z', 'e', 'r', 'o'],
          .text ['n', 'o', 'n', 'e'])])]) := by cbv
  have hplain : Yaml.load (.ofText (Yaml.withLineFeeds "\"none\"".toList)) =
      .ok (.text ['n', 'o', 'n', 'e']) := by cbv
  intro messages plain toBytes s f place
  have hopen : Yaml.ofFile (toBytes ['[']) = .error .malformed := by cbv
  have hreport : report s.precision f =
      .ok ⟨false, none, some ⟨.divisionByZero, f, some ['/']⟩, f⟩ := by cbv
  let texts : Value := .object [(Messages.keyOf .divisionByZero, .text ['n', 'o', 'n', 'e'])]
  have hdocument : Yaml.ofFile (toBytes messages) = .ok (.object [(messagesKey, texts)]) :=
    (Yaml.ofFile_of_decode rfl).trans hmessages
  have hlax := Validator.lax_documented
  have hnamed : HoldsNamed Yaml.ofFile place := by
    intro bytes v hp hv
    obtain rfl := Place.file.inj (Option.some.inj hp)
    obtain rfl := Except.ok.inj (hdocument.symm.trans hv)
    have htexts : texts.IsNamed := .object (List.nodup_singleton _) fun f hf =>
      List.mem_singleton.mp hf ▸ .other fun entries he => by cases he
    exact .object (List.nodup_singleton _) fun f hf => List.mem_singleton.mp hf ▸ htexts
  obtain ⟨-, -, -, hread, hanswers⟩ := load_usable Yaml.ofFile hlax none place
  obtain ⟨hargument, -, -, hrefused, -⟩ :=
    load_usable Yaml.ofFile hlax (some (.file (toBytes plain))) (some .missing)
  obtain ⟨-, -, hdefaults, -⟩ :=
    load_usable Yaml.ofFile hlax (some .nowhere) (some (.file (toBytes plain)))
  obtain ⟨-, -, -, hmalformed, -⟩ :=
    load_usable Yaml.ofFile hlax none (some (.file (toBytes ['['])))
  have hs : load none place = .ok s :=
    ((hread _ rfl).1 s).mpr ⟨_, hdocument, .inr ⟨(fun h => by cases h), ⟨_, rfl⟩, rfl⟩⟩
  refine ⟨⟨hlax, hnamed⟩, hs, (hanswers hnamed s hs f).2 _ _ hreport rfl, ?_,
    hargument _ rfl _, ?_, ?_⟩
  · exact (hrefused _ rfl).2.2.1 _ ((Yaml.ofFile_of_decode rfl).trans hplain)
      (fun h => by cases h) fun entries he => by cases he
  · exact hdefaults _ rfl (.inr (.inl rfl))
  · exact (hmalformed _ rfl).2.1 hopen

end Settings

end Reckon

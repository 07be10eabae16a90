import Reckon.Encoding.Utf8
import Reckon.Settings.Integer
import Reckon.Settings.Validate

/-!
# The lax validator

The validator that settings are read by. It takes over what stands for the wanted value beyond
doubt: a truth value, an integral real or a text for an integer, and bytes in UTF-8 for a text. A
model is read from a mapping only, and every key that is wrong is reported at its place: first the
declared keys in their order, then the others in the order in which they came.

## Main definitions

* `Validator.lax`: the readers of integers, texts and models
* `Messages.ofValue`, `Settings.ofValue`: answer texts and settings, as it reads them
-/

namespace Reckon

-- Powers are those of the core library, whatever else is imported.
attribute [local instance (high)] instPowNat

namespace Validator

/-- A value whose only fault is a complaint about itself. -/
def complain {α : Type} (complaint : Complaint) : Except (List Problem) α :=
  .error [⟨[], complaint⟩]

/-! ## Integers -/

/-- The bound that the magnitude of an integral real stays below. -/
def maxIntegralReal : Int := 2 ^ (63 : Nat)

/-- The integer that a text holds. -/
def integerOfText (t : Text) : Except Complaint Int :=
  (IntegerText.read t).mapError fun
    | .notAnInteger => .intParsing
    | .tooLong => .intParsingSize

/-- The integer that a value stands for: truth values count as one and zero, reals must be
integral, and texts must hold an integer. -/
def readInteger : Value → Except Complaint Int
  | .integer n => .ok n
  | .boolean b => .ok (if b then 1 else 0)
  | .real x =>
    if !x.isFinite then .error .finiteNumber
    else
      match x.toInt? with
      | none => .error .intFromFloat
      | some n => if n.natAbs < maxIntegralReal then .ok n else .error .intParsingSize
  | .text t => integerOfText t
  | .bytes bs =>
    match Utf8.decode bs with
    | .ok t => integerOfText t
    | .error _ => .error .intParsing
  | _ => .error .intType

/-- What is wrong with an integer: the upper bound is looked at first. -/
def Bounds.complaint? (b : Bounds) (n : Int) : Option Complaint :=
  if b.greatest?.any (· < n) then some .lessThanEqual
  else if b.least?.any (n < ·) then some .greaterThanEqual
  else none

/-- An integer within bounds. -/
def readWithin (b : Bounds) (v : Value) : Except (List Problem) Int :=
  match readInteger v with
  | .error complaint => complain complaint
  | .ok n => (b.complaint? n).elim (.ok n) complain

/-! ## Texts -/

/-- A text. Bytes are read as UTF-8. -/
def readText : Value → Except (List Problem) Text
  | .text t => .ok t
  | .bytes bs =>
    match Utf8.decode bs with
    | .ok t => .ok t
    | .error _ => complain .stringUnicode
  | _ => complain .stringType

/-! ## Models -/

/-- Two changes of an instance, one after the other: both, or the problems of both. -/
def both {α : Type} :
    Except (List Problem) (α → α) → Except (List Problem) (α → α) → Except (List Problem) (α → α)
  | .ok f, .ok g => .ok (g ∘ f)
  | .ok _, .error ps | .error ps, .ok _ => .error ps
  | .error ps, .error qs => .error (ps ++ qs)

/-- What the entries of a mapping make of an instance through a field: nothing if none of them has
its name. -/
def Field.change {α : Type} (entries : List (Value × Value)) (f : Field α) :
    Except (List Problem) (α → α) :=
  match Value.find? f.name entries with
  | none => .ok id
  | some v => (f.read v).mapError (·.map (Problem.under f.name))

/-- The problem of an entry whose key is not among the known names. -/
def unknownKey? (known : List Text) (entry : Value × Value) : Option Problem :=
  match entry.1 with
  | .text name => if name ∈ known then none else some ⟨[.name name], .extraForbidden⟩
  | key => some ⟨[.ofKey key], .invalidKey⟩

/-- The problems of entries that a model forbids. -/
def Model.forbidden {α : Type} (m : Model α) (entries : List (Value × Value)) : List Problem :=
  match m.extra with
  | .ignore => []
  | .forbid => entries.filterMap (unknownKey? m.names)

/-- An instance of a model. -/
def readModel {α : Type} (m : Model α) : Value → Except (List Problem) α
  | .mapping entries =>
    let changes := m.fields.map (Field.change entries) ++
      (m.forbidden entries).map fun p => .error [p]
    (changes.foldr both (.ok id)).map (· m.defaults)
  | _ => complain .modelType

/-- The lax validator. -/
def lax : Validator where
  integer := readWithin
  text := readText
  model := readModel

@[simp] theorem lax_integer (b : Bounds) (v : Value) : lax.integer b v = readWithin b v := rfl

@[simp] theorem lax_text (v : Value) : lax.text v = readText v := rfl

@[simp] theorem lax_model {α : Type} (m : Model α) (v : Value) : lax.model m v = readModel m v :=
  rfl

end Validator

/-- The answer texts of a mapping, or all that is wrong with it. -/
def Messages.ofValue : Value → Except (List Problem) Messages := Messages.validate .lax

/-- The settings of a mapping, or all that is wrong with it. -/
def Settings.ofValue : Value → Except (List Problem) Settings := Settings.validate .lax

end Reckon

import Reckon.Settings.Basic
import Reckon.Value.Written

/-!
# Settings from untyped data

Settings are validated as two models, one inside the other: a mapping with the keys `precision` and
`messages`, and under the latter a mapping from the kinds of failure to texts. Both forbid other
keys, and what is missing has its default.

What validation does with a declared model is left to a validator, which reads integers, texts and
instances of models, and tells every problem of a value that it refuses, with its place. The models
are declared for any validator.

## Main definitions

* `Problem`: a fault of the data, with its place
* `Validator`, with `Validator.Field` and `Validator.Model`: what reads declared data
* `Messages.model`, `Settings.model`: the declarations
* `Messages.validate`, `Settings.validate`: the validated data, or all its faults
* `Settings.toValue`: settings in their full form
-/

namespace Reckon

-- Powers are those of the core library, whatever else is imported.
attribute [local instance (high)] instPowNat

/-- What can be wrong with a value. -/
inductive Complaint where
  | extraForbidden
  | invalidKey
  | modelType
  | stringType
  | stringUnicode
  | intType
  | intParsing
  | intParsingSize
  | intFromFloat
  | finiteNumber
  | lessThanEqual
  | greaterThanEqual
  deriving DecidableEq, Repr

/-- The code of a complaint. -/
def Complaint.code : Complaint → String
  | extraForbidden => "extra_forbidden"
  | invalidKey => "invalid_key"
  | modelType => "model_type"
  | stringType => "string_type"
  | stringUnicode => "string_unicode"
  | intType => "int_type"
  | intParsing => "int_parsing"
  | intParsingSize => "int_parsing_size"
  | intFromFloat => "int_from_float"
  | finiteNumber => "finite_number"
  | lessThanEqual => "less_than_equal"
  | greaterThanEqual => "greater_than_equal"

/-- A step from a mapping to the value under a key. -/
inductive Problem.Step where
  | name (t : Text)
  | number (n : Int)
  deriving DecidableEq, Repr

namespace Problem.Step

/-- The integers that are steps as numbers have a magnitude below this bound. -/
def bound : Int := 2 ^ (63 : Nat)

/-- The step to the value under a key. A truth value counts as a number, and any other key is named
by its text. -/
def ofKey : Value → Problem.Step
  | .text t => .name t
  | .boolean b => .number (if b then 1 else 0)
  | .integer n => if -bound ≤ n ∧ n < bound then .number n else .name (integerText n)
  | key => .name key.written

end Problem.Step

/-- A complaint about the value that the steps of `place` lead to. -/
structure Problem where
  place : List Problem.Step
  complaint : Complaint
  deriving DecidableEq, Repr

namespace Problem

/-- A problem of a value, seen from the mapping that holds it under a name. -/
def under (name : Text) (p : Problem) : Problem := { p with place := .name name :: p.place }

end Problem

/-! ## Declarations -/

namespace Validator

/-- The bounds that an integer is declared with. -/
structure Bounds where
  least? : Option Int := none
  greatest? : Option Int := none

/-- What becomes of the keys that a model does not declare. -/
inductive Extra where
  | ignore
  | forbid

/-- A field of a model with instances in `α`: its name, and what a value under this name makes of an
instance. -/
structure Field (α : Type) where
  name : Text
  read : Value → Except (List Problem) (α → α)

/-- A model with instances in `α`: what becomes of other keys, the instance that holds all defaults,
and the fields in the order of their declaration. -/
structure Model (α : Type) where
  extra : Extra
  defaults : α
  fields : List (Field α)

/-- The names of the fields. -/
def Model.names {α : Type} (m : Model α) : List Text := m.fields.map Field.name

end Validator

/-- What declared data is read by: integers within bounds, texts, and instances of models. A value
is read, or all its problems are told. -/
structure Validator where
  integer (bounds : Validator.Bounds) (v : Value) : Except (List Problem) Int
  text (v : Value) : Except (List Problem) Text
  model {α : Type} (m : Validator.Model α) (v : Value) : Except (List Problem) α

variable (validator : Validator)

namespace Messages

/-- The key of the answers to a kind of failure. -/
def keyOf : FailureKind → Text
  | .malformedFormat => "malformed_format".toList
  | .unbalancedParentheses => "unbalanced_parentheses".toList
  | .insufficientOperands => "insufficient_operands".toList
  | .divisionByZero => "division_by_zero".toList

/-- The kinds of failure, in the order of their keys. -/
def kinds : List FailureKind :=
  [.malformedFormat, .unbalancedParentheses, .insufficientOperands, .divisionByZero]

/-- The field of the answers to a kind of failure: a text. -/
def field (kind : FailureKind) : Validator.Field Messages where
  name := keyOf kind
  read v := (validator.text v).map fun text m => m.set kind text

/-- The answer texts: a field for every kind of failure, and no other keys. -/
def model : Validator.Model Messages where
  extra := .forbid
  defaults := {}
  fields := kinds.map (field validator)

/-- The answer texts of a value, or all that is wrong with it. -/
def validate (v : Value) : Except (List Problem) Messages := validator.model (model validator) v

/-- Answer texts as a mapping of all kinds. -/
def toValue (m : Messages) : Value :=
  .mapping (kinds.map fun kind => (.text (keyOf kind), .text (m.forKind kind)))

end Messages

namespace Settings

/-- The key of the precision. -/
def precisionKey : Text := "precision".toList

/-- The key of the answer texts. -/
def messagesKey : Text := "messages".toList

/-- The range of the precisions that settings may ask for. -/
def precisionBounds : Validator.Bounds := ⟨some minPrecision, some maxPrecision⟩

/-- The field of the precision: an integer in range. -/
def precisionField : Validator.Field Settings where
  name := precisionKey
  read v := (validator.integer precisionBounds v).map fun precision s => { s with precision }

/-- The field of the answer texts: an instance of their model. -/
def messagesField : Validator.Field Settings where
  name := messagesKey
  read v := (Messages.validate validator v).map fun messages s => { s with messages }

/-- The settings: a precision and answer texts, and no other keys. -/
def model : Validator.Model Settings where
  extra := .forbid
  defaults := {}
  fields := [precisionField validator, messagesField validator]

/-- The settings of a value, or all that is wrong with it. -/
def validate (v : Value) : Except (List Problem) Settings := validator.model (model validator) v

/-- Settings in their full form, with every key present. -/
def toValue (s : Settings) : Value :=
  .mapping
    [(.text precisionKey, .integer s.precision), (.text messagesKey, s.messages.toValue)]

end Settings

end Reckon

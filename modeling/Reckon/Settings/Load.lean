import Reckon.Settings.Lax
import Reckon.Yaml.Document

/-!
# Loading settings

Settings are read from a file that is named by an argument or, without one, by the environment.
Where no file is named or the named one is missing, the defaults hold. A file holds a document; one
that counts as nothing is an empty mapping.

How the bytes of a file are read as a document, and how a document is validated, is left open: a
reader of documents goes through a file as far as it needs to, and the first thing that it cannot
make sense of is its fault.

## Main definitions

* `Place`: what a name leads to
* `DocumentReader`: what reads the bytes of a file as a document
* `Settings.ofDocument`, `Settings.ofFile`: the settings of a document and of a file
* `Settings.loadWith`: the settings that an argument and the environment choose, for any reader of
  documents and any validator
* `Settings.load`: the settings that are chosen with the reader of YAML and the lax validator
-/

namespace Reckon

/-- What the name of a file leads to. -/
inductive Place where
  /-- the name is empty -/
  | nowhere
  /-- no file has the name -/
  | missing
  | directory
  | file (bytes : List UInt8)
  deriving DecidableEq, Repr

/-- What reads the bytes of a file as a document. -/
abbrev DocumentReader := List UInt8 → Except DocumentFault Value

/-- Why settings cannot be loaded. -/
inductive LoadFault where
  /-- the name is that of a directory -/
  | directory
  /-- the file is not in UTF-8 -/
  | encoding (f : Utf8.Fault)
  /-- the document has a fault that concerns its form -/
  | malformed
  /-- the text of a scalar of the document does not write a value of its type -/
  | unreadable (reason : Yaml.Unreadable)
  /-- the document is a value other than a mapping, of the named type -/
  | notMapping (typeName : String)
  /-- the mapping is not one of settings -/
  | invalid (problems : List Problem)
  deriving DecidableEq, Repr

/-- The fault of a file that holds no document. -/
def LoadFault.ofDocumentFault : DocumentFault → LoadFault
  | .encoding f => .encoding f
  | .malformed => .malformed
  | .unreadable reason => .unreadable reason

/-- The wording of a fault in a file with a given name; nothing for one that is told by its kind
alone. -/
def LoadFault.message (path : String) : LoadFault → String
  | directory => ""
  | encoding f => f.message
  | unreadable reason => reason.message
  | malformed => "YAML parse error in " ++ path
  | notMapping typeName => "Expected a mapping in " ++ path ++ ", got " ++ typeName
  | invalid _ => "Invalid configuration in " ++ path

namespace Settings

variable (read : DocumentReader) (validator : Validator)

/-- The settings of a document that is read: an empty value is an empty mapping. -/
def ofDocument (v : Value) : Except LoadFault Settings :=
  match if v.isEmpty then .mapping [] else v with
  | .mapping entries => (validate validator (.mapping entries)).mapError .invalid
  | v => .error (.notMapping v.typeName)

/-- The settings of a file. -/
def ofFile (bytes : List UInt8) : Except LoadFault Settings :=
  match read bytes with
  | .error f => .error (.ofDocumentFault f)
  | .ok v => ofDocument validator v

/-- The settings of a file that an argument names or, without one, the environment. -/
def loadWith (argument environment : Option Place) : Except LoadFault Settings :=
  match argument <|> environment with
  | none | some .nowhere | some .missing => .ok {}
  | some .directory => .error .directory
  | some (.file bytes) => ofFile read validator bytes

/-- The settings of a file in YAML that an argument names or, without one, the environment. -/
def load : Option Place → Option Place → Except LoadFault Settings := loadWith Yaml.ofFile .lax

end Settings

end Reckon

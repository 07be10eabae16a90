import Reckon.Text

/-!
# Tokens of a document

What a document is made of: directives and document markers, the marks of collections, and the
scalars with their anchors, aliases and tags. A collection that is shown by indentation alone has
start and end tokens all the same.

## Main definitions

* `Yaml.Token`: the tokens
-/

namespace Reckon

namespace Yaml

/-- A tag as it is written: a suffix, and the handle that it is to be completed with, if any. -/
structure RawTag where
  handle : Option Text
  suffix : Text
  deriving DecidableEq, Repr

/-- The tokens of a document. -/
inductive Token where
  | versionDirective (major : Nat)
  | tagDirective (handle tagStart : Text)
  | otherDirective
  | documentStart
  | documentEnd
  | blockSequenceStart
  | blockMappingStart
  | blockEnd
  | flowSequenceStart
  | flowSequenceEnd
  | flowMappingStart
  | flowMappingEnd
  | blockEntry
  | flowEntry
  | key
  | value
  | reference (name : Text)
  | anchor (name : Text)
  | tag (t : RawTag)
  | scalar (plain : Bool) (content : Text)
  deriving DecidableEq, Repr

end Yaml

end Reckon

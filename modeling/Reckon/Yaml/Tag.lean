import Reckon.Yaml.Scalar.Number
import Reckon.Yaml.Scalar.Timestamp

/-!
# Tags

The type of a node. A plain scalar without a tag has the type that its text has the form of; where
more than one form fits, the first of them in a fixed order counts.

## Main definitions

* `Yaml.Tag`: the types
* `Yaml.Tag.ofName`: the type that a complete tag names
* `Yaml.Tag.ofPlain`: the type of a plain scalar
-/

namespace Reckon

namespace Yaml

/-- The type of a node. -/
inductive Tag where
  | null
  | boolean
  | integer
  | real
  | bytes
  | timestamp
  | orderedMapping
  | pairs
  | set
  | text
  | sequence
  | mapping
  | merge
  | default
  | unknown
  deriving DecidableEq, Repr

namespace Tag

/-- What the names of the types begin with. -/
def namespaceText : Text := "tag:yaml.org,2002:".toList

/-- The names of the types. -/
def names : List (Text × Tag) :=
  [("null".toList, null), ("bool".toList, boolean), ("int".toList, integer),
   ("float".toList, real), ("binary".toList, bytes), ("timestamp".toList, timestamp),
   ("omap".toList, orderedMapping), ("pairs".toList, pairs), ("set".toList, set),
   ("str".toList, text), ("seq".toList, sequence), ("map".toList, mapping),
   ("merge".toList, merge), ("value".toList, default)]

/-- The type that a complete tag names. -/
def ofName (t : Text) : Tag :=
  if namespaceText.isPrefixOf t then
    (names.lookup (t.drop namespaceText.length)).getD unknown
  else unknown

/-! ## The forms of plain scalars -/

/-- The texts of true. -/
def trueTexts : List Text :=
  ["yes".toList, "Yes".toList, "YES".toList, "true".toList, "True".toList, "TRUE".toList,
   "on".toList, "On".toList, "ON".toList]

/-- The texts of false. -/
def falseTexts : List Text :=
  ["no".toList, "No".toList, "NO".toList, "false".toList, "False".toList, "FALSE".toList,
   "off".toList, "Off".toList, "OFF".toList]

/-- The texts of null. -/
def nullTexts : List Text := ["~".toList, "null".toList, "Null".toList, "NULL".toList, []]

/-- The texts of positive infinity, without a sign. -/
def infinityTexts : List Text := [".inf".toList, ".Inf".toList, ".INF".toList]

/-- The texts of what is no number. -/
def nanTexts : List Text := [".nan".toList, ".NaN".toList, ".NAN".toList]

/-- Whether a character is a digit or an underscore. -/
def isSpacedDigit (c : Char) : Bool := c.isDigit || c == '_'

/-- Whether a text is empty or an exponent with a sign. -/
def isExponent : Text → Bool
  | [] => true
  | e :: sign :: t =>
    (e == 'e' || e == 'E') && (sign == '-' || sign == '+') && !t.isEmpty && t.all Char.isDigit
  | _ => false

/-- Whether a text begins with a digit. -/
def beginsDigit (t : Text) : Bool := t.head?.any Char.isDigit

/-- What follows the groups of at most two digits below sixty, each after a colon; nothing if a
colon is followed by anything else. -/
def afterSixties : (steps : Nat) → Text → Option Text
  | steps + 1, ':' :: t =>
    match t with
    | c :: d :: rest =>
      if '0' ≤ c && c ≤ '5' && d.isDigit then afterSixties steps rest
      else if c.isDigit then afterSixties steps (d :: rest)
      else none
    | [c] => if c.isDigit then some [] else none
    | [] => none
  | _, t => some t

/-- Whether a text is a real number: with a point, in base ten or sixty, an infinity, or no
number. -/
def isReal (t : Text) : Bool :=
  let u := Number.unsigned t
  let rest := u.dropWhile isSpacedDigit
  let decimal := beginsDigit u && match rest with
    | '.' :: r => isExponent (r.dropWhile isSpacedDigit)
    | _ => false
  let point := match t with
    | '.' :: r => beginsDigit r && isExponent (r.dropWhile isSpacedDigit)
    | _ => false
  let sixties := beginsDigit u && rest.head? == some ':' &&
    match afterSixties rest.length rest with
    | some ('.' :: r) => r.all isSpacedDigit
    | _ => false
  decimal || point || sixties || infinityTexts.contains u || nanTexts.contains t

/-- Whether a text is nonempty and all its characters have a property. -/
def isFull (p : Char → Bool) (t : Text) : Bool := !t.isEmpty && t.all p

/-- Whether a character is a binary digit or an underscore. -/
def isBinary (c : Char) : Bool := c == '0' || c == '1' || c == '_'

/-- Whether a character is an octal digit or an underscore. -/
def isOctal (c : Char) : Bool := ('0' ≤ c && c ≤ '7') || c == '_'

/-- Whether a character is a hexadecimal digit or an underscore. -/
def isHexadecimal (c : Char) : Bool :=
  isSpacedDigit c || ('a' ≤ c && c ≤ 'f') || ('A' ≤ c && c ≤ 'F')

/-- Whether a text is an integer: in base two, eight, ten, sixteen or sixty. -/
def isInteger (t : Text) : Bool :=
  match Number.unsigned t with
  | ['0'] => true
  | '0' :: 'b' :: r => isFull isBinary r
  | '0' :: 'x' :: r => isFull isHexadecimal r
  | '0' :: r => isFull isOctal r
  | u =>
    let rest := u.dropWhile isSpacedDigit
    beginsDigit u && (rest.isEmpty || (afterSixties rest.length rest == some []))

/-- The type of a plain scalar. -/
def ofPlain (t : Text) : Tag :=
  if trueTexts.contains t || falseTexts.contains t then boolean
  else if isReal t then real
  else if isInteger t then integer
  else if t == ['<', '<'] then merge
  else if nullTexts.contains t then null
  else if Timestamp.isForm t then timestamp
  else if t == ['='] then default
  else if t == ['!'] || t == ['&'] || t == ['*'] then unknown
  else text

/-- A text without the break at its end, if there is one behind other characters. -/
def withoutLastBreak (t : Text) : Text :=
  if t.getLast? = some '\n' ∧ t.length ≠ 1 then t.dropLast else t

/-- The type of any scalar whose text is to be looked at: a break at its end does not count. -/
def ofContent (t : Text) : Tag := ofPlain (withoutLastBreak t)

end Tag

end Yaml

end Reckon

import Reckon.Text.Quoted
import Reckon.Value.Basic
import Reckon.Value.Shortest

/-!
# Values as they are written in messages

A value without parts as the text that names it in a message or in the place of a problem.

## Main definitions

* `Value.written`: a value without parts as a text
* `Moment.written`, `Date.written`: dates and points in time
* `spanText`: a span of time
-/

namespace Reckon

/-- An integer in decimal digits. -/
def integerText (n : Int) : Text :=
  if n < 0 then '-' :: Numeral.toText n.natAbs else Numeral.toText n.natAbs

/-- Texts with a comma between them. -/
def listed (parts : List Text) : Text := [',', ' '].intercalate parts

/-- A span of minutes, as days and as seconds that are not negative. -/
def spanText (minutes : Int) : Text :=
  let days := minutes.fdiv (24 * 60)
  let seconds := minutes.fmod (24 * 60) * 60
  let part (name : String) (n : Int) := name.toList ++ '=' :: integerText n
  let parts :=
    (if days = 0 then [] else [part "days" days]) ++
      (if seconds = 0 then [] else [part "seconds" seconds])
  "datetime.timedelta(".toList ++ (if parts.isEmpty then ['0'] else listed parts) ++ [')']

namespace Date

/-- The numbers of a date. -/
def numbers (d : Date) : List Nat := [d.year, d.month, d.day]

/-- A date as a text. -/
def written (d : Date) : Text :=
  "datetime.date(".toList ++ listed (d.numbers.map Numeral.toText) ++ [')']

end Date

namespace Moment

/-- The numbers of a point in time, without zeros at the end for its seconds. -/
def numbers (m : Moment) : List Nat :=
  m.date.numbers ++ [m.hour, m.minute] ++
    (if m.microsecond ≠ 0 then [m.second, m.microsecond]
    else if m.second ≠ 0 then [m.second]
    else [])

/-- A time zone, by the minutes of its distance. -/
def zoneText (minutes : Int) : Text :=
  if minutes = 0 then "datetime.timezone.utc".toList
  else "datetime.timezone(".toList ++ spanText minutes ++ [')']

/-- A point in time as a text. -/
def written (m : Moment) : Text :=
  let zone := m.zone.map fun minutes => "tzinfo=".toList ++ zoneText minutes
  "datetime.datetime(".toList ++ listed (m.numbers.map Numeral.toText ++ zone.toList) ++ [')']

end Moment

namespace Value

/-- A value without parts as a text; nothing for a value with parts. -/
def written : Value → Text
  | null => "None".toList
  | boolean b => if b then "True".toList else "False".toList
  | integer n => integerText n
  | real x => x.written
  | text t => Text.quoted t
  | bytes bs => Text.quotedBytes bs
  | date d => d.written
  | moment m => m.written
  | sequence _ | mapping _ | set _ => []

end Value

end Reckon

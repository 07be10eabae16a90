import Reckon.Yaml.Fault

/-!
# Timestamps

A date is a year, a month and a day in digits, with hyphens between them. A point in time is a date
with a time of day, and may name the distance of its time zone. The form of a timestamp says nothing
about the calendar, which is asked afterwards.

## Main definitions

* `Yaml.Timestamp.ofText?`: what a text in the form of a timestamp writes
* `Yaml.Timestamp.value`: the date or the point in time, if the calendar has it
-/

namespace Reckon

namespace Yaml

namespace Timestamp

/-! ## The form -/

/-- A number at the head of a text, in at least `least` and at most `most` digits, and the text
after it. -/
def number? (least most : Nat) (t : Text) : Option (Nat × Text) :=
  let digits := (t.take most).takeWhile Char.isDigit
  if digits.length < least then none
  else some (digits.foldl (fun n c => n * 10 + (c.toNat - 48)) 0, t.drop digits.length)

/-- A text behind a character that it must begin with. -/
def behind? (c : Char) : Text → Option Text
  | d :: t => if d = c then some t else none
  | [] => none

/-- A text without the blanks at its head. -/
def dropBlanks (t : Text) : Text := t.dropWhile fun c => c == ' ' || c == '\t'

/-- The time zone that a text writes after blanks, in minutes: nothing at all, universal time, or a
distance. -/
def zone? (t : Text) : Option (Option Int) :=
  match dropBlanks t with
  | [] => if t.isEmpty then some none else none
  | ['Z'] => some (some 0)
  | sign :: t =>
    if sign = '-' || sign = '+' then do
      let (hours, t) ← number? 1 2 t
      let minutes ←
        if t.isEmpty then some 0
        else do
          let (minutes, t) ← number? 2 2 (← behind? ':' t)
          if t.isEmpty then some minutes else none
      let distance : Int := (hours * 60 + minutes : Nat)
      some (some (if sign = '-' then -distance else distance))
    else none

/-- The digits of a fraction at the head of a text, if there is one, and the text after it. -/
def fraction : Text → Text × Text
  | '.' :: t => (t.takeWhile Char.isDigit, t.dropWhile Char.isDigit)
  | t => ([], t)

/-- The number of decimal places of a second that count. -/
def places : Nat := 6

/-- The microseconds that the digits of a fraction write; digits beyond are dropped. -/
def microseconds (digits : Text) : Nat :=
  let digits := digits.take places
  (digits ++ List.replicate (places - digits.length) '0').foldl
    (fun n c => n * 10 + (c.toNat - 48)) 0

/-- The point in time of a date and a text that writes the time of day. -/
def moment? (date : Date) (t : Text) : Option Moment := do
  let (hour, t) ← number? 1 2 t
  let (minute, t) ← number? 2 2 (← behind? ':' t)
  let (second, t) ← number? 2 2 (← behind? ':' t)
  let (digits, t) := fraction t
  some ⟨date, hour, minute, second, microseconds digits, ← zone? t⟩

/-- The date that a text writes, or the date and the point in time. -/
def ofText? (t : Text) : Option (Date × Option Moment) := do
  let (year, t) ← number? 4 4 t
  let (month, t) ← number? 1 2 (← behind? '-' t)
  let (day, t) ← number? 1 2 (← behind? '-' t)
  let date : Date := ⟨year, month, day⟩
  match t with
  | [] => some (date, none)
  | c :: t =>
    if c = 'T' || c = 't' then some (date, some (← moment? date t))
    else if c = ' ' || c = '\t' then some (date, some (← moment? date (dropBlanks t)))
    else none

/-- The length of a date in four, two and two digits. -/
def dateLength : Nat := 10

/-- Whether a text has the form of a timestamp: a date alone must have all its digits. -/
def isForm (t : Text) : Bool :=
  (ofText? t).any fun s => s.2.isSome || t.length == dateLength

/-! ## The calendar -/

/-- What the calendar does not have of a date, if anything. -/
def dateRefusal? (d : Date) : Option Unreadable :=
  if d.year = 0 then some (.year d.year)
  else if d.month = 0 ∨ 12 < d.month then some .month
  else if d.day = 0 ∨ Date.daysOf d.year d.month < d.day then some .day
  else none

/-- What a day does not have of a time of day, if anything. -/
def timeRefusal? (m : Moment) : Option Unreadable :=
  if 24 ≤ m.hour then some .hour
  else if 60 ≤ m.minute then some .minute
  else if 60 ≤ m.second then some .second
  else none

/-- The distance of a time zone that is too large, if it is. -/
def zoneRefusal? (m : Moment) : Option Unreadable :=
  m.zone.bind fun minutes => if 24 * 60 ≤ minutes.natAbs then some (.zone minutes) else none

/-- The date or the point in time that a text writes. The time zone is looked at first, and then the
parts from the year to the second. -/
def value (t : Text) : Except Unreadable Value :=
  match ofText? t with
  | none => .error .notTimestamp
  | some (d, none) => (dateRefusal? d).elim (.ok (.date d)) .error
  | some (d, some m) =>
    (zoneRefusal? m <|> dateRefusal? d <|> timeRefusal? m).elim (.ok (.moment m)) .error

end Timestamp

end Yaml

end Reckon

/-!
# Dates and points in time

A date of the calendar, and a point in time: a date with a time of day, to the microsecond, and the
distance of its time zone in minutes, if it is known. Points in time with a zone are the same when
they are the same instant.

## Main definitions

* `Date`, `Moment`: dates and points in time
* `Moment.instant?`: the instant that a point in time is
-/

namespace Reckon

-- Sums start with the zero of the core library, whatever else is imported.
attribute [local instance (high)] Zero.ofOfNat0

/-- A date. -/
structure Date where
  year : Nat
  month : Nat
  day : Nat
  deriving DecidableEq, Repr

namespace Date

/-- Whether a year has a day more than others. -/
def isLeap (year : Nat) : Bool := year % 4 == 0 && (year % 100 != 0 || year % 400 == 0)

/-- The number of days of a month. -/
def daysOf (year month : Nat) : Nat :=
  if month = 2 then if isLeap year then 29 else 28
  else if month ∈ [4, 6, 9, 11] then 30 else 31

/-- The number of days before the first of January of a year. -/
def daysBefore (year : Nat) : Nat :=
  let y := year - 1
  365 * y + y / 4 - y / 100 + y / 400

/-- The number of a day, counted from the first day of the calendar. -/
def number (d : Date) : Nat :=
  daysBefore d.year + ((List.range' 1 (d.month - 1)).map (daysOf d.year)).sum + d.day

end Date

/-- A point in time. -/
structure Moment where
  date : Date
  hour : Nat
  minute : Nat
  second : Nat
  microsecond : Nat
  zone : Option Int
  deriving DecidableEq, Repr

namespace Moment

/-- The instant of a point in time whose zone is known, in microseconds. -/
def instant? (m : Moment) : Option Int :=
  m.zone.map fun zone =>
    let minutes : Int := ((m.date.number * 24 + m.hour) * 60 + m.minute : Nat) - zone
    (minutes * 60 + m.second) * 1000000 + m.microsecond

end Moment

end Reckon

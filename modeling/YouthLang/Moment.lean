import YouthLang.Text

/-!
# Moment — points in time

A moment is a number of nanoseconds since the start of 1970.  It is written as a date and a time of
day, to the second.
-/

namespace YouthLang.Moment

/-- Whether a year has a day more. -/
def isLeap (year : Nat) : Bool := year % 4 = 0 && (year % 100 ≠ 0 || year % 400 = 0)

/-- The days of a year. -/
def daysOfYear (year : Nat) : Nat := if isLeap year then 366 else 365

/-- The days of the months of a year. -/
def monthLengths (year : Nat) : List Nat :=
  [31, if isLeap year then 29 else 28, 31, 30, 31, 30, 31, 31, 30, 31, 30, 31]

/-- The month that a day of a year falls in and the day of that month; both count from one, the day of
the year from zero. -/
def monthDay (month : Nat) (day : Nat) : List Nat → Nat × Nat
  | [] => (month, day + 1)
  | days :: rest => if day < days then (month, day + 1) else monthDay (month + 1) (day - days) rest

/-- The year that a day falls in and the day of that year; the day counts from the start of a year, and
at most as many years are passed as allowed. -/
def yearDay : Nat → Nat → Nat → Nat × Nat
  | 0, year, day => (year, day)
  | fuel + 1, year, day =>
    if day < daysOfYear year then (year, day) else yearDay fuel (year + 1) (day - daysOfYear year)

/-- A number with zeros in front of it up to a width. -/
def padded (width n : Nat) : Text :=
  let digits := Text.ofNat n
  List.replicate (width - digits.length) 0x30 ++ digits

/-- The seconds of a day. -/
def secondsPerDay : Nat := 86400

/-- A moment as a date and a time of day. -/
def render (nanos : Nat) : Text :=
  let seconds := nanos / 1000000000
  let days := seconds / secondsPerDay
  let ofDay := seconds % secondsPerDay
  let (year, rest) := yearDay days 1970 days
  let (month, day) := monthDay 1 rest (monthLengths year)
  padded 4 year ++ "-" ++ padded 2 month ++ "-" ++ padded 2 day ++ "T" ++ padded 2 (ofDay / 3600)
    ++ ":" ++ padded 2 (ofDay / 60 % 60) ++ ":" ++ padded 2 (ofDay % 60) ++ "Z"

end YouthLang.Moment

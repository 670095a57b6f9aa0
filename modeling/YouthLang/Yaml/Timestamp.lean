import YouthLang.Moment
import YouthLang.Number.Notation

/-!
# Yaml/Timestamp — dates and times of day

A timestamp is a date, or a date and a time of day.  Behind the letter between the two a time needs its
zone, behind spaces it has none.  Apart from the year a number may do without its leading zero.
-/

namespace YouthLang.Yaml

/-- A decimal digit. -/
def isDigit (b : UInt8) : Bool := 0x30 ≤ b && b ≤ 0x39

namespace Timestamp

/-- One or two digits at the front of a text as a number, and what is behind them. -/
def number? : Text → Option (Nat × Text)
  | a :: b :: rest =>
    if isDigit a && isDigit b then some (Number.digitsValue [a, b], rest)
    else if isDigit a then some (Number.digitsValue [a], b :: rest)
    else none
  | [a] => if isDigit a then some (Number.digitsValue [a], []) else none
  | [] => none

/-- What is behind a date that the calendar has. -/
def date? (t : Text) : Option Text := do
  let year := t.takeWhile isDigit
  if year.length ≠ 4 then none
  let (month, t) ← number? (← Text.after? "-" (t.drop 4))
  let (day, t) ← number? (← Text.after? "-" t)
  let days ← if month = 0 then none else (Moment.monthLengths (Number.digitsValue year))[month - 1]?
  if 1 ≤ day && day ≤ days then some t else none

/-- What is behind a fraction of a second, if there is one. -/
def fraction (t : Text) : Text :=
  match t with
  | a :: b :: rest =>
    if (a = 0x2E || a = 0x2C) && isDigit b then rest.dropWhile isDigit else t
  | _ => t

/-- What is behind a time of day. -/
def clock? (t : Text) : Option Text := do
  let (hour, t) ← number? t
  let (minute, t) ← number? (← Text.after? ":" t)
  let (second, t) ← number? (← Text.after? ":" t)
  if hour < 24 && minute < 60 && second < 60 then some (fraction t) else none

/-- Whether a text is a zone: a `Z`, or hours and minutes with a sign. -/
def isZone (t : Text) : Bool :=
  match t with
  | [0x5A] => true
  | [sign, a, b, colon, c, d] =>
    (sign = 0x2B || sign = 0x2D) && colon = 0x3A && [a, b, c, d].all isDigit
      && Number.digitsValue [a, b] ≤ 24 && Number.digitsValue [c, d] ≤ 60
  | _ => false

end Timestamp

/-- Whether a text is a timestamp. -/
def isTimestamp (t : Text) : Bool :=
  match Timestamp.date? t with
  | none => false
  | some [] => true
  | some (b :: rest) =>
    if b = 0x54 || b = 0x74 then (Timestamp.clock? rest).any Timestamp.isZone
    else b = 0x20 && Timestamp.clock? (rest.dropWhile (· = 0x20)) = some []

end YouthLang.Yaml

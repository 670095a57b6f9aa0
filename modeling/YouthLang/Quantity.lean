import YouthLang.Number.Notation

/-!
# Quantity — large numbers for readers

Counts with a comma between groups of three digits, sizes in the largest decimal unit, and ages in
words.
-/

namespace YouthLang.Quantity

/-- Digits with a comma before every third one from the end; the digits come last first. -/
def groups : Text → Text
  | a :: b :: c :: d :: rest => a :: b :: c :: 0x2C :: groups (d :: rest)
  | few => few

/-- A count with a comma between groups of three digits. -/
def grouped (n : Int) : Text :=
  let digits := (groups (Text.ofNat n.natAbs).reverse).reverse
  if n < 0 then "-" ++ digits else digits

/-- The units of sizes, each a thousand times the one before. -/
def units : List Text := ["B", "kB", "MB", "GB", "TB", "PB", "EB"]

/-- The nearest integer to `n / 10`; a half goes to the even neighbour. -/
def tenth (n : Nat) : Nat := (Number.Ratio.mk n 10).round

/-- A number of tenths: one decimal below ten, a whole number from there on. -/
def tenths (n : Nat) : Text :=
  if n < 100 then Text.ofNat (n / 10) ++ "." ++ Text.ofNat (n % 10) else Text.ofNat (tenth n)

/-- The number of the unit for a size: its logarithm to the base of a thousand, rounded down. -/
def unitOf (size : Float) : Nat := (Float.floor (Float.log size / Float.log 1000)).toUInt64.toNat

/-- A size in bytes in the largest unit, to the nearest tenth; below ten bytes it is exact. -/
def bytes (n : Nat) : Text :=
  if n < 10 then Text.ofNat n ++ " B"
  else
    let size := Number.ofInt n
    let unit := unitOf size
    let amount := size / Number.ofInt (Nat.pow 1000 unit)
    tenths (Float.floor (amount * 10 + 0.5)).toUInt64.toNat ++ " " ++ units.getD unit []

/-! ## Ages -/

/-- The nanoseconds in a second. -/
def second : Int := 1000000000

/-- The nanoseconds in a day. -/
def day : Int := 86400 * second

/-- How an age below a bound is told. -/
inductive AgeForm where
  | now
  /-- Always the same words. -/
  | fixed (words : Text)
  /-- The number of whole units. -/
  | counted (unit : Int) (name : Text)

/-- The bounds of ages, each with the form for the ages below it and not below the bound before.  A
month has thirty days and a year twelve such months. -/
def ageForms : List (Int × AgeForm) :=
  [(second, .now), (2 * second, .fixed "1 second"), (60 * second, .counted second "seconds"),
    (120 * second, .fixed "1 minute"), (3600 * second, .counted (60 * second) "minutes"),
    (7200 * second, .fixed "1 hour"), (day, .counted (3600 * second) "hours"),
    (2 * day, .fixed "1 day"), (7 * day, .counted day "days"), (14 * day, .fixed "1 week"),
    (30 * day, .counted (7 * day) "weeks"), (60 * day, .fixed "1 month"),
    (360 * day, .counted (30 * day) "months"), (540 * day, .fixed "1 year"),
    (720 * day, .fixed "2 years"), (13320 * day, .counted (360 * day) "years")]

/-- The age of a moment, or how far ahead it lies, in the largest unit. -/
def age (now moment : Int) : Text :=
  let distance : Int := (now - moment).natAbs
  let side : Text := if now < moment then " from now" else " ago"
  match (ageForms.find? fun (bound, _) => distance < bound).map Prod.snd with
  | some .now => "now"
  | some (.fixed words) => words ++ side
  | some (.counted unit name) => Text.ofInt (distance / unit) ++ " " ++ name ++ side
  | none => "a long while" ++ side

end YouthLang.Quantity

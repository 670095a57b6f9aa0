import YouthLang.Text

/-!
# Duration — lengths of time

A duration is a number of nanoseconds.  It is written in the largest unit below a second that it
reaches, or as hours, minutes and seconds with the fraction of the last second.
-/

namespace YouthLang.Duration

/-- The longest duration there is. -/
def longest : Int := 0x7FFFFFFFFFFFFFFF

/-- A number of `10 ^ -places` parts, as a decimal without trailing zeros. -/
def decimal (places : Nat) (n : Nat) : Text :=
  let whole := n / Nat.pow 10 places
  let part := Text.ofNat (n % Nat.pow 10 places)
  let digits := Text.dropTrailing 0x30 (List.replicate (places - part.length) 0x30 ++ part)
  if digits = [] then Text.ofNat whole else Text.ofNat whole ++ "." ++ digits

/-- A duration of less than a second, or of hours, minutes and seconds; the larger units are left out
where they are zero. -/
def renderNat (n : Nat) : Text :=
  if n = 0 then "0s"
  else if n < 1000 then Text.ofNat n ++ "ns"
  else if n < 1000000 then decimal 3 n ++ "µs"
  else if n < 1000000000 then decimal 6 n ++ "ms"
  else
    let minutes := n / 60000000000
    let seconds := decimal 9 (n % 60000000000) ++ "s"
    if minutes = 0 then seconds
    else if minutes < 60 then Text.ofNat minutes ++ "m" ++ seconds
    else Text.ofNat (minutes / 60) ++ "h" ++ Text.ofNat (minutes % 60) ++ "m" ++ seconds

/-- A duration as text. -/
def render (nanos : Int) : Text :=
  if nanos < 0 then "-" ++ renderNat nanos.natAbs else renderNat nanos.natAbs

/-- The nearest whole number of microseconds, a half away from zero; past the longest duration the
result is the longest. -/
def roundToMicros (nanos : Int) : Int :=
  let n := (nanos.natAbs + 500) / 1000 * 1000
  if nanos < 0 then max (-longest - 1) (-n) else min longest n

end YouthLang.Duration

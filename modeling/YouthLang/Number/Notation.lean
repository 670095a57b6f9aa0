import YouthLang.Number.Decimal
import YouthLang.Text

/-!
# Number/Notation — how numbers are written and read

A numeral is digits, or digits, a point and digits.  `Number.plain` writes every number in that form,
with the fewest digits that read back and never an exponent; `Number.compact` changes to an exponent
for very large and very small numbers.
-/

namespace YouthLang.Number

/-- The digits of a decimal, most significant first and without trailing zeros, and the place of the
point: the decimal is `0.d₁d₂… · 10 ^ place`. -/
structure Digits where
  digits : Text
  place : Int
deriving DecidableEq, Repr

/-- The digits of a decimal; zero is the digit `0` before the point. -/
def Decimal.toDigits (d : Decimal) : Digits :=
  if d.significand = 0 then ⟨"0", 1⟩
  else
    let all := Text.ofNat d.significand
    ⟨Text.dropTrailing 0x30 all, all.length + d.exponent⟩

/-- The digits of a finite number without its sign. -/
def digits (x : Float) : Digits :=
  if significand x = 0 then ⟨"0", 1⟩ else (shortest (absolute x)).toDigits

/-- `n` zeros. -/
def zeros (n : Nat) : Text := List.replicate n 0x30

namespace Digits

/-- Digits before and after the point; there is always a digit before it, and the point is left out
where no digit follows. -/
def positional (d : Digits) : Text :=
  let whole : Text :=
    if d.place ≤ 0 then "0"
    else d.digits.take d.place.toNat ++ zeros (d.place.toNat - d.digits.length)
  let rest : Text := zeros (-d.place).toNat ++ d.digits.drop d.place.toNat
  if d.digits.length ≤ d.place then whole else whole ++ "." ++ rest

/-- One digit before the point, and an exponent of at least two digits with its sign. -/
def scientific (d : Digits) : Text :=
  let e := d.place - 1
  let power := Text.ofNat e.natAbs
  let mantissa : Text :=
    match d.digits with
    | [] => "0"
    | [c] => [c]
    | c :: rest => [c] ++ "." ++ rest
  mantissa ++ "e" ++ (if e < 0 then "-" else "+") ++ zeros (2 - power.length) ++ power

/-- Positional, except for exponents below `-4` and from `6` on. -/
def compact (d : Digits) : Text :=
  if d.place - 1 < -4 || 6 < d.place then d.scientific else d.positional

end Digits

/-- The text of a number, with its finite form written by `form`. -/
def written (form : Digits → Text) (x : Float) : Text :=
  if isFinite x then (if isNegative x then ("-" : Text) else []) ++ form (digits x)
  else if fractionBits x ≠ 0 then "NaN"
  else if isNegative x then "-Infinity"
  else "Infinity"

/-- The text that a program prints for a number: never an exponent. -/
def plain (x : Float) : Text := written Digits.positional x

/-- The text of a number in a listing: an exponent from a million on and below a ten-thousandth. -/
def compact (x : Float) : Text := written Digits.compact x

/-- The value of a run of decimal digits. -/
def digitsValue (t : Text) : Nat := t.foldl (fun n b => 10 * n + (b.toNat - 0x30)) 0

/-- The number that a numeral stands for, `none` past the largest finite number. -/
def ofNumeral? (whole fraction : Text) : Option Float :=
  Decimal.toFloat? ⟨digitsValue (whole ++ fraction), -fraction.length⟩

end YouthLang.Number

/-!
# Number/Binary — double-precision numbers as exact fractions

A finite number is `± m · 2 ^ q` with `m < 2 ^ 53` and `-1074 ≤ q`.  `significand` and `exponent` read
`m` and `q` off the bit pattern; `nearest?` goes back: it rounds an exact fraction to the nearest
number, a half to the even neighbour.
-/

namespace YouthLang.Number

/-- The sign bit. -/
def isNegative (x : Float) : Bool := x.toBits ≥ 0x8000000000000000

/-- The number without its sign. -/
def absolute (x : Float) : Float := Float.ofBits (x.toBits &&& 0x7FFFFFFFFFFFFFFF)

/-- The number of different fractions: fractions have fifty-two bits. -/
def fractionCount : Nat := 0x10000000000000

/-- The eleven exponent bits. -/
def exponentBits (x : Float) : Nat := x.toBits.toNat / fractionCount % 0x800

/-- The fifty-two fraction bits. -/
def fractionBits (x : Float) : Nat := x.toBits.toNat % fractionCount

/-- Neither an infinity nor a NaN. -/
def isFinite (x : Float) : Bool := exponentBits x ≠ 0x7FF

/-- The integer `m` of a finite number `± m · 2 ^ q`. -/
def significand (x : Float) : Nat :=
  if exponentBits x = 0 then fractionBits x else fractionBits x + fractionCount

/-- The exponent `q` of a finite number `± m · 2 ^ q`. -/
def exponent (x : Float) : Int := (max 1 (exponentBits x) : Nat) - 1075

/-- A fraction of natural numbers; the denominator is positive. -/
structure Ratio where
  num : Nat
  den : Nat
deriving DecidableEq, Repr

namespace Ratio

/-- The fraction `n · b ^ e`. -/
def scaled (n b : Nat) (e : Int) : Ratio :=
  if 0 ≤ e then ⟨n * Nat.pow b e.toNat, 1⟩ else ⟨n, Nat.pow b e.natAbs⟩

/-- The fraction divided by `b ^ e`. -/
def shift (r : Ratio) (b : Nat) (e : Int) : Ratio :=
  if 0 ≤ e then ⟨r.num, r.den * Nat.pow b e.toNat⟩ else ⟨r.num * Nat.pow b e.natAbs, r.den⟩

/-- The fraction rounded down. -/
def floor (r : Ratio) : Nat := r.num / r.den

/-- How the fraction lies to the middle between its floor and the next integer. -/
def half (r : Ratio) : Ordering := compare (2 * (r.num % r.den)) r.den

/-- The nearest integer; a half goes to the even neighbour. -/
def round (r : Ratio) : Nat :=
  match half r with
  | .lt => r.floor
  | .gt => r.floor + 1
  | .eq => if r.floor % 2 = 0 then r.floor else r.floor + 1

/-- The fraction lies below `b ^ e`. -/
def below (r : Ratio) (b : Nat) (e : Int) : Bool := (r.shift b e).num < (r.shift b e).den

/-- An exponent `t` with `2 ^ (t - 1) < r < 2 ^ (t + 1)`, for a positive fraction. -/
def log2 (r : Ratio) : Int := (Nat.log2 r.num : Int) - Nat.log2 r.den

end Ratio

/-- The exact value of a finite number without its sign. -/
def magnitude (x : Float) : Ratio := .scaled (significand x) 2 (exponent x)

/-- The exponent of the numbers around a positive fraction: the significand then has 53 bits, or
the exponent is the least there is. -/
def gridExponent (r : Ratio) : Int :=
  let q := r.log2 - 53
  max (-1074) (if r.below 2 (q + 53) then q else q + 1)

/-- The bit pattern of the nearest number, read as a natural number; past the largest finite number
it is that of infinity or more. -/
def nearestBits (r : Ratio) : Nat :=
  if r.num = 0 then 0
  else
    let q := gridExponent r
    (q + 1074).toNat * fractionCount + (r.shift 2 q).round

/-- The number nearest to a fraction, `none` if that is past the largest finite number. -/
def nearest? (r : Ratio) : Option Float :=
  if nearestBits r < 0x7FF * fractionCount then some (Float.ofBits (UInt64.ofNat (nearestBits r))) else none

/-- The number nearest to an integer, infinite past the largest finite number. -/
def ofInt (i : Int) : Float :=
  let x := (nearest? ⟨i.natAbs, 1⟩).getD (Float.ofBits 0x7FF0000000000000)
  if i < 0 then -x else x

/-- A finite number without its fraction. -/
def truncate (x : Float) : Int :=
  let n : Int := (magnitude x).floor
  if isNegative x then -n else n

end YouthLang.Number

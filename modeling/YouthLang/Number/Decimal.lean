import YouthLang.Number.Binary

/-!
# Number/Decimal — the fewest digits that read back

`shortest` gives a positive number the decimal with the fewest digits among those that round to it,
and of two with as many digits the nearer one; an exact tie goes to the even last digit.  A decimal
is only ever chosen because it reads back.
-/

namespace YouthLang.Number

/-- The decimal `significand · 10 ^ exponent`. -/
structure Decimal where
  significand : Nat
  exponent : Int
deriving DecidableEq, Repr

namespace Decimal

/-- The exact value of a decimal. -/
def value (d : Decimal) : Ratio := .scaled d.significand 10 d.exponent

/-- The number nearest to a decimal. -/
def toFloat? (d : Decimal) : Option Float := nearest? d.value

/-- Whether a decimal rounds to a number. -/
def reads (d : Decimal) (x : Float) : Bool := d.toFloat? = some x

/-- The least `k` with the positive fraction below `10 ^ k`. -/
def point (r : Ratio) : Int :=
  let k := Int.fdiv ((r.log2 - 1) * 30103) 100000 + 1
  if r.below 10 k then k else k + 1

/-- The decimal next to a positive number on the grid of multiples of `10 ^ e`, if one of the two
neighbours reads back. -/
def onGrid? (x : Float) (e : Int) : Option Decimal :=
  let r := (magnitude x).shift 10 e
  let lo : Decimal := ⟨r.floor, e⟩
  let hi : Decimal := ⟨r.floor + 1, e⟩
  match lo.reads x, hi.reads x with
  | true, true => some ⟨r.round, e⟩
  | true, false => some lo
  | false, true => some hi
  | false, false => none

/-- The decimal that is exactly a finite number without its sign. -/
def exact (x : Float) : Decimal :=
  if 0 ≤ Number.exponent x then ⟨Number.significand x * Nat.pow 2 (Number.exponent x).toNat, 0⟩
  else ⟨Number.significand x * Nat.pow 5 (Number.exponent x).natAbs, Number.exponent x⟩

/-- The first hit on the grids of `n`, `n + 1`, … digits, at most `tries` of them. -/
def search (x : Float) (k : Int) : Nat → Nat → Option Decimal
  | 0, _ => none
  | tries + 1, n => (onGrid? x (k - n)).or (search x k tries (n + 1))

end Decimal

/-- The shortest decimal that rounds to a positive finite number; seventeen digits always do. -/
def shortest (x : Float) : Decimal :=
  (Decimal.search x (Decimal.point (magnitude x)) 17 1).getD (Decimal.exact x)

end YouthLang.Number

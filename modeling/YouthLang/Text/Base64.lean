import YouthLang.Text

/-!
# Text/Base64 — bytes as letters

Three bytes are four characters of six bits each.  The last group of fewer bytes is filled up with equals
signs.
-/

namespace YouthLang.Base64

/-- The character for six bits. -/
def letter (n : Nat) : UInt8 :=
  if n < 26 then UInt8.ofNat (0x41 + n)
  else if n < 52 then UInt8.ofNat (0x61 + (n - 26))
  else if n < 62 then UInt8.ofNat (0x30 + (n - 52))
  else if n = 62 then 0x2B
  else 0x2F

/-- The six bits that a character stands for. -/
def sextet? (b : UInt8) : Option Nat :=
  if 0x41 ≤ b && b ≤ 0x5A then some (b.toNat - 0x41)
  else if 0x61 ≤ b && b ≤ 0x7A then some (b.toNat - 0x61 + 26)
  else if 0x30 ≤ b && b ≤ 0x39 then some (b.toNat - 0x30 + 52)
  else if b = 0x2B then some 62
  else if b = 0x2F then some 63
  else none

/-- The sign that fills up the last group. -/
def pad : UInt8 := 0x3D

/-- Bytes as characters. -/
def encode : Text → Text
  | [] => []
  | [a] => [letter (a.toNat / 4), letter (a.toNat % 4 * 16), pad, pad]
  | [a, b] =>
    [letter (a.toNat / 4), letter (a.toNat % 4 * 16 + b.toNat / 16), letter (b.toNat % 16 * 4), pad]
  | a :: b :: c :: rest =>
    letter (a.toNat / 4) :: letter (a.toNat % 4 * 16 + b.toNat / 16)
      :: letter (b.toNat % 16 * 4 + c.toNat / 64) :: letter (c.toNat % 64) :: encode rest

/-- The first byte of a group. -/
def first (a b : Nat) : UInt8 := UInt8.ofNat (a * 4 + b / 16)

/-- The second byte of a group. -/
def second (b c : Nat) : UInt8 := UInt8.ofNat (b % 16 * 16 + c / 4)

/-- The third byte of a group. -/
def third (c d : Nat) : UInt8 := UInt8.ofNat (c % 4 * 64 + d)

/-- Characters as bytes; nothing if a character has no meaning or the last group is not full. -/
def decode? : Text → Option Text
  | [] => some []
  | a :: b :: c :: d :: rest => do
    let x ← sextet? a
    let y ← sextet? b
    if c = pad then
      if d = pad && rest.isEmpty then some [first x y] else none
    else
      let z ← sextet? c
      if d = pad then
        if rest.isEmpty then some [first x y, second y z] else none
      else
        let w ← sextet? d
        let more ← decode? rest
        some (first x y :: second y z :: third z w :: more)
  | _ => none

end YouthLang.Base64

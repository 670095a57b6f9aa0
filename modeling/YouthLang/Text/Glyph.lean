import YouthLang.Text

/-!
# Text/Glyph — the characters of a text

A text is read from the left, one character at a time: the longest well-formed UTF-8 sequence at the
front is a character, and a byte that starts none is a character of its own, a *stray* byte.  The
reading loses nothing: `Glyph.encode` of each glyph gives the bytes back.
-/

namespace YouthLang

/-- One character of a text: a Unicode scalar value, or a byte that belongs to no UTF-8 sequence. -/
inductive Glyph where
  | char (c : Char)
  | stray (b : UInt8)
deriving DecidableEq, Repr

namespace Glyph

/-- The bytes of a glyph. -/
def encode : Glyph → Text
  | .char c => String.utf8EncodeChar c
  | .stray b => [b]

/-- Whether a byte continues a sequence and lies between two bounds. -/
def continues (lo hi b : UInt8) : Bool := lo ≤ b && b ≤ hi

/-- The payload of a continuation byte. -/
def payload (b : UInt8) : Nat := (b &&& 0x3F).toNat

/-- The character of a two-byte sequence. -/
def two? (a b : UInt8) : Option Char :=
  if 0xC2 ≤ a && a ≤ 0xDF && continues 0x80 0xBF b then
    some (Char.ofNat ((a &&& 0x1F).toNat * 64 + payload b))
  else none

/-- The character of a three-byte sequence; the second byte's bounds keep out overlong forms and
surrogates. -/
def three? (a b c : UInt8) : Option Char :=
  let lo : UInt8 := if a = 0xE0 then 0xA0 else 0x80
  let hi : UInt8 := if a = 0xED then 0x9F else 0xBF
  if 0xE0 ≤ a && a ≤ 0xEF && continues lo hi b && continues 0x80 0xBF c then
    some (Char.ofNat (((a &&& 0x0F).toNat * 64 + payload b) * 64 + payload c))
  else none

/-- The character of a four-byte sequence; the second byte's bounds keep out overlong forms and
numbers past the last scalar value. -/
def four? (a b c d : UInt8) : Option Char :=
  let lo : UInt8 := if a = 0xF0 then 0x90 else 0x80
  let hi : UInt8 := if a = 0xF4 then 0x8F else 0xBF
  if 0xF0 ≤ a && a ≤ 0xF4 && continues lo hi b && continues 0x80 0xBF c && continues 0x80 0xBF d then
    some (Char.ofNat ((((a &&& 0x07).toNat * 64 + payload b) * 64 + payload c) * 64 + payload d))
  else none

/-- The glyph at the front of `a :: rest`, and how many bytes of `rest` belong to it. -/
def front (a : UInt8) (rest : Text) : Glyph × Nat :=
  if a < 0x80 then (.char (Char.ofNat a.toNat), 0)
  else match rest with
    | [] => (.stray a, 0)
    | [b] => ((two? a b).elim (.stray a, 0) fun x => (.char x, 1))
    | [b, c] =>
      match two? a b, three? a b c with
      | some x, _ => (.char x, 1)
      | none, some x => (.char x, 2)
      | none, none => (.stray a, 0)
    | b :: c :: d :: _ =>
      match two? a b, three? a b c, four? a b c d with
      | some x, _, _ => (.char x, 1)
      | none, some x, _ => (.char x, 2)
      | none, none, some x => (.char x, 3)
      | none, none, none => (.stray a, 0)

/-- The glyphs of a text whose first `skip` bytes belong to a glyph already read. -/
def readFrom : Nat → Text → List Glyph
  | _, [] => []
  | skip + 1, _ :: rest => readFrom skip rest
  | 0, a :: rest => (front a rest).1 :: readFrom (front a rest).2 rest

/-- The number that a glyph's character has, `none` for a stray byte. -/
def code? : Glyph → Option Nat
  | .char c => some c.toNat
  | .stray _ => none

end Glyph

/-- The glyphs of a text, from the left. -/
def Text.glyphs (t : Text) : List Glyph := Glyph.readFrom 0 t

/-- The bytes of a run of glyphs. -/
def Text.ofGlyphs (gs : List Glyph) : Text := gs.flatMap Glyph.encode

end YouthLang

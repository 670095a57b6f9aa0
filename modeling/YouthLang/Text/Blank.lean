import YouthLang.Text.Glyph

/-!
# Text/Blank — white space and case

The Unicode property `White_Space` as a table, trimming by it, and the lower-case form that
commands and level names are compared in.
-/

namespace YouthLang

/-- The ranges of the Unicode property `White_Space`. -/
def blankRanges : List (Nat × Nat) :=
  [(0x09, 0x0D), (0x20, 0x20), (0x85, 0x85), (0xA0, 0xA0), (0x1680, 0x1680), (0x2000, 0x200A),
    (0x2028, 0x2029), (0x202F, 0x202F), (0x205F, 0x205F), (0x3000, 0x3000)]

namespace Glyph

/-- Whether a glyph is white space; a stray byte is not. -/
def isBlank (g : Glyph) : Bool :=
  g.code?.any fun n => blankRanges.any fun (lo, hi) => lo ≤ n && n ≤ hi

/-- The lower-case form of a glyph where it is an ASCII letter: the capitals `A` to `Z`, the dotted
capital `İ` and the kelvin sign.  Every other glyph is left alone. -/
def lower : Glyph → Glyph
  | .char c =>
    if 'A' ≤ c && c ≤ 'Z' then .char (Char.ofNat (c.toNat + 32))
    else if c.toNat = 0x130 then .char 'i'
    else if c.toNat = 0x212A then .char 'k'
    else .char c
  | .stray b => .stray b

end Glyph

namespace Text

/-- A text without the white space at its ends. -/
def trim (t : Text) : Text :=
  ofGlyphs (((t.glyphs.dropWhile Glyph.isBlank).reverse.dropWhile Glyph.isBlank).reverse)

/-- Whether a text holds white space only. -/
def isBlank (t : Text) : Bool := (trim t).isEmpty

/-- A text with every letter that has an ASCII lower-case form in that form. -/
def lower (t : Text) : Text := ofGlyphs (t.glyphs.map Glyph.lower)

end Text

end YouthLang

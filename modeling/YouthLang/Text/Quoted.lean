import YouthLang.Text.Printable

/-!
# Text/Quoted — texts between double quotes

A quoted text stands on one line between double quotes.  Printable characters stand for themselves,
except the quote and the backslash, which are escaped; the usual control characters have a letter,
other characters a number of two, four or eight hexadecimal digits, and a stray byte its own two.
-/

namespace YouthLang

namespace Glyph

/-- The letter that names a control character behind a backslash. -/
def escapeLetter? (n : Nat) : Option UInt8 :=
  match n with
  | 0x07 => some 0x61
  | 0x08 => some 0x62
  | 0x09 => some 0x74
  | 0x0A => some 0x6E
  | 0x0B => some 0x76
  | 0x0C => some 0x66
  | 0x0D => some 0x72
  | _ => none

/-- The written form of a glyph inside quotes. -/
def quoted : Glyph → Text
  | .stray b => "\\x" ++ Text.hex 2 b.toNat
  | .char c =>
    let n := c.toNat
    if n = 0x22 || n = 0x5C then [0x5C, c.toUInt8]
    else if isPrintable n then encode (.char c)
    else match escapeLetter? n with
      | some letter => [0x5C, letter]
      | none =>
        if n < 0x80 then "\\x" ++ Text.hex 2 n
        else if n < 0x10000 then "\\u" ++ Text.hex 4 n
        else "\\U" ++ Text.hex 8 n

end Glyph

namespace Text

/-- A text between double quotes. -/
def quoted (t : Text) : Text := "\"" ++ t.glyphs.flatMap Glyph.quoted ++ "\""

end Text

end YouthLang

import YouthLang.Text.Glyph

/-!
# Text/Json — texts as JSON strings

A JSON string that is also safe inside HTML: besides the quote, the backslash and the control
characters, the characters `<`, `>`, `&` and the two Unicode line separators are escaped.  A stray byte
is written as the replacement character.
-/

namespace YouthLang.Json

/-- The written form of one character. -/
def escape : Glyph → Text
  | .stray _ => "\\ufffd"
  | .char c =>
    let n := c.toNat
    if n = 0x22 || n = 0x5C then [0x5C, c.toUInt8]
    else match n with
      | 0x08 => "\\b"
      | 0x09 => "\\t"
      | 0x0A => "\\n"
      | 0x0C => "\\f"
      | 0x0D => "\\r"
      | _ =>
        if n < 0x20 || n = 0x3C || n = 0x3E || n = 0x26 || n = 0x2028 || n = 0x2029 then
          "\\u" ++ Text.hex 4 n
        else Glyph.encode (.char c)

/-- A text as a JSON string. -/
def string (t : Text) : Text := "\"" ++ t.glyphs.flatMap escape ++ "\""

end YouthLang.Json

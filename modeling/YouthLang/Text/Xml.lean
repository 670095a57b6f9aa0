import YouthLang.Text.Glyph

/-!
# Text/Xml — texts as XML

Characters with a meaning in XML, quotes, tabs and line ends are written as references; a character
that XML does not allow, or a stray byte, becomes the replacement character.
-/

namespace YouthLang.Xml

/-- The numbers of the characters that XML allows. -/
def isAllowed (n : Nat) : Bool :=
  n = 0x09 || n = 0x0A || n = 0x0D || (0x20 ≤ n && n ≤ 0xD7FF) || (0xE000 ≤ n && n ≤ 0xFFFD)
    || 0x10000 ≤ n

/-- The character that stands for one that cannot be written. -/
def replacement : Text := "\uFFFD"

/-- The written form of one character. -/
def escapeGlyph : Glyph → Text
  | .stray _ => replacement
  | .char c =>
    match c.toNat with
    | 0x22 => "&#34;"
    | 0x27 => "&#39;"
    | 0x26 => "&amp;"
    | 0x3C => "&lt;"
    | 0x3E => "&gt;"
    | 0x09 => "&#x9;"
    | 0x0A => "&#xA;"
    | 0x0D => "&#xD;"
    | n => if isAllowed n then Glyph.encode (.char c) else replacement

/-- A text as the content of an element or an attribute. -/
def escape (t : Text) : Text := t.glyphs.flatMap escapeGlyph

/-- An attribute with a space in front of it. -/
def assignment (key value : Text) : Text := " " ++ key ++ "=\"" ++ escape value ++ "\""

/-- An element's name and attributes between angle brackets. -/
def openTag (name : Text) (attributes : List (Text × Text)) : Text :=
  "<" ++ name ++ attributes.flatMap (fun (key, value) => assignment key value) ++ ">"

/-- The end of an element. -/
def closeTag (name : Text) : Text := "</" ++ name ++ ">"

/-- An element with a text in it, on one line. -/
def leaf (depth : Nat) (name : Text) (attributes : List (Text × Text)) (content : Text) : Text :=
  Text.spaces (2 * depth) ++ openTag name attributes ++ escape content ++ closeTag name

/-- An element with elements in it, each on lines of its own. -/
def node (depth : Nat) (name : Text) (attributes : List (Text × Text)) (children : List Text) : Text :=
  if children.isEmpty then leaf depth name attributes []
  else Text.join [Text.newline] <|
    (Text.spaces (2 * depth) ++ openTag name attributes) :: children
      ++ [Text.spaces (2 * depth) ++ closeTag name]

end YouthLang.Xml

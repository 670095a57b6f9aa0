import YouthLang.Yaml.Meaning
import YouthLang.Text.Glyph

/-!
# Yaml/Write — texts as scalars

A text is written plain if it reads back as that text, otherwise between single or double quotes; a text
of several lines is written as a block of lines.  Bytes that are no text are written as letters.
-/

namespace YouthLang.Yaml

/-- Words that other readers take for truth values. -/
def oldTruths : List Text :=
  ["y", "Y", "yes", "Yes", "YES", "on", "On", "ON", "n", "N", "no", "No", "NO", "off", "Off", "OFF"]

/-- Whether a text is one digit, or two the first of which is below six. -/
def isSixtieth (t : Text) : Bool :=
  match t with
  | [a] => isDigit a
  | [a, b] => 0x30 ≤ a && a ≤ 0x35 && isDigit b
  | _ => false

/-- Whether other readers take a text for a number to the base of sixty. -/
def isBaseSixty (t : Text) : Bool :=
  let (_, body) := unsigned t
  match Text.splitOn 0x3A body with
  | [] | [_] => false
  | first :: rest =>
    let last := rest.getLastD []
    let seconds := last.takeWhile (· ≠ 0x2E)
    let places := (last.dropWhile (· ≠ 0x2E)).drop 1
    first.head?.any isDigit && first.all (fun b => isDigit b || b = 0x5F)
      && rest.dropLast.all isSixtieth && isSixtieth seconds
      && places.all fun b => isDigit b || b = 0x5F

/-- Whether a text would be read back as a text if it were written plain. -/
def readsAsText (t : Text) : Bool :=
  match meaning t with
  | .text _ => !(isBaseSixty t || oldTruths.contains t)
  | _ => false

/-! ## What a text holds -/

def isSpaceGlyph (g : Glyph) : Bool := g = .char ' '

/-- A character that ends a line. -/
def isBreak : Glyph → Bool
  | .char c => c = '\n' || c = '\r' || c.toNat = 0x85 || c.toNat = 0x2028 || c.toNat = 0x2029
  | .stray _ => false

/-- A character that is written as it is. -/
def isPrintable : Glyph → Bool
  | .char c =>
    let n := c.toNat
    n = 0x0A || (0x20 ≤ n && n ≤ 0x7E) || (0xA0 ≤ n && n ≤ 0xD7FF)
      || (0xE000 ≤ n && n ≤ 0xFFFD && n ≠ 0xFEFF)
  | .stray _ => false

/-- Whether the end or a blank comes next. -/
def isFollowedByBlank : List Glyph → Bool
  | [] => true
  | g :: _ => g = .char ' ' || g = .char '\t'

/-- The characters that have a meaning at the start of a scalar. -/
def startIndicators : List Glyph :=
  [.char '#', .char ',', .char '[', .char ']', .char '\x7b', .char '\x7d', .char '&', .char '*',
    .char '!', .char '|', .char '>', .char (Char.ofNat 0x27), .char '"', .char '%', .char '@',
    .char (Char.ofNat 0x60)]

/-- Whether a character further on has a meaning: a colon before a blank, or a number sign behind
one. -/
def hasIndicator : Bool → List Glyph → Bool
  | _, [] => false
  | afterBlank, g :: rest =>
    (g = .char ':' && isFollowedByBlank rest) || (g = .char '#' && afterBlank)
      || hasIndicator (g = .char ' ' || g = .char '\t' || isBreak g) rest

/-- Whether a scalar holds characters that would be read as structure. -/
def hasStructure (gs : List Glyph) : Bool :=
  let dashes : List Glyph := [.char '-', .char '-', .char '-']
  let dots : List Glyph := [.char '.', .char '.', .char '.']
  gs.take 3 = dashes || gs.take 3 = dots
    || match gs with
      | [] => false
      | g :: rest =>
        startIndicators.contains g
          || ((g = .char '?' || g = .char ':' || g = .char '-') && isFollowedByBlank rest)
          || hasIndicator (g = .char ' ' || g = .char '\t' || isBreak g) rest

/-- Whether two neighbours satisfy two conditions. -/
def hasPair (p q : Glyph → Bool) : List Glyph → Bool
  | g :: h :: rest => (p g && q h) || hasPair p q (h :: rest)
  | _ => false

/-- The ways to write a text. -/
inductive Style where
  | plain
  | single
  | double
  | block
deriving DecidableEq, Repr

/-- Whether a text holds something that only double quotes can hold. -/
def needsDouble (gs : List Glyph) : Bool :=
  gs.any (fun g => g = .char '\t' || !isPrintable g) || hasPair isSpaceGlyph isBreak gs

/-- Whether a text can be written as a block of lines. -/
def allowsBlock (gs : List Glyph) : Bool :=
  !(gs.getLast?.any isSpaceGlyph) && !hasPair isSpaceGlyph isBreak gs
    && !gs.any fun g => g ≠ .char '\t' && !isPrintable g

/-- How a text is written. -/
def styleOf (t : Text) : Style :=
  let gs := t.glyphs
  if t.contains Text.newline then if allowsBlock gs then .block else .double
  else if !readsAsText t then .double
  else if needsDouble gs || hasPair isBreak isSpaceGlyph gs then .double
  else if gs.head?.any (fun g => isSpaceGlyph g || isBreak g)
      || gs.getLast?.any (fun g => isSpaceGlyph g || isBreak g) || gs.any isBreak || hasStructure gs then
    .single
  else .plain

/-! ## Written forms -/

/-- The letters that name characters behind a backslash. -/
def escapeLetters : List (Nat × UInt8) :=
  [(0x00, 0x30), (0x07, 0x61), (0x08, 0x62), (0x09, 0x74), (0x0A, 0x6E), (0x0B, 0x76), (0x0C, 0x66),
    (0x0D, 0x72), (0x1B, 0x65), (0x22, 0x22), (0x5C, 0x5C), (0x85, 0x4E), (0xA0, 0x5F),
    (0x2028, 0x4C), (0x2029, 0x50)]

/-- The hexadecimal digits of a number in upper case. -/
def upperHex (width n : Nat) : Text :=
  (Text.hex width n).map fun b => if 0x61 ≤ b then b - 0x20 else b

/-- A character behind a backslash. -/
def escaped (c : Char) : Text :=
  match escapeLetters.lookup c.toNat with
  | some letter => [0x5C, letter]
  | none =>
    if c.toNat ≤ 0xFF then "\\x" ++ upperHex 2 c.toNat
    else if c.toNat ≤ 0xFFFF then "\\u" ++ upperHex 4 c.toNat
    else "\\U" ++ upperHex 8 c.toNat

/-- Whether a character stands for itself between double quotes. -/
def isVerbatim (g : Glyph) : Bool :=
  isPrintable g && !isBreak g && g ≠ .char '"' && g ≠ .char '\\'

/-- A text between double quotes.  Behind the mark of an encoding no character stands for itself. -/
def doubleQuoted (gs : List Glyph) : Text :=
  let isMarked := gs.head? = some (.char (Char.ofNat 0xFEFF))
  let written (g : Glyph) : Text :=
    match g with
    | .stray b => [b]
    | .char c => if isVerbatim g && !isMarked then g.encode else escaped c
  "\"" ++ gs.flatMap written ++ "\""

/-- Characters with the spaces that belong in front of each line; `afterBreak` tells whether a line
starts here. -/
def indented (indent : Nat) (afterBreak : Bool) : List Glyph → Text
  | [] => []
  | g :: rest =>
    if isBreak g then g.encode ++ indented indent true rest
    else (if afterBreak then Text.spaces indent else []) ++ g.encode ++ indented indent false rest

/-- A text between single quotes; a quote inside is written twice. -/
def singleQuoted (indent : Nat) (gs : List Glyph) : Text :=
  let quote : Glyph := .char (Char.ofNat 0x27)
  "'" ++ indented indent false (gs.flatMap fun g => if g = quote then [g, g] else [g]) ++ "'"

/-- The sign for the line ends behind the last line of a block: none, one or several. -/
def endSign (gs : List Glyph) : Text :=
  match gs.reverse with
  | [] => "-"
  | [g] => if isBreak g then "+" else "-"
  | g :: h :: _ => if !isBreak g then "-" else if isBreak h then "+" else []

/-- A text as a block of lines.  A line end at the start of the text is the one behind the signs that
open the block. -/
def block (indent : Nat) (gs : List Glyph) : Text :=
  let startsBlank := gs.head?.any fun g => isSpaceGlyph g || isBreak g
  let startsBroken := gs.head?.any isBreak
  "|" ++ (if startsBlank then Text.ofNat 4 else []) ++ endSign gs
    ++ (if startsBroken then [] else [Text.newline]) ++ indented indent true gs

/-- The most letters on a line. -/
def letterWidth : Nat := 70

/-- The lines that letters are broken into, each with its line end; `fuel` bounds their number. -/
def letterLines : Nat → Text → Text
  | 0, t => t
  | _ + 1, [] => []
  | fuel + 1, t => Text.line (t.take letterWidth) ++ letterLines fuel (t.drop letterWidth)

/-- Bytes that are no text, as letters. -/
def letters (t : Text) : Text :=
  let all := Base64.encode t
  if all.length < letterWidth then all else letterLines all.length all

/-- A scalar with the line end behind it, unless it ends with one. -/
def ended (style : Style) (gs : List Glyph) (written : Text) : Text :=
  if style = .block && gs.getLast?.any isBreak then written else Text.line written

/-- A text as a scalar and the line end behind it; further lines are `indent` spaces in. -/
def textLine (indent : Nat) (t : Text) : Text :=
  let gs := t.glyphs
  if gs.any (·.code?.isNone) then
    let letters := letters t
    if letters.contains Text.newline then "!!binary " ++ block indent letters.glyphs
    else Text.line ("!!binary " ++ letters)
  else
    let style := styleOf t
    ended style gs (match style with
      | .plain => t
      | .single => singleQuoted indent gs
      | .double => doubleQuoted gs
      | .block => block indent gs)

end YouthLang.Yaml

import YouthLang.Text.Glyph

/-!
# Text/Json/Datum — JSON values read from a text

`Json.read?` reads the first JSON value of a text and leaves what follows it unread.  Values may be
nested `maxNesting` deep.  Inside a string a stray byte and half a surrogate pair read as the
replacement character.
-/

namespace YouthLang.Json

/-- A JSON value; a number is kept as it is written. -/
inductive Datum where
  | null
  | truth (b : Bool)
  | number (written : Text)
  | text (t : Text)
  | array (items : List Datum)
  | object (members : List (Text × Datum))

/-- How deep arrays and objects may be nested. -/
def maxNesting : Nat := 10000

/-- A reader takes what it reads off the front. -/
abbrev Reader (α : Type) := StateT (List Glyph) Option α

namespace Reader

/-- White space between the parts of a value. -/
def isSpace (g : Glyph) : Bool :=
  g = .char ' ' || g = .char '\t' || g = .char '\n' || g = .char '\r'

/-- Skips white space. -/
def skipSpace : Reader Unit := modify (·.dropWhile isSpace)

/-- Reads one character. -/
def next : Reader Glyph := fun
  | [] => none
  | g :: rest => some (g, rest)

/-- The next character, left unread. -/
def peek : Reader Glyph := fun
  | [] => none
  | g :: rest => some (g, g :: rest)

/-- Reads a given character. -/
def expect (c : Char) : Reader Unit := do
  if (← next) ≠ .char c then failure

/-- Reads a given word. -/
def word (w : String) : Reader Unit := w.toList.forM expect

/-- The number of characters left. -/
def remaining : Reader Nat := List.length <$> get

end Reader

open Reader

/-! ## Strings -/

/-- A part of a string: a character, or a number written behind `\u`. -/
inductive Part where
  | glyph (g : Glyph)
  | unit (n : Nat)

/-- The value of a hexadecimal digit. -/
def hexValue? : Glyph → Option Nat
  | .char c =>
    if '0' ≤ c && c ≤ '9' then some (c.toNat - 0x30)
    else if 'a' ≤ c && c ≤ 'f' then some (c.toNat - 0x57)
    else if 'A' ≤ c && c ≤ 'F' then some (c.toNat - 0x37)
    else none
  | .stray _ => none

/-- The character that a letter behind a backslash stands for. -/
def unescaped? : Glyph → Option Char
  | .char '"' => some '"'
  | .char '\\' => some '\\'
  | .char '/' => some '/'
  | .char 'b' => some (Char.ofNat 0x08)
  | .char 'f' => some (Char.ofNat 0x0C)
  | .char 'n' => some '\n'
  | .char 'r' => some '\r'
  | .char 't' => some '\t'
  | _ => none

/-- Whether a character may stand in a string as it is. -/
def isPlain : Glyph → Bool
  | .char c => 0x20 ≤ c.toNat
  | .stray _ => true

/-- The parts of a string up to the closing quote, and what follows it. -/
def partsUpTo : List Glyph → Option (List Part × List Glyph)
  | [] => none
  | .char '"' :: rest => some ([], rest)
  | .char '\\' :: .char 'u' :: a :: b :: c :: d :: rest => do
    let n := ((← hexValue? a) * 16 + (← hexValue? b)) * 256 + (← hexValue? c) * 16 + (← hexValue? d)
    let (parts, behind) ← partsUpTo rest
    return (.unit n :: parts, behind)
  | .char '\\' :: e :: rest => do
    let c ← unescaped? e
    let (parts, behind) ← partsUpTo rest
    return (.glyph (.char c) :: parts, behind)
  | g :: rest =>
    if isPlain g then do
      let (parts, behind) ← partsUpTo rest
      return (.glyph g :: parts, behind)
    else none

/-- The character that stands for what cannot be read. -/
def replacement : Char := Char.ofNat 0xFFFD

/-- The first half of a surrogate pair. -/
def isHigh (n : Nat) : Bool := 0xD800 ≤ n && n < 0xDC00

/-- The second half of a surrogate pair. -/
def isLow (n : Nat) : Bool := 0xDC00 ≤ n && n < 0xE000

/-- The character with a number that is no half of a pair. -/
def unitChar (n : Nat) : Char := if isHigh n || isLow n then replacement else Char.ofNat n

/-- The text of the parts of a string. -/
def textOf : List Part → Text
  | [] => []
  | .glyph (.stray _) :: rest => String.utf8EncodeChar replacement ++ textOf rest
  | .glyph g :: rest => g.encode ++ textOf rest
  | [.unit n] => String.utf8EncodeChar (unitChar n)
  | .unit n :: .unit m :: rest =>
    if isHigh n && isLow m then
      String.utf8EncodeChar (Char.ofNat (0x10000 + (n - 0xD800) * 0x400 + (m - 0xDC00))) ++ textOf rest
    else String.utf8EncodeChar (unitChar n) ++ textOf (.unit m :: rest)
  | .unit n :: .glyph g :: rest => String.utf8EncodeChar (unitChar n) ++ textOf (.glyph g :: rest)

/-- Reads a string with its quotes. -/
def string? : Reader Text := do
  expect '"'
  textOf <$> (partsUpTo : Reader (List Part))

/-! ## Numbers -/

/-- A decimal digit. -/
def isDigit : Glyph → Bool
  | .char c => '0' ≤ c && c ≤ '9'
  | .stray _ => false

/-- Reads at least one digit. -/
def digits : Reader Text := fun gs =>
  let read := gs.takeWhile isDigit
  if read.isEmpty then none else some (Text.ofGlyphs read, gs.dropWhile isDigit)

/-- Reads one of some characters if it comes next. -/
def accept (cs : List Char) : Reader Text := fun
  | .char c :: rest =>
    if cs.contains c then some (String.utf8EncodeChar c, rest) else some ([], .char c :: rest)
  | gs => some ([], gs)

/-- Reads the digits before the point: a zero alone, or digits that do not start with one. -/
def whole : Reader Text := do
  let zero ← accept ['0']
  if zero.isEmpty then digits else return zero

/-- Reads the point and the digits behind it, if a point comes next. -/
def fraction : Reader Text := do
  let point ← accept ['.']
  if point.isEmpty then return [] else return point ++ (← digits)

/-- Reads the exponent, if one comes next. -/
def exponent : Reader Text := do
  let mark ← accept ['e', 'E']
  if mark.isEmpty then return []
  let sign ← accept ['+', '-']
  return mark ++ sign ++ (← digits)

/-- Reads a number. -/
def number? : Reader Text := do
  return (← accept ['-']) ++ (← whole) ++ (← fraction) ++ (← exponent)

/-! ## Values -/

/-- Reads items with commas between them up to a closing character, at most `n` of them, behind those
already read (latest first). -/
def itemsFrom {α : Type} (item : Reader α) (close : Char) : Nat → List α → Reader (List α)
  | 0, _ => failure
  | n + 1, read => do
    let a ← item
    skipSpace
    let separator ← next
    if separator = .char ',' then itemsFrom item close n (a :: read)
    else if separator = .char close then return (a :: read).reverse
    else failure

/-- Reads items behind an opening character. -/
def items {α : Type} (item : Reader α) (close : Char) : Reader (List α) := do
  skipSpace
  if (← peek) = .char close then
    let _ ← next
    return []
  itemsFrom item close (← remaining) []

/-- Reads a member of an object. -/
def member (datum : Reader Datum) : Reader (Text × Datum) := do
  skipSpace
  let key ← string?
  skipSpace
  expect ':'
  return (key, ← datum)

/-- Reads a value that is not nested. -/
def scalar (first : Glyph) : Reader Datum := do
  match first with
  | .char '"' => return .text (← string?)
  | .char 't' => word "true"; return .truth true
  | .char 'f' => word "false"; return .truth false
  | .char 'n' => word "null"; return .null
  | _ => return .number (← number?)

/-- Reads a value with at most `n` arrays and objects around each other. -/
def datumAt : Nat → Reader Datum
  | 0 => do
    skipSpace
    scalar (← peek)
  | n + 1 => do
    skipSpace
    let first ← peek
    if first = .char '[' then
      let _ ← next
      return .array (← items (datumAt n) ']')
    else if first = .char '\x7b' then
      let _ ← next
      return .object (← items (member (datumAt n)) '\x7d')
    else scalar first

/-- The first value of a text. -/
def read? (t : Text) : Option Datum := (datumAt maxNesting t.glyphs).map Prod.fst

end YouthLang.Json

import YouthLang.Token.Scan
import YouthLang.Text.Framed

/-!
# Token/Scanner — reading a source byte by byte

A scanner keeps the number of the byte that it reads next, of the one that its token starts at, and of
the one that its line starts at; the places of tokens and mistakes are counted from these when they are
noted down.  Behind the last byte it sees a NUL, which a source may hold as well.

Reading or cutting behind the last byte has no result (`none`), and a loop with a step that reads
nothing, which could go on for ever, has none either.  Neither happens: a scanner comes to the end of
every source, with the tokens and the mistakes of its pieces (`Scanner.scanTokens_eq_scan`).
-/

namespace YouthLang

/-- Where a scanner is in a source, and what it has found. -/
structure Scanner where
  source : Array UInt8
  /-- The file that the source is read from, empty if there is none. -/
  file : Text := []
  tokens : Array Token := #[]
  errors : Array Diagnostic := #[]
  /-- The first byte of the token that is being read. -/
  start : Nat := 0
  /-- The next byte. -/
  current : Nat := 0
  line : Nat := 1
  /-- The first byte of the line. -/
  lineStart : Nat := 0

namespace Scanner

/-- A scanner in front of a source. -/
def ofSource (file source : Text) : Scanner := { source := source.toArray, file := file }

/-- A byte that a name may start with. -/
def isLetter (b : UInt8) : Bool := (0x61 ≤ b && b ≤ 0x7A) || (0x41 ≤ b && b ≤ 0x5A) || b = 0x5F

/-- A byte that a name may go on with. -/
def isWord (b : UInt8) : Bool := isLetter b || Text.isDecimal b

/-- A byte taken for a character. -/
def letter (b : UInt8) : Glyph := .char (Char.ofNat b.toNat)

/-- The byte between the whole digits of a numeral and the others. -/
def point : UInt8 := 0x2E

variable (s : Scanner)

/-! ## Bytes -/

def isAtEnd : Bool := s.source.size ≤ s.current

/-- The next byte, a NUL if there is none. -/
def peek : UInt8 := s.source.getD s.current 0

/-- The byte behind the next one, a NUL if there is none. -/
def peekNext : UInt8 := s.source.getD (s.current + 1) 0

/-- The next byte, and the scanner behind it. -/
def advance : Option (UInt8 × Scanner) := do
  let b ← s.source[s.current]?
  return (b, { s with current := s.current + 1 })

/-- The scanner behind the next byte. -/
def skip : Option Scanner := s.advance.map Prod.snd

/-- The scanner behind a byte if that is the next one. -/
def takes? (b : UInt8) : Option Scanner :=
  if s.isAtEnd || s.peek ≠ b then none else some { s with current := s.current + 1 }

/-- The bytes from one up to another. -/
def slice (first last : Nat) : Option Text :=
  if first ≤ last && last ≤ s.source.size then some (s.source.extract first last).toList else none

/-- How many bytes are still to be read. -/
def left : Nat := s.source.size - s.current

/-- Steps for as long as a test holds, each reading some bytes. -/
def loop (test : Scanner → Bool) (step : Scanner → Option Scanner) (s : Scanner) : Option Scanner :=
  if test s then do
    let next ← step s
    if next.left < s.left then loop test step next else none
  else some s
termination_by s.left

/-! ## Places -/

/-- The column of a byte of the line: characters are counted, not bytes. -/
def column (offset : Nat) : Option Nat :=
  if offset < s.lineStart then some 1
  else do
    let front ← s.slice s.lineStart offset
    return front.glyphs.length + 1

/-- A line starts at the next byte. -/
def newline : Scanner := { s with line := s.line + 1, lineStart := s.current }

/-- The bytes of the token, noted down as a token of a kind. -/
def addToken (kind : TokenKind) : Option Scanner := do
  let lexeme ← s.slice s.start s.current
  let column ← s.column s.start
  return { s with tokens := s.tokens.push ⟨kind, lexeme, ⟨s.line, column⟩⟩ }

/-- A mistake, noted down at a byte of the line. -/
def error (cause : LexicalCause) (offset : Nat) : Option Scanner := do
  let column ← s.column offset
  let found : Diagnostic := { cause := .lexical cause, line := s.line, column := column }
  return { s with errors := s.errors.push (found.placed s.file) }

/-! ## Tokens -/

/-- A keyword or a name behind its first letter, or a comment up to the end of its line. -/
def identifier : Option Scanner := do
  let s ← s.loop (fun s => isWord s.peek) skip
  let text ← s.slice s.start s.current
  if text = commentWord then s.loop (fun s => s.peek ≠ Text.newline && !s.isAtEnd) skip
  else s.addToken ((keywords.lookup text).getD .identifier)

/-- The scanner behind some digits. -/
def digits : Option Scanner := s.loop (fun s => Text.isDecimal s.peek) skip

/-- The scanner behind a point and some digits, if that is what comes next. -/
def places : Option Scanner :=
  if s.peek = point && Text.isDecimal s.peekNext then s.skip.bind digits else some s

/-- The number that a numeral stands for: digits, or digits, a point and digits. -/
def numberOf? (text : Text) : Option Float :=
  Number.ofNumeral? (text.takeWhile Text.isDecimal) ((text.dropWhile Text.isDecimal).drop 1)

/-- A numeral behind its first digit. -/
def number : Option Scanner := do
  let s ← s.digits
  let s ← s.places
  let text ← s.slice s.start s.current
  match numberOf? text with
  | some value => s.addToken (.number value)
  | none => s.error (.unrepresentable text) s.start

/-- The next byte, with a new line behind it if it ends one. -/
def skipInString : Option Scanner := do
  let (b, s) ← s.advance
  return if b = Text.newline then s.newline else s

/-- A string behind its opening quote, on however many lines.  Its place is told before the lines in it
are counted. -/
def string : Option Scanner := do
  let line := s.line
  let column ← s.column s.start
  let s ← s.loop (fun s => s.peek ≠ Text.quote && !s.isAtEnd) skipInString
  if s.isAtEnd then s.error .unterminatedString s.current
  else do
    let s ← s.skip
    let value ← s.slice (s.start + 1) (s.current - 1)
    let lexeme ← s.slice s.start s.current
    return { s with tokens := s.tokens.push ⟨.string value, lexeme, ⟨line, column⟩⟩ }

/-- A character that starts no token, with all its bytes; no character has more than four. -/
def unexpected : Option Scanner := do
  let front ← s.slice s.start (min (s.start + 4) s.source.size)
  match front with
  | [] => error { s with current := s.start } (.unexpected (Char.ofNat 0xFFFD)) s.start
  | a :: rest =>
    let (g, more) := Glyph.front a rest
    let s := { s with current := s.start + (1 + more) }
    match g with
    | .stray _ => s.error .malformedEncoding s.start
    | .char c => s.error (.unexpected c) s.start

/-- The token, the gap or the mistake that starts with the next byte. -/
def scanToken : Option Scanner := do
  let (b, s) ← s.advance
  match Content.symbol? (letter b), Content.comparison? (letter b) with
  | some kind, _ => s.addToken kind
  | none, some (alone, withEqual) =>
    match s.takes? 0x3D with
    | some s => s.addToken withEqual
    | none => s.addToken alone
  | none, none =>
    if b = Text.quote then s.string
    else if b = Text.newline then some s.newline
    else if (letter b).isSpace then some s
    else if Text.isDecimal b then s.number
    else if isLetter b then s.identifier
    else s.unexpected

/-- What is read next starts here. -/
def scanNext : Option Scanner := scanToken { s with start := s.current }

/-- The scanner behind the `#!` line that a source may start with. -/
def skipHashBang : Option Scanner :=
  if s.current = 0 && 2 ≤ s.source.size && s.source[0]? = some 0x23 && s.source[1]? = some 0x21 then
    s.loop (fun s => !s.isAtEnd && s.peek ≠ Text.newline) skip
  else some s

/-- The tokens of the whole source, and one that marks its end. -/
def scanTokens : Option Scanner := do
  let s ← s.skipHashBang
  let s ← s.loop (fun s => !s.isAtEnd) scanNext
  let column ← s.column s.current
  return { s with tokens := s.tokens.push ⟨.endOfSource, [], ⟨s.line, column⟩⟩ }

end Scanner

end YouthLang

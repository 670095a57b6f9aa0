import YouthLang.Yaml.Source

/-!
# Yaml/Cursor — walking over the characters

A cursor stands before a character and knows its line and column.  Characters become known part by part,
so a walk asks for as many of them as it is about to look at.  Behind the last character stands the end
mark, as often as one looks.
-/

namespace YouthLang.Yaml

/-! ## Kinds of characters -/

/-- What stands behind the last character. -/
def endMark : Char := Char.ofNat 0

/-- A character that ends a line. -/
def isLineEnd (c : Char) : Bool :=
  c = '\n' || c = '\r' || c.toNat = 0x85 || c.toNat = 0x2028 || c.toNat = 0x2029

def isBlank (c : Char) : Bool := c = ' ' || c = '\t'

/-- Whether a line is over at a character. -/
def isLineOver (c : Char) : Bool := isLineEnd c || c = endMark

/-- Whether a word is over at a character. -/
def isWordOver (c : Char) : Bool := isBlank c || isLineOver c

/-- A character of a name. -/
def isNameChar (c : Char) : Bool := c.isAlphanum || c = '_' || c = '-'

/-- The bytes of characters. -/
def encoded (cs : Array Char) : Text := cs.toList.flatMap String.utf8EncodeChar

/-! ## The cursor -/

/-- A place in a file; all three numbers count from zero. -/
structure Place where
  index : Nat := 0
  line : Nat := 0
  column : Nat := 0
deriving DecidableEq, Repr

/-- A place before a character, and what is known of the file. -/
structure Cursor where
  source : Source
  place : Place := {}
  /-- How many characters are known. -/
  known : Nat := 0
  /-- Where the cursor was when the last part became known. -/
  base : Nat := 0
  /-- The line ends behind the last character that was no blank. -/
  lineEnds : Nat := 0

/-- Steps of a cursor that may fail. -/
abbrev Walk := StateT Cursor (Except Failure)

namespace Cursor

/-- The character some places ahead. -/
def ahead (c : Cursor) (n : Nat) : Char := c.source.chars.getD (c.place.index + n) endMark

/-- The character that the cursor stands before. -/
def current (c : Cursor) : Char := c.ahead 0

/-- More steps than there are characters left. -/
def steps (c : Cursor) : Nat := c.source.chars.size + 1 - c.place.index

/-- How many characters are known once `wanted` of them are, and the parts that stay unread. -/
def knownWith (wanted : Nat) : Nat → List Nat → Nat × List Nat
  | known, [] => (known, [])
  | known, n :: rest => if wanted ≤ known then (known, n :: rest) else knownWith wanted n rest

/-- The cursor with the next `n` characters known, as far as there are so many. -/
def knowing (c : Cursor) (n : Nat) : Except Failure Cursor :=
  let wanted := c.place.index + n
  if wanted ≤ c.known then .ok c
  else
    let (known, parts) := knownWith wanted c.known c.source.parts
    if wanted ≤ known then
      .ok { c with source.parts := parts, known := known, base := c.place.index }
    else match c.source.fault with
      | some cause => .error (.encoding cause)
      | none => .ok { c with source.parts := parts, known := known + 1, base := c.place.index }

/-- The cursor behind one character. -/
def next (c : Cursor) : Cursor :=
  { c with
    place := ⟨c.place.index + 1, c.place.line, c.place.column + 1⟩
    lineEnds := if isBlank c.current then c.lineEnds else 0 }

/-- The number of characters that end the line here. -/
def lineEndWidth (c : Cursor) : Nat :=
  if c.current = '\r' && c.ahead 1 = '\n' then 2 else if isLineEnd c.current then 1 else 0

/-- The cursor at the start of the next line, if it stands before a line end. -/
def nextLine (c : Cursor) : Cursor :=
  match c.lineEndWidth with
  | 0 => c
  | width =>
    { c with place := ⟨c.place.index + width, c.place.line + 1, 0⟩, lineEnds := c.lineEnds + 1 }

/-- What a line end stands for in a value: the rarer ones stand for themselves. -/
def lineEndValue (c : Cursor) : Array Char :=
  if c.current.toNat = 0x2028 || c.current.toNat = 0x2029 then #[c.current]
  else if isLineEnd c.current then #['\n']
  else #[]

/-- Whether a document starts or ends here: three dashes or points at the start of a line. -/
def isAtMarker (c : Cursor) : Bool :=
  c.place.column = 0 && (c.current = '-' || c.current = '.') && c.ahead 1 = c.current
    && c.ahead 2 = c.current && isWordOver (c.ahead 3)

end Cursor

namespace Walk

/-- Makes the next `n` characters known. -/
def know (n : Nat) : Walk Unit := do set (← (← get).knowing n)

/-- The character `n` places ahead. -/
def ahead (n : Nat) : Walk Char := do return (← get).ahead n

def current : Walk Char := do return (← get).current

def place : Walk Place := do return (← get).place

def skip : Walk Unit := modify Cursor.next

def skipLine : Walk Unit := modify Cursor.nextLine

/-- Goes over a line end; gives what it stands for. -/
def readLineEnd : Walk (Array Char) := do
  let c ← get
  set { c.nextLine with lineEnds := c.lineEnds + 1 }
  return c.lineEndValue

/-- Fails on account of a token that starts on a line. -/
def fail {α : Type} (start : Nat) (cause : TokenCause) : Walk α := do
  throw (.token start (← get).place.line cause)

/-- The characters from here on that satisfy a condition, put behind others; `steps` bounds their
number. -/
def takeFrom (p : Char → Bool) : Nat → Array Char → Walk (Array Char)
  | 0, taken => pure taken
  | steps + 1, taken => do
    know 1
    let c ← current
    if p c then
      skip
      takeFrom p steps (taken.push c)
    else return taken

/-- Goes over the characters that satisfy a condition; gives them. -/
def takeWhile (p : Char → Bool) : Walk (Array Char) := do takeFrom p (← get).steps #[]

/-- Goes over the characters that satisfy a condition. -/
def skipWhile (p : Char → Bool) : Walk Unit := discard (takeWhile p)

/-- Goes on to the end of the line. -/
def skipToLineEnd : Walk Unit := skipWhile fun c => !isLineOver c

end Walk

end YouthLang.Yaml

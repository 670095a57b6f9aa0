import YouthLang.Yaml.Cursor
import YouthLang.Yaml.Token

/-!
# Yaml/Token/Scalar — values as they are written

A scalar is plain, between quotes or a block of lines.  Plain and quoted scalars fold their lines: a
single line end stands for a space, and of several the first one is dropped.
-/

namespace YouthLang.Yaml

open Walk

/-! ## Gaps between words -/

/-- Blanks and line ends between two words. -/
structure Gap where
  blanks : Array Char := #[]
  first : Array Char := #[]
  further : Array Char := #[]
  isBroken : Bool := false

namespace Gap

/-- The gap with one more line end. -/
def withLineEnd (g : Gap) (lineEnd : Array Char) : Gap :=
  if g.isBroken then { g with further := g.further ++ lineEnd }
  else { g with blanks := #[], first := lineEnd, isBroken := true }

/-- What a gap stands for. -/
def value (g : Gap) : Array Char :=
  if !g.isBroken then g.blanks
  else if g.first = #['\n'] then if g.further.isEmpty then #[' '] else g.further
  else g.first ++ g.further

/-- The rest of a gap; `check` looks at the blanks that start a line. -/
def takeFrom (check : Walk Unit) : Nat → Gap → Walk Gap
  | 0, g => pure g
  | steps + 1, g => do
    know 1
    let c ← current
    if isBlank c then
      if g.isBroken then
        check
        skip
        takeFrom check steps g
      else
        skip
        takeFrom check steps { g with blanks := g.blanks.push c }
    else if isLineEnd c then
      know 2
      takeFrom check steps (g.withLineEnd (← readLineEnd))
    else return g

end Gap

/-! ## Plain scalars -/

/-- Whether a plain scalar ends at a character before another. -/
def endsPlain (inFlow : Bool) (c next : Char) : Bool :=
  isWordOver c || (c = ':' && isWordOver next)
    || (inFlow && (c = ',' || c = '?' || c = '[' || c = ']' || c = '\x7b' || c = '\x7d'))

/-- A word of a plain scalar. -/
def plainWord (inFlow : Bool) : Nat → Array Char → Walk (Array Char)
  | 0, word => pure word
  | steps + 1, word => do
    let c ← current
    if endsPlain inFlow c (← ahead 1) then return word
    else
      skip
      know 2
      plainWord inFlow steps (word.push c)

/-- Refuses a tab before the column where a scalar may go on. -/
def refuseTab (start : Nat) (indent : Int) : Walk Unit := do
  let c ← get
  if c.place.column < indent && c.current = '\t' then fail start .plainTab

/-- The words of a plain scalar behind those already read, and whether a line end comes behind them.
Lines must be `indent` columns in, unless brackets are open. -/
def plainWords (start : Nat) (indent : Int) (inFlow : Bool) :
    Nat → Array Char → Gap → Walk (Array Char × Bool)
  | 0, words, gap => pure (words, gap.isBroken)
  | steps + 1, words, gap => do
    know 4
    let c ← get
    if c.isAtMarker || c.current = '#' then return (words, gap.isBroken)
    let word ← plainWord inFlow c.steps #[]
    if word.isEmpty then return (words, gap.isBroken)
    let words := words ++ gap.value ++ word
    let c ← get
    if !(isBlank c.current || isLineEnd c.current) then return (words, false)
    let gap ← Gap.takeFrom (refuseTab start indent) c.steps {}
    if !inFlow && (← place).column < indent then return (words, gap.isBroken)
    plainWords start indent inFlow steps words gap

/-- A plain scalar, and whether a line end comes behind it. -/
def plainScalar (indent : Int) (inFlow : Bool) : Walk (Text × Bool) := do
  let c ← get
  let (value, isBroken) ← plainWords c.place.line indent inFlow c.steps #[] {}
  return (encoded value, isBroken)

/-! ## Quoted scalars -/

/-- The quote that stands twice for one inside. -/
def apostrophe : Char := Char.ofNat 0x27

/-- The characters that letters stand for behind a backslash. -/
def escapes : List (Char × Nat) :=
  [('0', 0x00), ('a', 0x07), ('b', 0x08), ('t', 0x09), ('\t', 0x09), ('n', 0x0A), ('v', 0x0B),
    ('f', 0x0C), ('r', 0x0D), ('e', 0x1B), (' ', 0x20), ('"', 0x22), (apostrophe, 0x27), ('\\', 0x5C),
    ('N', 0x85), ('_', 0xA0), ('L', 0x2028), ('P', 0x2029)]

/-- The number of digits behind letters that announce a character by its number. -/
def escapeWidths : List (Char × Nat) := [('x', 2), ('u', 4), ('U', 8)]

/-- The value of a hexadecimal digit. -/
def hexValue? (c : Char) : Option Nat :=
  if '0' ≤ c && c ≤ '9' then some (c.toNat - 0x30)
  else if 'a' ≤ c && c ≤ 'f' then some (c.toNat - 0x57)
  else if 'A' ≤ c && c ≤ 'F' then some (c.toNat - 0x37)
  else none

/-- The number that the next digits stand for. -/
def hexNumber? (c : Cursor) (width : Nat) : Option Nat :=
  (List.range width).foldlM (fun n i => (hexValue? (c.ahead i)).map (16 * n + ·)) 0

/-- The character that a backslash and what is behind it stand for. -/
def escape (start : Nat) : Walk Char := do
  let letter ← ahead 1
  match escapes.lookup letter, escapeWidths.lookup letter with
  | some n, _ =>
    skip
    skip
    return Char.ofNat n
  | none, some width =>
    skip
    skip
    know width
    match hexNumber? (← get) width with
    | none => fail start .hexDigit
    | some n =>
      if (0xD800 ≤ n && n ≤ 0xDFFF) || 0x10FFFF < n then fail start .escapeCode
      for _ in List.range width do skip
      return Char.ofNat n
  | none, none => fail start .unknownEscape

/-- A word between quotes, and whether an escaped line end comes behind it. -/
def quotedWord (start : Nat) (quote : Char) : Nat → Array Char → Walk (Array Char × Bool)
  | 0, word => pure (word, false)
  | steps + 1, word => do
    let c ← current
    let next ← ahead 1
    if isWordOver c then return (word, false)
    else if quote = apostrophe && c = quote && next = quote then
      skip
      skip
      know 2
      quotedWord start quote steps (word.push c)
    else if c = quote then return (word, false)
    else if quote = '"' && c = '\\' && isLineEnd next then
      know 3
      skip
      skipLine
      return (word, true)
    else if quote = '"' && c = '\\' then
      let c ← escape start
      know 2
      quotedWord start quote steps (word.push c)
    else
      skip
      know 2
      quotedWord start quote steps (word.push c)

/-- The words of a quoted scalar behind those already read, up to the quote that ends it. -/
def quotedWords (start : Nat) (quote : Char) : Nat → Array Char → Walk (Array Char)
  | 0, words => pure words
  | steps + 1, words => do
    know 4
    let c ← get
    if c.isAtMarker then fail start .documentMarker
    if c.current = endMark then fail start .quoteEnd
    let (word, isBroken) ← quotedWord start quote c.steps #[]
    let words := words ++ word
    know 1
    let c ← get
    if c.current = quote then return words
    let gap ← Gap.takeFrom (pure ()) c.steps { isBroken := isBroken }
    quotedWords start quote steps (words ++ gap.value)

/-- A scalar between quotes. -/
def quotedScalar (quote : Char) : Walk Text := do
  let c ← get
  skip
  let value ← quotedWords c.place.line quote c.steps #[]
  skip
  return encoded value

/-! ## Blocks of lines -/

/-- What becomes of the line ends behind the last line of a block. -/
inductive Chomping where
  | strip
  | clip
  | keep
deriving DecidableEq, Repr

/-- The sign for the line ends behind the last line, if one stands here. -/
def chomping? : Walk (Option Chomping) := do
  know 1
  match ← current with
  | '+' =>
    skip
    return some .keep
  | '-' =>
    skip
    return some .strip
  | _ => return none

/-- The digit for the indentation, if one stands here. -/
def increment? (start : Nat) : Walk (Option Nat) := do
  know 1
  let c ← current
  if c = '0' then fail start .zeroIndent
  if c.isDigit then
    skip
    return some (c.toNat - 0x30)
  else return none

/-- The signs behind the one that opens a block, in either order. -/
def blockHeader (start : Nat) : Walk (Chomping × Option Nat) := do
  match ← chomping? with
  | some chomping => return (chomping, ← increment? start)
  | none =>
    match ← increment? start with
    | none => return (.clip, none)
    | some n => return ((← chomping?).getD .clip, some n)

/-- The indentation of a block, or the widest one seen while that is not known. -/
inductive Margin where
  | fixed (column : Nat)
  | seen (column : Nat)

/-- Whether a column is in the margin. -/
def Margin.isBefore (column : Nat) : Margin → Bool
  | .fixed n => column < n
  | .seen _ => true

/-- The margin with a column seen. -/
def Margin.widen (column : Nat) : Margin → Margin
  | .fixed n => .fixed n
  | .seen n => .seen (max n column)

/-- Goes over the spaces of a margin. -/
def skipMargin (m : Margin) : Nat → Walk Unit
  | 0 => pure ()
  | steps + 1 => do
    know 1
    let c ← get
    if m.isBefore c.place.column && c.current = ' ' then
      skip
      skipMargin m steps

/-- The empty lines of a block from here on, behind others. -/
def emptyLines (start : Nat) : Nat → Margin → Array Char → Walk (Margin × Array Char)
  | 0, m, lineEnds => pure (m, lineEnds)
  | steps + 1, m, lineEnds => do
    skipMargin m (← get).steps
    let c ← get
    if m.isBefore c.place.column && c.current = '\t' then fail start .blockTab
    let m := m.widen c.place.column
    if isLineEnd c.current then
      know 2
      emptyLines start steps m (lineEnds ++ (← readLineEnd))
    else return (m, lineEnds)

/-- What a block holds so far. -/
structure Lines where
  value : Array Char := #[]
  /-- The line end behind the last line. -/
  lineEnd : Array Char := #[]
  /-- The empty lines behind that. -/
  empty : Array Char := #[]
  /-- Whether the last line started with a blank. -/
  isIndented : Bool := false

/-- What stands before the next line of a block; lines that start with blanks are not folded. -/
def Lines.joint (l : Lines) (isFolded isIndented : Bool) : Array Char :=
  if isFolded && !l.isIndented && !isIndented && l.lineEnd = #['\n'] then
    (if l.empty.isEmpty then #[' '] else #[]) ++ l.empty
  else l.lineEnd ++ l.empty

/-- The lines of a block behind those already read. -/
def blockLines (start : Nat) (isFolded : Bool) (column : Nat) : Nat → Lines → Walk Lines
  | 0, l => pure l
  | steps + 1, l => do
    let c ← get
    if c.place.column ≠ column || c.current = endMark then return l
    let isIndented := isBlank c.current
    let text ← takeWhile fun c => !isLineOver c
    know 2
    let lineEnd ← readLineEnd
    let (_, empty) ← emptyLines start (← get).steps (.fixed column) #[]
    blockLines start isFolded column steps
      ⟨l.value ++ l.joint isFolded isIndented ++ text, lineEnd, empty, isIndented⟩

/-- A block of lines inside a block that is `indent` columns in. -/
def blockScalar (indent : Int) (isFolded : Bool) : Walk Text := do
  let start := (← place).line
  skip
  let (chomping, increment) ← blockHeader start
  skipWhile isBlank
  if (← current) = '#' then skipToLineEnd
  if !isLineOver (← current) then fail start .blockHeaderEnd
  if isLineEnd (← current) then
    know 2
    skipLine
  let margin := match increment with
    | some n => .fixed ((max indent 0).toNat + n)
    | none => .seen 0
  let (margin, empty) ← emptyLines start (← get).steps margin #[]
  let column := match margin with
    | .fixed n => n
    | .seen n => max n (max (indent + 1).toNat 1)
  know 1
  let l ← blockLines start isFolded column (← get).steps { empty := empty }
  return encoded (l.value
    ++ (if chomping = .strip then #[] else l.lineEnd)
    ++ (if chomping = .keep then l.empty else #[]))

end YouthLang.Yaml

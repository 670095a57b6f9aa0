import YouthLang.Yaml.Token.Name

/-!
# Yaml/Token/Scan — from characters to tokens

Most tokens are told by their first characters.  Two things are not.  The indentation of a line opens
and closes blocks.  And a scalar turns out to be a key only at the colon behind it, so the tokens of a
key are put in front of it later: a token is handed out only when it can no longer become a key, or when
two more are behind it.
-/

namespace YouthLang.Yaml

open Walk

/-- A place where a key may start. -/
structure KeyPlace where
  isPossible : Bool := false
  /-- Whether nothing but a key may start there. -/
  isRequired : Bool := false
  /-- The number of the token that starts there. -/
  number : Nat := 0
  place : Place := {}

/-- What is known between two tokens. -/
structure Scanner where
  cursor : Cursor
  hasStarted : Bool := false
  /-- How many brackets and braces are open. -/
  flowLevel : Nat := 0
  /-- The column of the innermost block, and the columns of those around it. -/
  indent : Int := -1
  indents : Array Int := #[]
  /-- Whether a key may start here. -/
  isKeyAllowed : Bool := false
  /-- The last place of a key for each level of brackets, the outermost first. -/
  keys : Array KeyPlace := #[]
  /-- The level of the key that a token may be, by the token's number. -/
  levels : List (Nat × Nat) := []
  /-- The tokens that are read and not handed out. -/
  queue : List Token := []
  /-- How many tokens are handed out. -/
  handedOut : Nat := 0

/-- Steps of a scanner. -/
abbrev Scan := StateT Scanner (Except Failure)

namespace Scan

/-- A walk of the cursor as a step of the scanner. -/
def walk {α : Type} (w : Walk α) : Scan α := do
  let s ← get
  let (a, cursor) ← w.run s.cursor
  set { s with cursor := cursor }
  return a

def here : Scan Place := do return (← get).cursor.place

def isInFlow : Scan Bool := do return 0 < (← get).flowLevel

def allowKey (isAllowed : Bool) : Scan Unit := modify ({ · with isKeyAllowed := isAllowed })

def fail {α : Type} (start : Nat) (cause : TokenCause) : Scan α := walk (Walk.fail start cause)

/-- Fails on account of what stands here. -/
def failHere {α : Type} (cause : TokenCause) : Scan α := do fail (← here).line cause

/-! ## The queue -/

/-- The number that the next token will have. -/
def nextNumber : Scan Nat := do
  let s ← get
  return s.handedOut + s.queue.length

/-- Puts a token behind the others. -/
def push (t : Token) : Scan Unit := modify fun s => { s with queue := s.queue ++ [t] }

/-- Puts a token in front of the one with a number. -/
def insertAt (number : Nat) (t : Token) : Scan Unit :=
  modify fun s => { s with queue := s.queue.insertIdx (number - s.handedOut) t }

/-! ## Keys -/

/-- Forgets that a token may be a key. -/
def forgetLevel (number : Nat) : Scan Unit :=
  modify fun s => { s with levels := s.levels.filter (·.1 ≠ number) }

/-- Changes the innermost place of a key. -/
def setKey (key : KeyPlace) : Scan Unit :=
  modify fun s => { s with keys := s.keys.setIfInBounds (s.keys.size - 1) key }

/-- The innermost place of a key. -/
def lastKey : Scan KeyPlace := do return (← get).keys.back?.getD {}

/-- Whether a key may still start at a place: it must lie in one line and not be too long. -/
def isStillKey (level : Nat) : Scan Bool := do
  let s ← get
  let key := s.keys.getD level {}
  if !key.isPossible then return false
  let now := s.cursor.place
  if key.place.line < now.line || key.place.index + 1024 < now.index then
    if key.isRequired then fail key.place.line .colonExpected
    set { s with keys := s.keys.setIfInBounds level { key with isPossible := false } }
    return false
  return true

/-- Gives up the innermost place of a key. -/
def dropKey : Scan Unit := do
  let key ← lastKey
  if key.isPossible then
    if key.isRequired then fail key.place.line .colonExpected
    setKey { key with isPossible := false }
    forgetLevel key.number

/-- Notes that a key may start here. -/
def noteKey : Scan Unit := do
  let s ← get
  if s.isKeyAllowed then
    let place := s.cursor.place
    let key : KeyPlace :=
      ⟨true, s.flowLevel = 0 && s.indent = place.column, ← nextNumber, place⟩
    dropKey
    setKey key
    modify fun s => { s with
      levels := (key.number, s.keys.size - 1)
        :: s.levels.filter fun (number, _) => number ≠ key.number && s.handedOut ≤ number }

/-! ## Levels -/

/-- Opens a bracket. -/
def openFlow : Scan Unit := do
  let number ← nextNumber
  modify fun s => { s with
    keys := s.keys.push { number := number, place := s.cursor.place }
    flowLevel := s.flowLevel + 1 }
  if maxDepth < (← get).flowLevel then failHere .tooDeep

/-- Closes a bracket, if one is open. -/
def closeFlow : Scan Unit := do
  if 0 < (← get).flowLevel then
    forgetLevel (← lastKey).number
    modify fun s => { s with keys := s.keys.pop, flowLevel := s.flowLevel - 1 }

/-- Opens a block if a column lies further in than the innermost block.  Its token comes in front of
the one with the given number, or last. -/
def openBlock (place : Place) (number : Option Nat) (sign : Sign) : Scan Unit := do
  let s ← get
  if s.flowLevel = 0 && s.indent < place.column then
    set { s with indents := s.indents.push s.indent, indent := place.column }
    if maxDepth < s.indents.size + 1 then fail (← lastKey).place.line .tooDeep
    match number with
    | some n => insertAt n ⟨place.line, sign⟩
    | none => push ⟨place.line, sign⟩

/-- The tokens that close all blocks further in than a column, and what is open then. -/
def closings (column : Int) (t : Token) : Nat → Int → Array Int → List Token → Int × Array Int × List Token
  | 0, indent, indents, tokens => (indent, indents, tokens)
  | n + 1, indent, indents, tokens =>
    if column < indent then closings column t n (indents.back?.getD (-1)) indents.pop (t :: tokens)
    else (indent, indents, tokens)

/-- Closes all blocks further in than a column; the tokens are said to stand on a line. -/
def closeBlocks (column : Int) (line : Nat) : Scan Unit :=
  modify fun s =>
    if 0 < s.flowLevel then s
    else
      let (indent, indents, tokens) :=
        closings column ⟨line, .blockEnd⟩ s.indents.size s.indent s.indents []
      { s with indent := indent, indents := indents, queue := s.queue ++ tokens }

/-! ## Between tokens -/

/-- How far ahead comments are looked for. -/
def commentReach : Nat := 512

/-- Where the next comment starts, if only blanks and line ends are before it. -/
def commentAhead? : Nat → Nat → Walk (Option Nat)
  | 0, _ => pure none
  | n + 1, offset => do
    know (offset + 1)
    let c ← ahead offset
    if c = '#' then return some offset
    else if isBlank c || c = '\n' || c = '\r' then commentAhead? n (offset + 1)
    else return none

/-- Goes over blanks and line ends to a place ahead. -/
def skipTo (index : Nat) : Nat → Walk Unit
  | 0 => pure ()
  | steps + 1 => do
    know 2
    let c ← get
    if c.place.index < index then
      if isLineEnd c.current then skipLine else skip
      skipTo index steps

/-- Goes over a comment and the comments on the lines behind it. -/
def skipComments : Nat → Walk Unit
  | 0 => pure ()
  | steps + 1 => do
    skipToLineEnd
    match ← commentAhead? (commentReach - 1) 1 with
    | none => pure ()
    | some offset =>
      let c ← get
      if c.current = '\n' || c.current = '\r' then
        skipTo (c.place.index + offset) c.steps
        skipComments steps

/-- Goes over a comment behind a token on the same line. -/
def skipLineComment : Walk Unit := do
  if (← get).lineEnds = 0 then
    match ← blanksAhead commentReach 0 with
    | none => pure ()
    | some _ =>
      skipWhile isBlank
      skipToLineEnd
where
  /-- Where the comment starts, if only blanks are before it. -/
  blanksAhead : Nat → Nat → Walk (Option Nat)
    | 0, _ => pure none
    | n + 1, offset => do
      know (offset + 1)
      let c ← ahead offset
      if c = '#' then return some offset
      else if isBlank c then blanksAhead n (offset + 1)
      else return none

/-- Goes over blanks, comments and line ends.  Tabs are no blanks where a key may start, and behind a
line end a key may start unless brackets are open. -/
def skipToToken : Nat → Scan Unit
  | 0 => pure ()
  | steps + 1 => do
    walk (know 1)
    let c := (← get).cursor
    if c.place.column = 0 && (c.source.chars.getD c.base endMark).toNat = 0xFEFF then walk skip
    let s ← get
    walk (skipWhile fun c => c = ' ' || (c = '\t' && (0 < s.flowLevel || !s.isKeyAllowed)))
    let c := (← get).cursor
    if c.current = '#' then walk (skipComments c.steps)
    if isLineEnd (← get).cursor.current then
      walk (do
        know 2
        skipLine)
      if s.flowLevel = 0 then allowKey true
      skipToToken steps

/-! ## Tokens -/

/-- Takes `width` characters as a token. -/
def takeSign (width : Nat) (sign : Sign) : Scan Unit := do
  let start := (← here).line
  walk (for _ in List.range width do skip)
  push ⟨start, sign⟩

/-- A token whose sign a walk finds. -/
def takeToken (w : Walk Sign) : Scan Unit := do
  let start := (← here).line
  push ⟨start, ← walk w⟩

/-- The end of the file closes everything. -/
def fileEnd : Scan Unit := do
  modify fun s =>
    let p := s.cursor.place
    if p.column = 0 then s else { s with cursor.place := ⟨p.index, p.line + 1, 0⟩ }
  closeBlocks (-1) (← here).line
  dropKey
  allowKey false
  takeSign 0 .fileEnd

/-- A directive or the mark at the start or the end of a document. -/
def outermost (w : Scan Unit) : Scan Unit := do
  closeBlocks (-1) (← here).line
  dropKey
  allowKey false
  w

def openingBracket (sign : Sign) : Scan Unit := do
  noteKey
  openFlow
  allowKey true
  takeSign 1 sign

def closingBracket (sign : Sign) : Scan Unit := do
  dropKey
  closeFlow
  allowKey false
  takeSign 1 sign

def comma : Scan Unit := do
  dropKey
  allowKey true
  takeSign 1 .comma

/-- Opens a block here if none is open, provided that a key may start here. -/
def openBlockHere (sign : Sign) (refusal : TokenCause) : Scan Unit := do
  let s ← get
  if s.flowLevel = 0 then
    if !s.isKeyAllowed then failHere refusal
    openBlock s.cursor.place none sign

def dash : Scan Unit := do
  openBlockHere .blockSequence .entryNotAllowed
  dropKey
  allowKey true
  takeSign 1 .dash

def questionMark : Scan Unit := do
  openBlockHere .blockMapping .keyNotAllowed
  dropKey
  allowKey (!(← isInFlow))
  takeSign 1 .key

/-- A colon makes a key of what started at the last place of a key. -/
def colon : Scan Unit := do
  if ← isStillKey ((← get).keys.size - 1) then
    let key ← lastKey
    insertAt key.number ⟨key.place.line, .key⟩
    openBlock key.place (some key.number) .blockMapping
    setKey { key with isPossible := false }
    forgetLevel key.number
    allowKey false
  else
    openBlockHere .blockMapping .valueNotAllowed
    allowKey (!(← isInFlow))
  takeSign 1 .value

/-- A name, a tag or a quoted scalar may start a key. -/
def keyToken (w : Walk Sign) : Scan Unit := do
  noteKey
  allowKey false
  takeToken w

def plain : Scan Unit := do
  let s ← get
  noteKey
  allowKey false
  let (value, isBroken) ← walk (plainScalar (s.indent + 1) (0 < s.flowLevel))
  push ⟨s.cursor.place.line, .scalar .plain value⟩
  if isBroken then allowKey true

def block (style : ScalarStyle) : Scan Unit := do
  let s ← get
  dropKey
  allowKey true
  takeToken do return .scalar style (← blockScalar s.indent (style = .folded))

/-- Whether a plain scalar may start at a character before another. -/
def startsPlain (inFlow : Bool) (c next : Char) : Bool :=
  if c = '-' then !isBlank next
  else if c = '?' || c = ':' then !inFlow && !isWordOver next
  else !(isWordOver c || c = apostrophe || c.toNat = 0x60
    || ",[]\x7b\x7d#&*!|>\"%@".toList.contains c)

/-- The token that starts at a character before another. -/
def token (c next : Char) : Scan Unit := do
  let inFlow ← isInFlow
  match c with
  | '[' => openingBracket .openBracket
  | '\x7b' => openingBracket .openBrace
  | ']' => closingBracket .closeBracket
  | '\x7d' => closingBracket .closeBrace
  | ',' => comma
  | '*' => keyToken do return .alias (← anchorName)
  | '&' => keyToken do return .anchor (← anchorName)
  | '!' => keyToken do
    let (handle, suffix) ← tagName
    return .tag handle suffix
  | '"' => keyToken do return .scalar .double (← quotedScalar c)
  | _ =>
    if c = apostrophe then keyToken do return .scalar .single (← quotedScalar c)
    else if c = '-' && isWordOver next then dash
    else if c = '?' && (inFlow || isWordOver next) then questionMark
    else if c = ':' && (inFlow || isWordOver next) then colon
    else if c = '|' && !inFlow then block .literal
    else if c = '>' && !inFlow then block .folded
    else if startsPlain inFlow c next then plain
    else failHere .cannotStart

/-- Puts the next token into the queue, with those that come with it. -/
def fetch : Scan Unit := do
  walk (know 1)
  let s ← get
  if !s.hasStarted then
    set { s with hasStarted := true, isKeyAllowed := true, keys := #[{}] }
    takeSign 0 .fileStart
  else
    let start := s.cursor.place.line
    skipToToken s.cursor.steps
    closeBlocks (← here).column start
    walk (know 4)
    let c := (← get).cursor
    if c.current = endMark then fileEnd
    else if c.place.column = 0 && c.current = '%' then outermost (takeToken directive)
    else if c.isAtMarker then
      outermost (takeSign 3 (if c.current = '-' then .documentStart else .documentEnd))
    else
      token c.current (c.ahead 1)
      if (← get).queue.getLast?.any (·.sign ≠ .dash) then walk skipLineComment

/-- Fetches tokens until the first one can be handed out. -/
def fetchEnough : Nat → Scan Unit
  | 0 => pure ()
  | steps + 1 => do
    let s ← get
    let isEnough ←
      if 2 < s.queue.length then
        match s.levels.lookup s.handedOut with
        | none => pure true
        | some level => Bool.not <$> isStillKey level
      else pure false
    if !isEnough then
      fetch
      fetchEnough steps

/-- The token that is handed out next. -/
def peek : Scan Token := do
  fetchEnough ((← get).cursor.steps + 4)
  return (← get).queue.head?.getD ⟨0, .fileEnd⟩

/-- Hands out a token. -/
def advance : Scan Unit :=
  modify fun s => { s with queue := s.queue.tail, handedOut := s.handedOut + 1 }

end Scan

/-- A scanner before the first character of a file. -/
def Scanner.ofText (t : Text) : Scanner := { cursor := { source := Source.ofText t } }

end YouthLang.Yaml

import YouthLang.Yaml.Token.Scalar

/-!
# Yaml/Token/Name — anchors, tags and directives

An anchor gives a node a name, an alias uses it.  A tag gives a node a kind; its handle stands for the
head that a directive gives it.
-/

namespace YouthLang.Yaml

open Walk

/-! ## Anchors -/

/-- Whether a name may be followed by a character. -/
def endsName (c : Char) : Bool :=
  isWordOver c || c = '?' || c = ':' || c = ',' || c = ']' || c = '\x7d' || c = '%' || c = '@'
    || c.toNat = 0x60

/-- The name of an anchor or an alias behind its sign. -/
def anchorName : Walk Text := do
  let start := (← place).line
  skip
  let name ← takeWhile isNameChar
  if name.isEmpty || !endsName (← current) then fail start .anchorName
  return encoded name

/-! ## Tags -/

/-- The handle of a tag, from one exclamation mark to another if there are two.  A directive must give
a whole handle. -/
def tagHandle (start : Nat) (isDirective : Bool) : Walk (Array Char) := do
  know 1
  if (← current) ≠ '!' then fail start .tagMark
  skip
  let name ← takeWhile isNameChar
  if (← current) = '!' then
    skip
    return #['!'] ++ name ++ #['!']
  else
    if isDirective && !name.isEmpty then fail start .tagMark
    return #['!'] ++ name

/-- A character of a tag besides those of names. -/
def isTagChar (c : Char) : Bool :=
  isNameChar c || c = apostrophe || ";/?:@&=+$,.!~*()[]%".toList.contains c

/-- The number of a byte written as a percent sign and two digits here. -/
def escapedByte? (c : Cursor) : Option Nat :=
  if c.current = '%' then do
    let high ← hexValue? (c.ahead 1)
    let low ← hexValue? (c.ahead 2)
    return 16 * high + low
  else none

/-- The byte written as a percent sign and two digits. -/
def escapedByte (start : Nat) : Walk UInt8 := do
  know 3
  match escapedByte? (← get) with
  | none => fail start .uriEscape
  | some n => return UInt8.ofNat n

/-- Goes over a percent sign and two digits. -/
def skipEscapedByte : Walk Unit := do
  skip
  skip
  skip

/-- The further bytes of an escaped character. -/
def escapedTrail (start : Nat) : Nat → Walk Text
  | 0 => pure []
  | n + 1 => do
    let b ← escapedByte start
    if b &&& 0xC0 ≠ 0x80 then fail start .uriTrail
    skipEscapedByte
    return b :: (← escapedTrail start n)

/-- The bytes of an escaped character. -/
def escapedChar (start : Nat) : Walk Text := do
  let b ← escapedByte start
  match Decoded.lead? b with
  | none => fail start .uriLead
  | some (width, _) =>
    skipEscapedByte
    return b :: (← escapedTrail start (width - 1))

/-- The characters of a tag from here on, behind others. -/
def tagChars (start : Nat) : Nat → Text → Walk Text
  | 0, taken => pure taken
  | steps + 1, taken => do
    know 1
    let c ← current
    if !isTagChar c then return taken
    else if c = '%' then tagChars start steps (taken ++ (← escapedChar start))
    else
      skip
      tagChars start steps (taken ++ encoded #[c])

/-- The part of a tag behind its handle; `head` of it is already read. -/
def tagUri (start : Nat) (head : Array Char) : Walk Text := do
  let uri ← tagChars start (← get).steps []
  if head.isEmpty && uri.isEmpty then fail start .tagUri
  return encoded (head.extract 1 head.size) ++ uri

/-- The handle and the suffix of a tag.  A tag between angle brackets has no handle, and a single
exclamation mark is a suffix. -/
def tagName : Walk (Text × Text) := do
  let start := (← place).line
  know 2
  let (handle, suffix) ←
    if (← ahead 1) = '<' then do
      skip
      skip
      let uri ← tagUri start #[]
      if (← current) ≠ '>' then fail start .tagClose
      skip
      pure ([], uri)
    else do
      let handle ← tagHandle start false
      if 1 < handle.size && handle.back? = some '!' then
        pure (encoded handle, ← tagUri start #[])
      else
        let uri ← tagUri start handle
        pure (if uri.isEmpty then ([], ("!" : Text)) else ("!", uri))
  know 1
  if !isWordOver (← current) then fail start .blankExpected
  return (handle, suffix)

/-! ## Directives -/

/-- A number of a version: one or two digits. -/
def versionNumber (start : Nat) : Walk Nat := do
  let digits ← takeWhile Char.isDigit
  if 2 < digits.size then fail start .versionLong
  if digits.isEmpty then fail start .versionMissing
  return digits.foldl (fun n d => 10 * n + (d.toNat - 0x30)) 0

/-- The version in a directive. -/
def versionDirective (start : Nat) : Walk Sign := do
  skipWhile isBlank
  let major ← versionNumber start
  if (← current) ≠ '.' then fail start .versionDot
  skip
  return .version major (← versionNumber start)

/-- The handle in a directive and the head it stands for. -/
def tagDirective (start : Nat) : Walk Sign := do
  skipWhile isBlank
  let handle ← tagHandle start true
  know 1
  if !isBlank (← current) then fail start .tagDirectiveBlank
  skipWhile isBlank
  let head ← tagUri start #[]
  know 1
  if !isWordOver (← current) then fail start .blankExpected
  return .tagDirective (encoded handle) head

/-- A directive: a percent sign, a name and what belongs to it, alone on its line. -/
def directive : Walk Sign := do
  let start := (← place).line
  skip
  let name := encoded (← takeWhile isNameChar)
  if name.isEmpty then fail start .directiveName
  if !isWordOver (← current) then fail start .directiveNameEnd
  let sign ←
    if name = Text.ofString "YAML" then versionDirective start
    else if name = Text.ofString "TAG" then tagDirective start
    else fail start .unknownDirective
  skipWhile isBlank
  if (← current) = '#' then skipToLineEnd
  if !isLineOver (← current) then fail start .directiveEnd
  if isLineEnd (← current) then
    know 2
    skipLine
  return sign

end YouthLang.Yaml

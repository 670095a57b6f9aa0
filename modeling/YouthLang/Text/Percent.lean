import YouthLang.Text.Quoted

/-!
# Text/Percent — bytes behind percent signs

In an address a byte can be written as a percent sign and two hexadecimal digits.  Between the bytes of a
path, of a query and of its values different ones stand for themselves.
-/

namespace YouthLang.Percent

/-- The byte in front of two digits. -/
def percent : UInt8 := 0x25

/-- The value of a hexadecimal digit. -/
def hexValue? (b : UInt8) : Option UInt8 :=
  if 0x30 ≤ b && b ≤ 0x39 then some (b - 0x30)
  else if 0x61 ≤ b && b ≤ 0x66 then some (b - 0x57)
  else if 0x41 ≤ b && b ≤ 0x46 then some (b - 0x37)
  else none

/-- A hexadecimal digit in upper case. -/
def hexLetter (n : UInt8) : UInt8 := if n < 10 then 0x30 + n else 0x37 + n

/-- The byte that two digits stand for. -/
def byte? (a b : UInt8) : Option UInt8 := do return 16 * (← hexValue? a) + (← hexValue? b)

/-- A text with its escaped bytes in place; `plain` changes the others.  If two digits are missing,
the result is what stands in their place. -/
def decode (plain : UInt8 → UInt8) : Text → Except Text Text
  | [] => .ok []
  | b :: rest =>
    if b ≠ percent then (plain b :: ·) <$> decode plain rest
    else match rest with
      | x :: y :: rest =>
        match byte? x y with
        | some c => (c :: ·) <$> decode plain rest
        | none => .error [b, x, y]
      | short => .error (b :: short)

/-- A byte as a percent sign and two digits. -/
def escape (b : UInt8) : Text := [percent, hexLetter (b / 16), hexLetter (b % 16)]

/-- A text with the bytes escaped that do not stand for themselves. -/
def encode (isPlain : UInt8 → Bool) (t : Text) : Text :=
  t.flatMap fun b => if isPlain b then [b] else escape b

/-! ## Queries -/

/-- Why a query cannot be read. -/
inductive QueryError where
  | semicolon
  | escape (found : Text)
deriving DecidableEq, Repr

/-- The sentence that tells the reason. -/
def QueryError.message : QueryError → Text
  | .semicolon => "invalid semicolon separator in query"
  | .escape found => "invalid URL escape " ++ found.quoted

/-- A part of a query with its escaped bytes in place; a plus sign stands for a space. -/
def queryPart (t : Text) : Except QueryError Text :=
  (decode (fun b => if b = 0x2B then 0x20 else b) t).mapError .escape

/-- A name and a value, with an equals sign between them if there is a value. -/
def assignment (t : Text) : Except QueryError (Text × Text) := do
  let name ← queryPart (t.takeWhile (· ≠ 0x3D))
  let value ← queryPart ((t.dropWhile (· ≠ 0x3D)).drop 1)
  return (name, value)

/-- The names and values of a query in order. -/
def query (t : Text) : Except QueryError (List (Text × Text)) :=
  if t.contains 0x3B then .error .semicolon
  else ((Text.splitOn 0x26 t).filter (· ≠ [])).mapM assignment

/-- The values of a name. -/
def valuesOf (name : Text) (assignments : List (Text × Text)) : List Text :=
  (assignments.filter (·.1 = name)).map Prod.snd

end YouthLang.Percent

import YouthLang.Text.Percent

/-!
# History/Pragma — settings of a database

The address of a history can ask for settings of its database.  A setting is a name, perhaps with the
name of a schema in front of it, and perhaps a value: behind an equals sign or between parentheses.  A
setting that no database knows changes nothing, but one that is not written like a setting is refused.
-/

namespace YouthLang.Pragma

/-- A token of a setting. -/
inductive Token where
  | name (t : Text)
  | number (t : Text)
  | sign (t : Text)
  | broken (t : Text)
deriving DecidableEq, Repr

/-- The text of a token. -/
def Token.text : Token → Text
  | .name t | .number t | .sign t | .broken t => t

/-- Why a setting is refused. -/
inductive Problem where
  | incomplete
  | unexpected (token : Text)
  | unrecognized (token : Text)
deriving DecidableEq, Repr

/-- The words for the reason. -/
def Problem.message : Problem → Text
  | .incomplete => "incomplete input"
  | .unexpected token => "near \"" ++ token ++ "\": syntax error"
  | .unrecognized token => "unrecognized token: \"" ++ token ++ "\""

/-! ## Tokens -/

def isSpace (b : UInt8) : Bool := b = 0x20 || b = 0x09 || b = 0x0A || b = 0x0C || b = 0x0D

def isDigit (b : UInt8) : Bool := 0x30 ≤ b && b ≤ 0x39

/-- A byte of a name. -/
def isNameByte (b : UInt8) : Bool :=
  isDigit b || (0x41 ≤ b && b ≤ 0x5A) || (0x61 ≤ b && b ≤ 0x7A) || b = 0x5F || b = 0x24 || 0x80 ≤ b

/-- The byte that ends a quoted name, by the one that starts it. -/
def closing? (b : UInt8) : Option UInt8 :=
  if b = 0x22 || b = 0x27 || b = 0x60 then some b else if b = 0x5B then some 0x5D else none

/-- How many bytes a quoted name has up to its end; a quote written twice does not end it. -/
def quotedLength? (close : UInt8) : Text → Option Nat
  | [] => none
  | [b] => if b = close then some 1 else none
  | b :: c :: rest =>
    if b ≠ close then (· + 1) <$> quotedLength? close (c :: rest)
    else if c = close && close ≠ 0x5D then (· + 2) <$> quotedLength? close rest
    else some 1

/-- The number at the front of a text: digits, perhaps with a fraction, an exponent or a base. -/
def numberLength (t : Text) : Nat :=
  match t with
  | 0x30 :: x :: rest =>
    if (x = 0x78 || x = 0x58) && rest.head?.any (Percent.hexValue? · |>.isSome) then
      2 + (rest.takeWhile (Percent.hexValue? · |>.isSome)).length
    else decimalLength t
  | _ => decimalLength t
where
  /-- The length of a number without a base. -/
  decimalLength (t : Text) : Nat :=
    let whole := (t.takeWhile isDigit).length
    let fraction := match t.drop whole with
      | 0x2E :: rest => 1 + (rest.takeWhile isDigit).length
      | _ => 0
    let exponent := match t.drop (whole + fraction) with
      | e :: sign :: rest =>
        if e ≠ 0x65 && e ≠ 0x45 then 0
        else if isDigit sign then 1 + ((sign :: rest).takeWhile isDigit).length
        else if (sign = 0x2B || sign = 0x2D) && rest.head?.any isDigit then
          2 + (rest.takeWhile isDigit).length
        else 0
      | _ => 0
    whole + fraction + exponent

/-- The token at the front of a text that is not empty and does not start with a space. -/
def token (b : UInt8) (rest : Text) : Token :=
  let t := b :: rest
  if isDigit b || (b = 0x2E && rest.head?.any isDigit) then
    let n := numberLength t
    let behind := ((t.drop n).takeWhile isNameByte).length
    if behind = 0 then .number (t.take n) else .broken (t.take (n + behind))
  else if isNameByte b && b ≠ 0x24 then .name (t.takeWhile isNameByte)
  else match closing? b with
    | some close =>
      match quotedLength? close rest with
      | some n => .name (t.take (n + 1))
      | none => .broken t
    | none =>
      if (Text.ofString "()=.+-;,*/<>|&~%").contains b then .sign [b] else .broken [b]

/-- The tokens of a text; `fuel` bounds their number. -/
def tokens : Nat → Text → List Token
  | 0, _ => []
  | fuel + 1, t =>
    match t.dropWhile isSpace with
    | [] => []
    | b :: rest =>
      let next := token b rest
      next :: tokens fuel ((b :: rest).drop next.text.length)

/-! ## The form of a setting -/

/-- The problem that a token is where it should not be. -/
def refuse {α : Type} : List Token → Except Problem α
  | [] => .error .incomplete
  | .broken t :: _ => .error (.unrecognized t)
  | t :: _ => .error (.unexpected t.text)

/-- What is behind a name. -/
def name : List Token → Except Problem (List Token)
  | .name _ :: rest => .ok rest
  | ts => refuse ts

/-- What is behind a sign. -/
def sign (t : Text) (ts : List Token) : Except Problem (List Token) :=
  match ts with
  | .sign u :: rest => if u = t then .ok rest else refuse ts
  | _ => refuse ts

/-- What is behind a value: a name, or a number with or without a sign. -/
def value : List Token → Except Problem (List Token)
  | .name _ :: rest => .ok rest
  | .number _ :: rest => .ok rest
  | .sign t :: rest =>
    if t = "+" || t = "-" then
      match rest with
      | .number _ :: rest => .ok rest
      | ts => refuse ts
    else refuse (.sign t :: rest)
  | ts => refuse ts

/-- What is behind a name and the schema in front of it. -/
def qualifiedName (ts : List Token) : Except Problem (List Token) := do
  match ← name ts with
  | .sign t :: rest => if t = "." then name rest else return .sign t :: rest
  | rest => return rest

/-- What is behind a setting. -/
def setting (ts : List Token) : Except Problem (List Token) := do
  match ← qualifiedName ts with
  | .sign t :: rest =>
    if t = "=" then value rest
    else if t = "(" then sign ")" (← value rest)
    else return .sign t :: rest
  | rest => return rest

/-- What is wrong with a setting.  A semicolon may end it. -/
def problem? (t : Text) : Option Problem :=
  match setting (tokens t.length t) with
  | .error e => some e
  | .ok [] => none
  | .ok (.broken u :: _) => some (.unrecognized u)
  | .ok (.sign u :: _) => if u = ";" then none else some (.unexpected u)
  | .ok (u :: _) => some (.unexpected u.text)

/-- A text in lower case. -/
def lower (t : Text) : Text := t.map fun b => if 0x41 ≤ b && b ≤ 0x5A then b + 0x20 else b

/-- A setting in the form that settings are ordered by: lower case, without spaces around it. -/
def ordered (t : Text) : Text :=
  (((lower t).dropWhile isSpace).reverse.dropWhile isSpace).reverse

/-- Whether a setting comes before another: how long to wait comes first. -/
def isBefore (s t : Text) : Bool :=
  let first : Text := "busy_timeout"
  if first.isPrefixOf (ordered s) then true
  else if first.isPrefixOf (ordered t) then false
  else !(ordered t < ordered s : Bool)

/-- What is wrong with the first setting that is not well-formed, in the order of the settings. -/
def firstProblem? (settings : List Text) : Option Problem :=
  (settings.mergeSort isBefore).findSome? problem?

end YouthLang.Pragma

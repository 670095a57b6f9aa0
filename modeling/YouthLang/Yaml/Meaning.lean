import YouthLang.Yaml.Failure
import YouthLang.Yaml.Timestamp
import YouthLang.Text.Base64

/-!
# Yaml/Meaning — what a scalar stands for

A plain scalar may be a null, a truth value, a number or a timestamp, and everything else is a text.  A
quoted scalar is a text.  A tag says what a scalar has to be.
-/

namespace YouthLang.Yaml

/-- What a scalar stands for. -/
inductive Meaning where
  | null
  | truth (b : Bool)
  | int (i : Int)
  | float (x : Float)
  | timestamp
  /-- The key that takes over the entries of other mappings. -/
  | merge
  | text (t : Text)

/-- The tag of what a scalar stands for. -/
def Meaning.tag : Meaning → Text
  | .null => "!!null"
  | .truth _ => "!!bool"
  | .int _ => "!!int"
  | .float _ => "!!float"
  | .timestamp => "!!timestamp"
  | .merge => "!!merge"
  | .text _ => "!!str"

/-- The key that takes over the entries of other mappings. -/
def mergeKey : Text := "<<"

/-- Infinity. -/
def infinity : Float := Float.ofBits 0x7FF0000000000000

/-- The words with a meaning of their own. -/
def words : List (Text × Meaning) :=
  [("true", .truth true), ("True", .truth true), ("TRUE", .truth true),
    ("false", .truth false), ("False", .truth false), ("FALSE", .truth false),
    ("", .null), ("~", .null), ("null", .null), ("Null", .null), ("NULL", .null),
    (".nan", .float (0.0 / 0.0)), (".NaN", .float (0.0 / 0.0)), (".NAN", .float (0.0 / 0.0)),
    (".inf", .float infinity), (".Inf", .float infinity), (".INF", .float infinity),
    ("+.inf", .float infinity), ("+.Inf", .float infinity), ("+.INF", .float infinity),
    ("-.inf", .float (-infinity)), ("-.Inf", .float (-infinity)), ("-.INF", .float (-infinity)),
    (mergeKey, .merge)]

/-! ## Integers -/

/-- The value of a digit or letter. -/
def digitValue? (b : UInt8) : Option Nat :=
  if 0x30 ≤ b && b ≤ 0x39 then some (b.toNat - 0x30)
  else if 0x61 ≤ b && b ≤ 0x7A then some (b.toNat - 0x57)
  else if 0x41 ≤ b && b ≤ 0x5A then some (b.toNat - 0x37)
  else none

/-- The value of digits in a base. -/
def numeral? (base : Nat) (digits : Text) : Option Nat :=
  if digits = [] then none
  else digits.foldlM (fun n b => do
    let d ← digitValue? b
    if d < base then some (base * n + d) else none) 0

/-- The value of digits with the base in front of them. -/
def natural? (t : Text) : Option Nat :=
  match t with
  | 0x30 :: b :: rest =>
    if b = 0x78 || b = 0x58 then numeral? 16 rest
    else if b = 0x62 || b = 0x42 then numeral? 2 rest
    else if b = 0x6F || b = 0x4F then numeral? 8 rest
    else numeral? 8 (b :: rest)
  | _ => numeral? 10 t

/-- A number with a sign in front of it, if it fits into 64 bits; without a sign it may use the bit of
the sign too. -/
def signed? (natural : Text → Option Nat) (t : Text) : Option Int :=
  match t with
  | 0x2D :: rest =>
    (natural rest).bind fun n => if n ≤ 0x8000000000000000 then some (-(n : Int)) else none
  | 0x2B :: rest =>
    (natural rest).bind fun n => if n < 0x8000000000000000 then some (n : Int) else none
  | _ => (natural t).bind fun n => if n < 0x10000000000000000 then some (n : Int) else none

/-- An integer. -/
def int? (t : Text) : Option Int := signed? natural? t

/-- An integer whose sign stands behind the base. -/
def basedInt? (t : Text) : Option Int :=
  match t with
  | 0x30 :: 0x62 :: rest => signed? (numeral? 2) rest
  | 0x30 :: 0x6F :: rest => signed? (numeral? 8) rest
  | _ => none

/-! ## Numbers with a fraction -/

/-- A text without a sign in front, and whether the sign was a minus. -/
def unsigned (t : Text) : Bool × Text :=
  match t with
  | 0x2D :: rest => (true, rest)
  | 0x2B :: rest => (false, rest)
  | _ => (false, t)

/-- The exponent at the end of a number; `some 0` if there is none. -/
def exponent? (t : Text) : Option Int :=
  match t with
  | [] => some 0
  | e :: rest =>
    if e = 0x65 || e = 0x45 then
      let (isNegative, digits) := unsigned rest
      if digits ≠ [] && digits.all isDigit then
        let n : Int := Number.digitsValue digits
        some (if isNegative then -n else n)
      else none
    else none

/-- The decimal `m · 10 ^ e` as a number; exponents far outside the range are cut short. -/
def decimal? (m : Nat) (e : Int) : Option Float :=
  if m = 0 then some 0.0
  else if 400 < e then none
  else Number.Decimal.toFloat? ⟨m, max e (-2000)⟩

/-- A number with digits, perhaps a point and digits, and perhaps an exponent. -/
def float? (t : Text) : Option Float :=
  let (isNegative, body) := unsigned t
  let whole := body.takeWhile isDigit
  let behind := body.dropWhile isDigit
  let (hasPoint, places, rest) : Bool × Text × Text :=
    match behind with
    | 0x2E :: more => (true, more.takeWhile isDigit, more.dropWhile isDigit)
    | _ => (false, [], behind)
  if whole = [] && (!hasPoint || places = []) then none
  else do
    let e ← exponent? rest
    let x ← decimal? (Number.digitsValue (whole ++ places)) (e - places.length)
    some (if isNegative then -x else x)

/-- The underscore, which may stand between digits. -/
def underscore : UInt8 := 0x5F

/-- A text without underscores. -/
def withoutUnderscores (t : Text) : Text := t.filter (· ≠ underscore)

/-- Whether every underscore stands between two digits. -/
def separatesDigits : Bool → Text → Bool
  | _, [] => true
  | _, [b] => b ≠ underscore
  | afterDigit, b :: c :: rest =>
    (b ≠ underscore || (afterDigit && isDigit c)) && separatesDigits (isDigit b) (c :: rest)

/-! ## Scalars -/

/-- What a plain scalar stands for; `hasTimestamps` tells whether it may be a timestamp. -/
def plainMeaning (hasTimestamps : Bool) (t : Text) : Meaning :=
  match words.lookup t with
  | some m => m
  | none =>
    let first := t.headD 0
    if first = 0x2E then
      match if separatesDigits false t then float? (withoutUnderscores t) else none with
      | some x => .float x
      | none => .text t
    else if first = 0x2B || first = 0x2D || isDigit first then
      if hasTimestamps && isTimestamp t then .timestamp
      else
        let bare := withoutUnderscores t
        match int? bare, float? bare, basedInt? bare with
        | some i, _, _ => .int i
        | none, some x, _ => .float x
        | none, none, some i => .int i
        | none, none, none => .text t
    else .text t

/-- What a plain scalar without a tag stands for. -/
def meaning (t : Text) : Meaning := plainMeaning true t

/-- What a scalar stands for under a tag.  An integer is also a number with a fraction, and bytes that
are no text are written as letters. -/
def meaningUnder (tag t : Text) : Except Failure Meaning :=
  if tag = "!!str" then .ok (.text t)
  else if tag = "!!binary" then
    match Base64.decode? (t.filter fun b => b ≠ 0x0A && b ≠ 0x0D) with
    | some bytes => .ok (.text bytes)
    | none => .error .brokenBinary
  else
    let m := plainMeaning (tag = Text.ofString "!!timestamp") t
    if m.tag = tag then .ok m
    else match m with
      | .int i =>
        match decimal? i.natAbs 0 with
        | some x =>
          if tag = "!!float" && i < 0x8000000000000000 then .ok (.float (if i < 0 then -x else x))
          else .error (.undecodable m.tag t tag)
        | none => .error (.undecodable m.tag t tag)
      | _ => .error (.undecodable m.tag t tag)

/-- The tag of a node, also if the document gives none. -/
def tag : Yaml → Text
  | .scalar _ [] .plain v => (meaning v).tag
  | .scalar _ [] _ _ => "!!str"
  | .scalar _ t _ _ => t
  | .mapping _ t _ => if t = [] then "!!map" else t
  | .sequence _ t _ => if t = [] then "!!seq" else t
  | .alias _ _ _ _ => []

/-- What the text of a scalar stands for, by its tag and by how it is written. -/
def scalarMeaning (tag : Text) (style : ScalarStyle) (value : Text) : Except Failure Meaning :=
  match tag, style with
  | [], .plain => .ok (meaning value)
  | [], _ => .ok (.text value)
  | _, _ => meaningUnder tag value

end YouthLang.Yaml

import YouthLang.Yaml.Failure

/-!
# Yaml/Source — the characters of a file

A file is UTF-8, or UTF-16 if it starts with the mark of that encoding.  It is read part by part, and a
part is decoded as a whole: bytes that are no characters are noticed when their part is read.
-/

namespace YouthLang.Yaml

/-- The ways to encode characters. -/
inductive Encoding where
  | utf8
  | utf16Little
  | utf16Big
deriving DecidableEq, Repr

/-- What comes of decoding the character at the head of bytes. -/
inductive Decoded where
  | char (c : Char) (taken : Nat)
  /-- The character goes on behind the bytes. -/
  | incomplete (cause : EncodingCause)
  | failed (cause : EncodingCause)

namespace Decoded

/-- Whether a character may stand in a document. -/
def isAllowed (n : Nat) : Bool :=
  n = 0x09 || n = 0x0A || n = 0x0D || (0x20 ≤ n && n ≤ 0x7E) || n = 0x85 || (0xA0 ≤ n && n ≤ 0xD7FF)
    || (0xE000 ≤ n && n ≤ 0xFFFD) || (0x10000 ≤ n && n ≤ 0x10FFFF)

/-- A character by its number. -/
def ofNumber (n taken : Nat) : Decoded :=
  if isAllowed n then .char (Char.ofNat n) taken else .failed .controlCharacter

/-! ## UTF-8 -/

/-- The number of bytes of a sequence and the bits that its first byte adds. -/
def lead? (b : UInt8) : Option (Nat × Nat) :=
  if b < 0x80 then some (1, b.toNat)
  else if b &&& 0xE0 = 0xC0 then some (2, (b &&& 0x1F).toNat)
  else if b &&& 0xF0 = 0xE0 then some (3, (b &&& 0x0F).toNat)
  else if b &&& 0xF8 = 0xF0 then some (4, (b &&& 0x07).toNat)
  else none

/-- The least number that takes a sequence of that many bytes. -/
def leastOf (width : Nat) : Nat :=
  match width with
  | 2 => 0x80
  | 3 => 0x800
  | 4 => 0x10000
  | _ => 0

/-- The number of a sequence with the bits so far and its further bytes. -/
def trail? (bits : Nat) : Text → Option Nat
  | [] => some bits
  | b :: rest => if b &&& 0xC0 = 0x80 then trail? (bits * 64 + (b &&& 0x3F).toNat) rest else none

/-- The character that UTF-8 bytes start with. -/
def utf8 (b : UInt8) (rest : Text) : Decoded :=
  match lead? b with
  | none => .failed .leadingOctet
  | some (width, bits) =>
    let further := rest.take (width - 1)
    if further.length < width - 1 then .incomplete .incompleteSequence
    else match trail? bits further with
      | none => .failed .trailingOctet
      | some n =>
        if n < leastOf width then .failed .sequenceLength
        else if (0xD800 ≤ n && n ≤ 0xDFFF) || 0x10FFFF < n then .failed .noScalarValue
        else ofNumber n width

/-! ## UTF-16 -/

/-- The number of two bytes. -/
def unitOf (isLittle : Bool) (a b : UInt8) : Nat :=
  if isLittle then b.toNat * 256 + a.toNat else a.toNat * 256 + b.toNat

/-- Whether a unit is the first or the second half of a pair. -/
def isHigh (n : Nat) : Bool := 0xD800 ≤ n && n ≤ 0xDBFF

@[inherit_doc isHigh]
def isLow (n : Nat) : Bool := 0xDC00 ≤ n && n ≤ 0xDFFF

/-- The character that UTF-16 bytes start with. -/
def utf16 (isLittle : Bool) (a : UInt8) (rest : Text) : Decoded :=
  match rest with
  | [] => .incomplete .incompleteUnit
  | b :: further =>
    let n := unitOf isLittle a b
    if isLow n then .failed .lowSurrogate
    else if isHigh n then
      match further with
      | c :: d :: _ =>
        let m := unitOf isLittle c d
        if isLow m then ofNumber (0x10000 + n % 0x400 * 0x400 + m % 0x400) 4
        else .failed .noLowSurrogate
      | _ => .incomplete .incompletePair
    else ofNumber n 2

end Decoded

/-- The character that bytes start with. -/
def Encoding.first (e : Encoding) (b : UInt8) (rest : Text) : Decoded :=
  match e with
  | .utf8 => Decoded.utf8 b rest
  | .utf16Little => Decoded.utf16 true b rest
  | .utf16Big => Decoded.utf16 false b rest

/-- The encoding of a file, and its bytes behind the mark of the encoding. -/
def Encoding.ofBytes (t : Text) : Encoding × Text :=
  match t with
  | 0xFF :: 0xFE :: rest => (.utf16Little, rest)
  | 0xFE :: 0xFF :: rest => (.utf16Big, rest)
  | 0xEF :: 0xBB :: 0xBF :: rest => (.utf8, rest)
  | _ => (.utf8, t)

/-- The characters of a file as they become known. -/
structure Source where
  chars : Array Char
  /-- The number of characters that are known after each part. -/
  parts : List Nat
  /-- Why nothing can be read behind the last part. -/
  fault : Option EncodingCause

namespace Source

/-- The size of a part in bytes. -/
def partSize : Nat := 512

/-- The characters of a part behind those before it, and the bytes that are left of it. -/
def decodePart (e : Encoding) : Nat → Text → Array Char → Except EncodingCause (Array Char × Text)
  | 0, t, chars => .ok (chars, t)
  | _ + 1, [], chars => .ok (chars, [])
  | n + 1, b :: rest, chars =>
    match e.first b rest with
    | .char c taken => decodePart e n (rest.drop (taken - 1)) (chars.push c)
    | .incomplete _ => .ok (chars, b :: rest)
    | .failed cause => .error cause

/-- What keeps the bytes left at the end of a file from being a character. -/
def endFault? (e : Encoding) (left : Text) : Option EncodingCause :=
  match left with
  | [] => none
  | b :: rest =>
    match e.first b rest with
    | .incomplete cause => some cause
    | .failed cause => some cause
    | .char _ _ => none

/-- The parts of a file: `left` bytes of the part before are not decoded yet, and `size` bytes come
next. -/
def readParts (e : Encoding) : Nat → Nat → Text → Text → Array Char → List Nat → Source
  | 0, _, _, _, chars, parts => ⟨chars, parts.reverse, none⟩
  | n + 1, size, left, t, chars, parts =>
    match t.take size with
    | [] => ⟨chars, parts.reverse, endFault? e left⟩
    | part =>
      let bytes := left ++ part
      match decodePart e bytes.length bytes chars with
      | .error cause => ⟨chars, parts.reverse, some cause⟩
      | .ok (more, left) =>
        readParts e n (partSize - left.length) left (t.drop size) more (more.size :: parts)

/-- The characters of a file. -/
def ofText (t : Text) : Source :=
  let (e, bytes) := Encoding.ofBytes t
  readParts e (t.length + 1) (partSize - (t.length - bytes.length)) [] bytes #[] []

end Source

end YouthLang.Yaml

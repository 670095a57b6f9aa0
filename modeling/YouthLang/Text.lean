/-!
# Text — runs of bytes

Sources, messages and printed lines are runs of bytes.  Nothing promises that a run is well-formed
UTF-8, so a `Text` is the list of its bytes and every operation here is an operation on bytes.
A string literal stands for its UTF-8 encoding.

* `Text.lines` — a text is its lines joined by newlines, `Text.join_lines`.
* `Text.cut` — the first occurrence of a needle splits a text in two.
-/

namespace YouthLang

/-- A run of bytes, usually but not always well-formed UTF-8. -/
abbrev Text := List UInt8

namespace Text

/-- The UTF-8 bytes of a string. -/
def ofString (s : String) : Text := s.toByteArray.data.toList

instance : Coe String Text := ⟨ofString⟩

/-- The decimal digits of a natural number. -/
def ofNat (n : Nat) : Text := (Nat.toDigits 10 n).map Char.toUInt8

/-- The decimal digits of an integer, after a minus sign if it is negative. -/
def ofInt (i : Int) : Text := if i < 0 then "-" ++ ofNat i.natAbs else ofNat i.natAbs

/-- The byte that ends a line. -/
def newline : UInt8 := 0x0A

/-- The byte around a string. -/
def quote : UInt8 := 0x22

/-- `n` spaces. -/
def spaces (n : Nat) : Text := List.replicate n 0x20

/-- A text with the line end after it. -/
def line (t : Text) : Text := t ++ [newline]

/-- The texts in order with a separator between neighbours. -/
def join (separator : Text) : List Text → Text
  | [] => []
  | [t] => t
  | t :: u :: rest => t ++ separator ++ join separator (u :: rest)

/-- The pieces between the occurrences of a byte; there is always at least one piece. -/
def splitOn (b : UInt8) : Text → List Text
  | [] => [[]]
  | c :: rest =>
    if c = b then [] :: splitOn b rest
    else match splitOn b rest with
      | [] => [[c]]
      | piece :: pieces => (c :: piece) :: pieces

/-- The lines of a text: what stands between its newlines. -/
def lines (t : Text) : List Text := splitOn newline t

theorem splitOn_ne_nil (b : UInt8) (t : Text) : splitOn b t ≠ [] := by
  cases t with
  | nil => simp [splitOn]
  | cons c rest =>
    simp only [splitOn]
    split
    · simp
    · split <;> simp

/-- **Joining undoes splitting.** -/
theorem join_splitOn (b : UInt8) (t : Text) : join [b] (splitOn b t) = t := by
  induction t with
  | nil => rfl
  | cons c rest ih =>
    simp only [splitOn]
    split
    · next h =>
      subst h
      cases hs : splitOn c rest with
      | nil => exact absurd hs (splitOn_ne_nil c rest)
      | cons piece pieces => rw [hs] at ih; simp [join, ih]
    · cases hs : splitOn b rest with
      | nil => exact absurd hs (splitOn_ne_nil b rest)
      | cons piece pieces =>
        rw [hs] at ih
        cases pieces with
        | nil => simpa [join] using ih
        | cons p ps => simpa [join] using ih

/-- A text is its lines joined by newlines. -/
theorem join_lines (t : Text) : join [newline] (lines t) = t := join_splitOn newline t

/-- What follows a head, if the text starts with it. -/
def after? (head : Text) (t : Text) : Option Text :=
  if head.isPrefixOf t then some (t.drop head.length) else none

/-- The text without the head, or the text itself if it does not start with it. -/
def dropHead (head : Text) (t : Text) : Text := (after? head t).getD t

/-- The text without the tail, or the text itself if it does not end with it. -/
def dropTail (tail : Text) (t : Text) : Text :=
  if tail.isSuffixOf t then t.take (t.length - tail.length) else t

/-- The text without its trailing run of one byte. -/
def dropTrailing (b : UInt8) (t : Text) : Text := (t.reverse.dropWhile (· = b)).reverse

/-- What stands before and after the first occurrence of a needle. -/
def cut (needle : Text) : Text → Option (Text × Text)
  | [] => if needle.isEmpty then some ([], []) else none
  | c :: rest =>
    if needle.isPrefixOf (c :: rest) then some ([], (c :: rest).drop needle.length)
    else (cut needle rest).map fun (before, behind) => (c :: before, behind)

/-- Whether a needle occurs in a text. -/
def has (needle : Text) (t : Text) : Bool := (cut needle t).isSome

/-- The text with spaces behind it up to a width; a longer text is left alone. -/
def padTo (width : Nat) (t : Text) : Text := t ++ spaces (width - t.length)

/-- One hexadecimal digit in lower case. -/
def hexDigit (n : Nat) : UInt8 := if n < 10 then UInt8.ofNat (0x30 + n) else UInt8.ofNat (0x57 + n)

/-- The lowest `width` hexadecimal digits of a number, in lower case. -/
def hex (width : Nat) (n : Nat) : Text :=
  match width with
  | 0 => []
  | w + 1 => hex w (n / 16) ++ [hexDigit (n % 16)]

/-- The texts in byte order. -/
def sorted (ts : List Text) : List Text := ts.mergeSort fun a b => !(b < a : Bool)

end Text

end YouthLang

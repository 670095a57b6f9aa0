import YouthLang.Text

/-!
# History/Identifier — ids for entries

An id is a number of 128 bits in hexadecimal digits, in groups of 8, 4, 4, 4 and 12.  Six of the bits
are fixed: they tell that the others are random.
-/

namespace YouthLang

/-- The id with given random bits. -/
def identifier (bits : Nat) : Text :=
  let part (skip width : Nat) : Text := Text.hex width (bits >>> (4 * skip))
  Text.join "-"
    [part 24 8, part 20 4, "4" ++ part 17 3, [Text.hexDigit (8 + bits >>> 64 % 4)] ++ part 13 3,
      part 0 12]

end YouthLang

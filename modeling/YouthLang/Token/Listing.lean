import YouthLang.Token
import YouthLang.Number.Notation
import YouthLang.Text.Quoted

/-!
# Token/Listing — tokens for readers

A listing shows every token as a record, one field on a line, behind the number of the token's line.
-/

namespace YouthLang

namespace TokenKind

/-- The value that a token carries, as a listing shows it. -/
def shownValue : TokenKind → Text
  | .string value => value.quoted
  | .number value => "float64(" ++ Number.compact value ++ ")"
  | _ => "nil"

end TokenKind

namespace Token

variable (t : Token)

/-- The fields of a token with their values. -/
def fields : List (Text × Text) :=
  [("Type", t.kind.label.quoted), ("Lexeme", t.lexeme.quoted), ("Literal", t.kind.shownValue),
    ("Line", Text.ofNat t.place.line), ("Column", Text.ofNat t.place.column)]

/-- The room for the name of a field and what follows it. -/
def fieldWidth : Nat := 9

/-- A field on a line of its own. -/
def fieldLine (name value : Text) : Text :=
  Text.line (Text.spaces 4 ++ Text.padTo fieldWidth (name ++ ":") ++ value ++ ",")

/-- A token as a record behind the number of its line. -/
def listing : Text :=
  Text.ofNat t.place.line ++ "\tlexer.Token\x7b\n"
    ++ (t.fields.flatMap fun (name, value) => fieldLine name value) ++ "\x7d\n"

end Token

end YouthLang

import YouthLang.Text

/-!
# Token — the words of a program

A token has a kind, the text it was read from and its place.  Numbers and strings carry their value in
the kind.
-/

namespace YouthLang

/-- A place in a source; both numbers count from one, the column counts characters. -/
structure Position where
  line : Nat
  column : Nat
deriving DecidableEq, Repr

/-- What a token is. -/
inductive TokenKind where
  | isKey | listenKey | tellKey | giveKey | ifKey | elseKey | whileKey | forKey | andKey | orKey
  | youthKey | meKey | surelyKey | impossibleKey | emptinessKey
  | identifier
  | string (value : Text)
  | number (value : Float)
  | leftParen | rightParen | comma | dot | colon | semicolon
  | plus | minus | star | slash
  | bang | bangEqual | equal | equalEqual | greater | greaterEqual | less | lessEqual
  | endOfSource
deriving DecidableEq

namespace TokenKind

/-- The name of a kind in a listing. -/
def label : TokenKind → Text
  | .isKey => "IS"
  | .listenKey => "LISTEN"
  | .tellKey => "TELL"
  | .giveKey => "GIVE"
  | .ifKey => "IF"
  | .elseKey => "ELSE"
  | .whileKey => "WHILE"
  | .forKey => "FOR"
  | .andKey => "AND"
  | .orKey => "OR"
  | .youthKey => "YOUTH"
  | .meKey => "ME"
  | .surelyKey => "SURELY"
  | .impossibleKey => "IMPOSSIBLE"
  | .emptinessKey => "EMPTINESS"
  | .identifier => "IDENT"
  | .string _ => "STRING"
  | .number _ => "NUMBER"
  | .leftParen => "("
  | .rightParen => ")"
  | .comma => ","
  | .dot => "."
  | .colon => ":"
  | .semicolon => ";"
  | .plus => "+"
  | .minus => "-"
  | .star => "*"
  | .slash => "/"
  | .bang => "!"
  | .bangEqual => "!="
  | .equal => "="
  | .equalEqual => "=="
  | .greater => ">"
  | .greaterEqual => ">="
  | .less => "<"
  | .lessEqual => "<="
  | .endOfSource => "EOF"

/-- The kinds that begin a declaration or a statement with a word of its own. -/
def startsStatement : TokenKind → Bool
  | .youthKey | .listenKey | .isKey | .forKey | .ifKey | .whileKey | .tellKey | .giveKey => true
  | _ => false

end TokenKind

/-- A token: its kind, its text and the place of its first character. -/
structure Token where
  kind : TokenKind
  lexeme : Text
  place : Position
deriving DecidableEq

/-- The words of the language that are no identifiers; three of them declare a variable, and `not` is
another spelling of `!`. -/
def keywords : List (Text × TokenKind) :=
  [("is", .isKey), ("am", .isKey), ("are", .isKey), ("listen", .listenKey), ("tell", .tellKey),
    ("give", .giveKey), ("if", .ifKey), ("else", .elseKey), ("while", .whileKey), ("for", .forKey),
    ("and", .andKey), ("or", .orKey), ("not", .bang), ("youth", .youthKey), ("me", .meKey),
    ("surely", .surelyKey), ("impossible", .impossibleKey), ("emptiness", .emptinessKey)]

/-- The word that opens a comment. -/
def commentWord : Text := "aside"

namespace Token

/-- A token on one line: its kind and its text. -/
def summary (t : Token) : Text := "[" ++ t.kind.label ++ "] '" ++ t.lexeme ++ "'"

end Token

end YouthLang

import YouthLang.Token
import YouthLang.Diagnostic
import YouthLang.Number.Notation
import YouthLang.Text.Glyph

/-!
# Token/Scan — from a source to its tokens

A source falls into *pieces* from the left: a token, a refused piece, or a gap (white space, a comment,
the `#!` line at the very start).  Each piece takes the longest run of characters that it can, and the
pieces together are the whole source.  A piece's place is found by walking over the characters before
it, so a token on line `l` and column `c` has `l - 1` newlines before it and `c - 1` characters since
the last of them.
-/

namespace YouthLang

/-- The place behind a glyph that stands at a place. -/
def Position.next (p : Position) (g : Glyph) : Position :=
  if g = .char '\n' then ⟨p.line + 1, 1⟩ else ⟨p.line, p.column + 1⟩

/-- The place behind a run of glyphs. -/
def Position.after (p : Position) (gs : List Glyph) : Position := gs.foldl Position.next p

/-- The place of the first character. -/
def Position.start : Position := ⟨1, 1⟩

namespace Glyph

/-- A decimal digit. -/
def isDigit : Glyph → Bool
  | .char c => '0' ≤ c && c ≤ '9'
  | .stray _ => false

/-- A character that a name may start with. -/
def isLetter : Glyph → Bool
  | .char c => ('a' ≤ c && c ≤ 'z') || ('A' ≤ c && c ≤ 'Z') || c = '_'
  | .stray _ => false

/-- A character that a name may go on with. -/
def isWord (g : Glyph) : Bool := g.isLetter || g.isDigit

/-- White space between tokens. -/
def isSpace (g : Glyph) : Bool :=
  g = .char ' ' || g = .char '\t' || g = .char '\r' || g = .char '\n'

end Glyph

/-- What a piece of a source turns out to be. -/
inductive Content where
  | gap
  | token (kind : TokenKind)
  | refused (cause : LexicalCause)
deriving DecidableEq

/-- A piece of a source: what it is, its place and its characters. -/
structure Piece where
  content : Content
  place : Position
  glyphs : List Glyph

namespace Content

/-- The kinds whose text is one character. -/
def symbol? : Glyph → Option TokenKind
  | .char '(' => some .leftParen
  | .char ')' => some .rightParen
  | .char ',' => some .comma
  | .char '.' => some .dot
  | .char ':' => some .colon
  | .char ';' => some .semicolon
  | .char '+' => some .plus
  | .char '-' => some .minus
  | .char '*' => some .star
  | .char '/' => some .slash
  | _ => none

/-- The kinds of the characters that may have an equals sign behind them, alone and with it. -/
def comparison? : Glyph → Option (TokenKind × TokenKind)
  | .char '=' => some (.equal, .equalEqual)
  | .char '!' => some (.bang, .bangEqual)
  | .char '<' => some (.less, .lessEqual)
  | .char '>' => some (.greater, .greaterEqual)
  | _ => none

/-- A string behind its opening quote: everything up to the next quote, on however many lines. -/
def string (rest : List Glyph) : Content × Nat :=
  let body := rest.takeWhile (· ≠ .char '"')
  if body.length = rest.length then (.refused .unterminatedString, rest.length)
  else (.token (.string (Text.ofGlyphs body)), body.length + 1)

/-- The digits behind a point, if a point and a digit come next. -/
def fraction : List Glyph → List Glyph
  | .char '.' :: rest => rest.takeWhile Glyph.isDigit
  | _ => []

/-- A numeral behind its first digit. -/
def numeral (first : Glyph) (rest : List Glyph) : Content × Nat :=
  let more := rest.takeWhile Glyph.isDigit
  let places := fraction (rest.drop more.length)
  let taken := more.length + (if places = [] then 0 else places.length + 1)
  match Number.ofNumeral? (Text.ofGlyphs (first :: more)) (Text.ofGlyphs places) with
  | some value => (.token (.number value), taken)
  | none => (.refused (.unrepresentable (Text.ofGlyphs (first :: rest.take taken))), taken)

/-- A word behind its first letter: a comment to the end of the line, a keyword or an identifier. -/
def word (first : Glyph) (rest : List Glyph) : Content × Nat :=
  let more := rest.takeWhile Glyph.isWord
  let spelling := Text.ofGlyphs (first :: more)
  if spelling = commentWord then (.gap, (rest.takeWhile (· ≠ .char '\n')).length)
  else (.token ((keywords.lookup spelling).getD .identifier), more.length)

/-- What stands at the front of `first :: rest`, and how many characters of `rest` belong to it. -/
def front (first : Glyph) (rest : List Glyph) : Content × Nat :=
  if first.isSpace then (.gap, 0)
  else if first.isDigit then numeral first rest
  else if first.isLetter then word first rest
  else if first = .char '"' then string rest
  else match symbol? first, comparison? first with
    | some kind, _ => (.token kind, 0)
    | none, some (alone, withEqual) =>
      if rest.head? = some (.char '=') then (.token withEqual, 1) else (.token alone, 0)
    | none, none =>
      match first with
      | .char c => (.refused (.unexpected c), 0)
      | .stray _ => (.refused .malformedEncoding, 0)

end Content

/-- The pieces of a source from a place on; the first `skip` characters belong to a piece already
found. -/
def piecesFrom : Nat → Position → List Glyph → List Piece
  | _, _, [] => []
  | skip + 1, p, g :: rest => piecesFrom skip (p.next g) rest
  | 0, p, g :: rest =>
    ⟨(Content.front g rest).1, p, g :: rest.take (Content.front g rest).2⟩
      :: piecesFrom (Content.front g rest).2 (p.next g) rest

/-- The characters of the `#!` line that a source may start with, up to the newline. -/
def hashBang : List Glyph → List Glyph
  | .char '#' :: .char '!' :: rest =>
    .char '#' :: .char '!' :: rest.takeWhile (· ≠ .char '\n')
  | _ => []

/-- The pieces of a source. -/
def pieces (gs : List Glyph) : List Piece :=
  let bang := hashBang gs
  if bang = [] then piecesFrom 0 .start gs
  else ⟨.gap, .start, bang⟩ :: piecesFrom 0 (Position.start.after bang) (gs.drop bang.length)

namespace Piece

/-- The token that a piece is. -/
def token? (p : Piece) : Option Token :=
  match p.content with
  | .token kind => some ⟨kind, Text.ofGlyphs p.glyphs, p.place⟩
  | _ => none

/-- The mistake that a refused piece is.  A string that never ends is reported where the source ends,
anything else where the piece starts. -/
def diagnostic? (p : Piece) : Option Diagnostic :=
  match p.content with
  | .refused cause =>
    let spot := if cause = .unterminatedString then p.place.after p.glyphs else p.place
    some { cause := .lexical cause, line := spot.line, column := spot.column }
  | _ => none

end Piece

/-- The tokens of a source and the mistakes found on the way. -/
structure Scanned where
  tokens : List Token
  diagnostics : List Diagnostic

/-- The tokens of a source, with one at the end that marks the end. -/
def scan (source : Text) : Scanned :=
  let gs := source.glyphs
  let found := pieces gs
  { tokens := found.filterMap Piece.token? ++ [⟨.endOfSource, [], Position.start.after gs⟩]
    diagnostics := found.filterMap Piece.diagnostic? }

end YouthLang

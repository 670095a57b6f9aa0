import YouthLang.Cause

/-!
# Diagnostic — a mistake, where it is and how it is shown

A diagnostic names its cause and its place.  `Diagnostic.header` is the one-line form;
`Diagnostic.text` adds the source line with a caret under the column and the calls that were active.
-/

namespace YouthLang

/-- A call that was active when a run stopped. -/
structure CallSite where
  function : Text
  file : Text
  line : Int
deriving DecidableEq, Repr

/-- A mistake and its place; lines and columns count from one, and a column counts characters. -/
structure Diagnostic where
  cause : Cause
  line : Int
  column : Int
  /-- The text of the token the mistake was found at, empty where there is none. -/
  lexeme : Text := []
  /-- The mistake was found at the end of the source. -/
  atEnd : Bool := false
  file : Text := []
  /-- The source line of the mistake, empty until it is filled in. -/
  excerpt : Text := []
  /-- The active calls, innermost first. -/
  calls : List CallSite := []
deriving DecidableEq, Repr

namespace Diagnostic

variable (d : Diagnostic)

/-- Found before the program ran. -/
def isStatic : Bool := d.cause.stage ≠ .runtime

/-- The sentence that tells what is wrong. -/
def message : Text := d.cause.message

/-- Where in the source the mistake is said to be. -/
def location : Text :=
  if d.atEnd then " at end"
  else if d.lexeme = [] then []
  else " at '" ++ d.lexeme ++ "'"

/-- The file in front of the header, if there is one. -/
def fileLabel : Text := if d.file = [] then [] else d.file ++ ":"

/-- The one-line form: file, line, stage, place and message. -/
def header : Text :=
  d.fileLabel ++ "[line " ++ Text.ofInt d.line ++ "] " ++ d.cause.stage.label ++ d.location ++ ": "
    ++ d.message

/-- The margin before the source line. -/
def margin : Text := "  " ++ Text.ofInt d.line ++ " | "

/-- The source line and the caret below it; nothing if the line is empty. -/
def excerptLines : List Text :=
  if d.excerpt = [] then []
  else
    (d.margin ++ d.excerpt) ::
      if 0 < d.column then [Text.spaces (d.margin.length + d.column.toNat - 1) ++ "^"] else []

/-- The line that shows an active call. -/
def callLine (c : CallSite) : Text :=
  let place : Text := if c.file = [] then "line " else c.file ++ ":"
  "  at " ++ c.function ++ " (" ++ place ++ Text.ofInt c.line ++ ")"

/-- The full form, on as many lines as it needs. -/
def text : Text :=
  Text.join [Text.newline] (d.header :: d.excerptLines ++ d.calls.map callLine)

/-- The diagnostic and its calls, placed in a file. -/
def inFile (file : Text) : Diagnostic :=
  { d with file := file, calls := d.calls.map fun c => { c with file := file } }

/-- The diagnostic in the file it was found in, if there is one. -/
def placed (file : Text) : Diagnostic := if file = [] then d else d.inFile file

/-- The diagnostic with its source line set. -/
def withExcerpt (line : Text) : Diagnostic := { d with excerpt := line }

/-- The diagnostic with its source line taken from the source, unless it has one or the source has
no such line. -/
def attach (source : Text) : Diagnostic :=
  if d.excerpt = [] && 0 < d.line then
    match source.lines[d.line.toNat - 1]? with
    | some line => d.withExcerpt (Text.dropTrailing 0x0D line)
    | none => d
  else d

/-- The diagnostic seen from one call further out. -/
def calledFrom (function : Text) (line : Int) : Diagnostic :=
  { d with calls := d.calls ++ [⟨function, d.file, line⟩] }

/-- The diagnostic as a run reports it: in its file, if it has one, and with its source line. -/
def decorate (file source : Text) : Diagnostic :=
  (d.placed file).attach source

end Diagnostic

end YouthLang

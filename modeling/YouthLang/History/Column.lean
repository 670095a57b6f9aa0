import YouthLang.Text

/-!
# History/Column — the columns of a history

A history is kept in a table with a row for every recorded run.  A row has a value in each of the
columns named here.
-/

namespace YouthLang

/-- A column of the table. -/
inductive Column where
  | id
  | origin
  | source
  | output
  | hadStaticError
  | hadRuntimeError
  | errorText
  | createdAt
deriving DecidableEq, Repr

/-- The name of a column. -/
def Column.name : Column → Text
  | .id => "id"
  | .origin => "origin"
  | .source => "source"
  | .output => "output"
  | .hadStaticError => "had_static_error"
  | .hadRuntimeError => "had_runtime_error"
  | .errorText => "error_text"
  | .createdAt => "created_at"

/-- A value that is sent to a database or read from one. -/
inductive Cell where
  | text (t : Text)
  | integer (n : Int64)
  | truth (b : Bool)
deriving DecidableEq, Repr

namespace Cell

/-- The value as a table keeps it: a truth value is kept as a number. -/
def stored : Cell → Cell
  | .truth b => .integer (if b then 1 else 0)
  | c => c

/-- The truth value that a value stands for. -/
def truth? : Cell → Option Bool
  | .truth b => some b
  | .integer n => if n = 0 then some false else if n = 1 then some true else none
  | .text _ => none

@[simp] theorem truth?_stored (b : Bool) : (stored (.truth b)).truth? = some b := by cases b <;> rfl

end Cell

/-- The values of a row by column. -/
abbrev Row := List (Column × Cell)

namespace Row

/-- The time in a row, the beginning of time if there is none. -/
def time (r : Row) : Int :=
  match r.lookup .createdAt with
  | some (.integer n) => n.toInt
  | _ => 0

/-- Whether a row has an id. -/
def hasId (id : Text) (r : Row) : Bool := r.lookup .id = some (.text id)

end Row

end YouthLang

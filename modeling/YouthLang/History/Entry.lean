import YouthLang.History.Column
import YouthLang.Number.Word
import YouthLang.Session

/-!
# History/Entry — a recorded run

An entry tells what was run and how it ended.  The entries are the rows of a table: the values of an
entry are written to some columns and read from some, in an order that the queries and the program must
agree on.
-/

namespace YouthLang

/-- A recorded run. -/
structure HistoryEntry where
  /-- Empty until the entry is recorded. -/
  id : Text := []
  origin : Text
  source : Text
  output : Text
  hadStaticError : Bool
  hadRuntimeError : Bool
  errorText : Text
  /-- In nanoseconds; set when the entry is recorded, if it was not set before. -/
  createdAt : Option Int64 := none
deriving DecidableEq, Repr

namespace HistoryEntry

/-- The outcome in a word or two. -/
def status (e : HistoryEntry) : Text :=
  if e.hadStaticError then "static error" else if e.hadRuntimeError then "runtime error" else "ok"

/-- The entry for a finished run. -/
def ofRun (origin source : Text) (r : Run) : HistoryEntry :=
  { origin := origin
    source := source
    output := Text.join [Text.newline] r.output
    hadStaticError := r.wasRejected
    hadRuntimeError := r.hasFailed
    errorText := Text.join [Text.newline] r.mistakeTexts }

/-- When the entry was made, the beginning of time if that is not known. -/
def time (e : HistoryEntry) : Int := (e.createdAt.getD 0).toInt

/-- The entry with an id and a time, where it has none of its own. -/
def stamped (id : Text) (now : Int64) (e : HistoryEntry) : HistoryEntry :=
  { e with
    id := if e.id = [] then id else e.id
    createdAt := some (e.createdAt.getD now) }

/-! ## Rows -/

/-- The columns that an entry is written to. -/
def writtenColumns : List Column :=
  [.id, .origin, .source, .output, .hadStaticError, .hadRuntimeError, .errorText, .createdAt]

/-- The values of an entry, in the order of `writtenColumns`. -/
def cells (e : HistoryEntry) : List Cell :=
  [.text e.id, .text e.origin, .text e.source, .text e.output, .truth e.hadStaticError,
    .truth e.hadRuntimeError, .text e.errorText, .integer (e.createdAt.getD 0)]

/-- The columns that an entry is read from. -/
def readColumns : List Column :=
  [.id, .origin, .source, .output, .hadStaticError, .hadRuntimeError, .errorText, .createdAt]

/-- The entry with values in the order of `readColumns`. -/
def ofCells? : List Cell → Option HistoryEntry
  | [.text id, .text origin, .text source, .text output, hadStaticError, hadRuntimeError,
      .text errorText, .integer createdAt] => do
    let hadStaticError ← hadStaticError.truth?
    let hadRuntimeError ← hadRuntimeError.truth?
    return ⟨id, origin, source, output, hadStaticError, hadRuntimeError, errorText, some createdAt⟩
  | _ => none

end HistoryEntry

namespace Row

/-- The row that values are written as. -/
def ofCells (values : List Cell) : Row := HistoryEntry.writtenColumns.zip (values.map Cell.stored)

/-- The values that are read from a row. -/
def shown (r : Row) : List Cell := HistoryEntry.readColumns.filterMap fun c => r.lookup c

end Row

namespace HistoryEntry

/-- The row that an entry is written as. -/
def row (e : HistoryEntry) : Row := .ofCells e.cells

/-- The entry that a row was written for. -/
def ofRow? (r : Row) : Option HistoryEntry := ofCells? r.shown

end HistoryEntry

end YouthLang

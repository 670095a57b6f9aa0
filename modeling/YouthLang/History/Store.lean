import YouthLang.History.Dialect
import YouthLang.History.Entry

/-!
# History/Store — runs in a database

A store keeps its entries in one table of a database.  It knows the database only as something that can
be connected to and that answers queries (`Database`); what the queries mean is the database's affair.  A
store that was closed does not ask any more.
-/

namespace YouthLang

/-- A database behind a driver: `σ` is what the world around looks like, `κ` a pool of connections.  A
refusal comes with its text. -/
structure Database (σ κ : Type) where
  /-- A pool for an address under the name of a driver; nothing is connected yet. -/
  prepare : Text → Text → Except Text κ
  /-- A first connection. -/
  ping : κ → σ → Except Text Unit × σ
  /-- A statement with the values of its parameters. -/
  exec : κ → Text → List Cell → σ → Except Text Unit × σ
  /-- A question with the values of its parameters, and the rows of the answer. -/
  query : κ → Text → List Cell → σ → Except Text (List (List Cell)) × σ
  /-- The connections of a pool are given up. -/
  release : κ → σ → σ

/-- Why a history cannot be opened. -/
inductive OpenError where
  | unsupported (driver : Text)
  | unconnected (problem : Text)
  | unreached (problem : Text)
  | uncreated (problem : Text)
deriving DecidableEq, Repr

/-- The sentence that tells the reason. -/
def OpenError.message : OpenError → Text
  | .unsupported driver => "unsupported database type: " ++ driver
  | .unconnected problem => "failed to connect: " ++ problem
  | .unreached problem => "failed to ping database: " ++ problem
  | .uncreated problem => "create youth_runs: " ++ problem

/-- Why a history does not do what it is asked for. -/
inductive HistoryError where
  | closed
  | refused (problem : Text)
  | absent
  /-- A row has other values than an entry. -/
  | unreadable
deriving DecidableEq, Repr

namespace HistoryError

/-- The words for the reason. -/
def message : HistoryError → Text
  | .closed => "sql: database is closed"
  | .refused problem => problem
  | .absent => "sql: no rows in result set"
  | .unreadable => "sql: Scan error"

/-- What a failed attempt to record says. -/
def onRecord (e : HistoryError) : Text := "execution failed: " ++ e.message

/-- What a failed attempt to list says. -/
def onList (e : HistoryError) : Text :=
  if e = .unreadable then e.message else "query failed: " ++ e.message

/-- What a failed attempt to get an entry says. -/
def onGet (id : Text) (e : HistoryError) : Text := "run " ++ id ++ ": " ++ e.message

end HistoryError

/-! ## Queries -/

namespace Column

/-- Columns in a query. -/
def listed (columns : List Column) : Text := Text.join ", " (columns.map name)

end Column

namespace Query

/-- Writes the values of an entry. -/
def insertion : Text :=
  "INSERT INTO youth_runs\n\t(" ++ Column.listed HistoryEntry.writtenColumns ++ ")\n\tVALUES ("
    ++ Text.join ", " (HistoryEntry.writtenColumns.map fun _ => "?") ++ ")"

/-- Reads the values of entries. -/
def selection : Text := "SELECT " ++ Column.listed HistoryEntry.readColumns ++ " FROM youth_runs"

/-- Reads the newest entries, up to a number of them. -/
def newest (dialect : Dialect) : Text :=
  selection ++
    if dialect = .sqlserver then " ORDER BY created_at DESC OFFSET 0 ROWS FETCH NEXT ? ROWS ONLY"
    else " ORDER BY created_at DESC LIMIT ?"

/-- Reads the entry with an id. -/
def byId : Text := selection ++ " WHERE id = ?"

example : selection = ("SELECT id, origin, source, output, had_static_error, had_runtime_error, " : Text)
    ++ "error_text, created_at FROM youth_runs" := by decide +kernel

end Query

/-! ## Stores -/

/-- A store: its pool of connections, how the database is spoken to, and whether it is open. -/
structure Store (κ : Type) where
  connections : κ
  dialect : Dialect
  isOpen : Bool := true

namespace Store

variable {σ κ : Type} (db : Database σ κ)

/-- A store at an address.  Its table is made unless it is there. -/
def openAt (driver address : Text) (w : σ) : Except OpenError (Store κ) × σ :=
  match Dialect.ofName? driver with
  | none => (.error (.unsupported driver), w)
  | some dialect =>
    match db.prepare dialect.driverName address with
    | .error problem => (.error (.unconnected problem), w)
    | .ok connections =>
      match db.ping connections w with
      | (.error problem, w) => (.error (.unreached problem), db.release connections w)
      | (.ok (), w) =>
        match db.exec connections (Dialect.createTable (some dialect)) [] w with
        | (.error problem, w) => (.error (.uncreated problem), db.release connections w)
        | (.ok (), w) => (.ok { connections := connections, dialect := dialect }, w)

variable (s : Store κ)

/-- A statement, unless the store is closed. -/
def exec (query : Text) (values : List Cell) (w : σ) : Except HistoryError Unit × σ :=
  if s.isOpen then
    let (answer, w) := db.exec s.connections (Dialect.rebind (some s.dialect) query) values w
    (answer.mapError .refused, w)
  else (.error .closed, w)

/-- A question, unless the store is closed. -/
def query (query : Text) (values : List Cell) (w : σ) : Except HistoryError (List (List Cell)) × σ :=
  if s.isOpen then
    let (answer, w) := db.query s.connections (Dialect.rebind (some s.dialect) query) values w
    (answer.mapError .refused, w)
  else (.error .closed, w)

/-- An entry recorded; `id` and `now` are for an entry that has none. -/
def record (id : Text) (now : Int64) (e : HistoryEntry) (w : σ) : Except HistoryError Text × σ :=
  let e := e.stamped id now
  match s.exec db Query.insertion e.cells w with
  | (.error problem, w) => (.error problem, w)
  | (.ok (), w) => (.ok e.id, w)

/-- The number of entries that is listed unless another one is asked for. -/
def usualCount : Int64 := 20

/-- The most recent entries, newest first; a count that is not positive means the usual one. -/
def recent (count : Int64) (w : σ) : Except HistoryError (List HistoryEntry) × σ :=
  let count := if count ≤ 0 then usualCount else count
  match s.query db (Query.newest s.dialect) [.integer count] w with
  | (.error problem, w) => (.error problem, w)
  | (.ok rows, w) =>
    match rows.mapM HistoryEntry.ofCells? with
    | some entries => (.ok entries, w)
    | none => (.error .unreadable, w)

/-- The entry with an id. -/
def get (id : Text) (w : σ) : Except HistoryError HistoryEntry × σ :=
  match s.query db Query.byId [.text id] w with
  | (.error problem, w) => (.error problem, w)
  | (.ok [], w) => (.error .absent, w)
  | (.ok (r :: _), w) =>
    match HistoryEntry.ofCells? r with
    | some e => (.ok e, w)
    | none => (.error .unreadable, w)

/-- The store closed; closing it again changes nothing. -/
def close (w : σ) : Store κ × σ :=
  if s.isOpen then ({ s with isOpen := false }, db.release s.connections w) else (s, w)

end Store

end YouthLang

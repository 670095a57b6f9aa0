import YouthLang.Files
import YouthLang.History.Location
import YouthLang.History.Store

/-!
# History/Archive — the databases that can be reached

An archive holds the rows of every history by the path of the file that it is kept in, and answers the
queries of a store as a database of files does.  A history without a file is forgotten when its
connections are given up.  No database on another machine can be reached.
-/

namespace YouthLang

/-- Why a database does not do what it is asked for. -/
inductive Obstacle where
  | misplaced (e : LocationError)
  | unreachable
  | foreign
  /-- The database may only be read. -/
  | sealed
  | noTable
  | duplicate
  | misspelled
  /-- The address names no database. -/
  | noDatabase
  /-- The address names a kind of network without saying where. -/
  | noPlace (network : Text)
  /-- The address has a name without a value. -/
  | noValue (name : Text)
deriving DecidableEq, Repr

namespace Obstacle

/-- The words for the reason. -/
def message : Obstacle → Text
  | .misplaced e => e.message
  | .unreachable => "unable to open database file: out of memory (14)"
  | .foreign => "file is not a database (26)"
  | .sealed => "attempt to write a readonly database (8)"
  | .noTable => "SQL logic error: no such table: youth_runs (1)"
  | .duplicate => "constraint failed: UNIQUE constraint failed: youth_runs.id (1555)"
  | .misspelled => "SQL logic error: syntax error (1)"
  | .noDatabase => "invalid DSN: missing the slash separating the database name"
  | .noPlace network => "default addr for network '" ++ network ++ "' unknown"
  | .noValue name => "missing \"=\" after " ++ name.quoted ++ " in connection info string\""

/-- Whether the reason is seen in the address alone. -/
def isEarly : Obstacle → Bool
  | .noDatabase | .noPlace _ => true
  | _ => false

end Obstacle

/-- The rows of the histories, by path. -/
abbrev Archive := List (Text × List Row)

namespace Archive

/-- Whether a place is in no file. -/
def isTransient (place : Location) : Bool :=
  place.path = [] || place.path = ":memory:" || place.mode = .memory

/-- The path of the file that the history at an address is kept in, if it is kept in one. -/
def keptAt? (address : Text) : Option Text :=
  match Location.ofAddress address with
  | .error _ => none
  | .ok place => if isTransient place then none else some (Path.clean place.path)

/-- The path that the rows at an address are found under. -/
def key (address : Text) : Text := (keptAt? address).getD []

/-- Whether the history at an address may only be read. -/
def isSealed (address : Text) : Bool :=
  match Location.ofAddress address with
  | .error _ => false
  | .ok place => place.mode = .readOnly

/-- The archive with other rows under a path. -/
def put (a : Archive) (path : Text) (rows : List Row) : Archive :=
  (path, rows) :: a.filter (·.1 ≠ path)

variable (fs : Files)

/-! ## Connections -/

/-- Whether a file cannot be opened.  There must be a folder for it, and a file that is not to be created
must be there. -/
def isUnreachable (a : Archive) (place : Location) : Bool :=
  let path := Path.clean place.path
  let isThere := (fs.find path).isOk || (a.lookup path).isSome
  (place.mode ≠ .create && !isThere)
    || match fs.find (Path.folder path), fs.find path with
      | .ok (.folder _), .error .notFound => false
      | .ok (.folder _), .ok (.file _) => false
      | _, _ => true

/-- Why the history at an address cannot be connected to.  What is wrong with late options is noticed only
if the file can be opened at all. -/
def localObstacle? (a : Archive) (address : Text) : Option Obstacle :=
  match Location.ofAddress address with
  | .error e => some (.misplaced e)
  | .ok place =>
    if !isTransient place && isUnreachable fs a place then some .unreachable
    else place.late.map .misplaced

/-- Why no other machine can be asked. -/
def remoteObstacle (dialect : Dialect) (address : Text) : Obstacle :=
  match dialect with
  | .mysql =>
    if !address.contains Path.slash && address ≠ [] then .noDatabase
    else
      let left := (address.reverse.dropWhile (· ≠ Path.slash)).drop 1
      let network := (left.takeWhile (· ≠ 0x40)).reverse
      if network.contains 0x28 || network = [] || network = "tcp" || network = "unix" then .unreachable
      else .noPlace network
  | .postgres =>
    let word := (address.dropWhile Pragma.isSpace).takeWhile fun b => !Pragma.isSpace b
    if address.contains 0x3D || word = [] then .unreachable else .noValue word
  | _ => .unreachable

/-- Why an address cannot be connected to. -/
def obstacle? (a : Archive) (dialect : Dialect) (address : Text) : Option Obstacle :=
  if dialect = .sqlite then localObstacle? fs a address else some (remoteObstacle dialect address)

/-! ## Queries -/

/-- Whether the file at an address is no database. -/
def isForeign (address : Text) : Bool :=
  match (keptAt? address).map fs.find with
  | some (.ok (.file (_ :: _))) => true
  | _ => false

/-- The archive after a statement. -/
def execute (a : Archive) (address query : Text) (values : List Cell) : Except Obstacle Archive :=
  if isForeign fs address then .error .foreign
  else if query = Dialect.createTable (some .sqlite) then
    match a.lookup (key address) with
    | some _ => .ok a
    | none => if isSealed address then .error .sealed else .ok (a.put (key address) [])
  else if query = Query.insertion then
    match a.lookup (key address) with
    | none => .error .noTable
    | some rows =>
      let row := Row.ofCells values
      if isSealed address then .error .sealed
      else if rows.any fun r => r.lookup .id = row.lookup .id then .error .duplicate
      else .ok (a.put (key address) (rows ++ [row]))
  else .error .misspelled

/-- The rows that a question asks for.  Entries of one time are listed in the order they were recorded. -/
def answer (a : Archive) (address query : Text) (values : List Cell) :
    Except Obstacle (List (List Cell)) :=
  if isForeign fs address then .error .foreign
  else match a.lookup (key address) with
  | none => .error .noTable
  | some rows =>
    match values with
    | [v] =>
      if query = Query.byId then .ok ((rows.filter fun r => r.lookup .id = some v).map Row.shown)
      else match v with
      | .integer n =>
        if query = Query.newest .sqlite then
          .ok (((rows.mergeSort fun x y => y.time ≤ x.time).take n.toInt.toNat).map Row.shown)
        else .error .misspelled
      | _ => .error .misspelled
    | _ => .error .misspelled

/-- The databases that can be reached when some files are there; a pool is a kind of database and an
address. -/
def database : Database Archive (Dialect × Text) where
  prepare driver address :=
    match Dialect.ofName? driver with
    | none => .error ("sql: unknown driver " ++ driver.quoted ++ " (forgotten import?)")
    | some dialect =>
      let problem := remoteObstacle dialect address
      if problem.isEarly then .error problem.message else .ok (dialect, address)
  ping pool a :=
    match obstacle? fs a pool.1 pool.2 with
    | some problem => (.error problem.message, a)
    | none => (.ok (), a)
  exec pool query values a :=
    match execute fs a pool.2 query values with
    | .ok a => (.ok (), a)
    | .error problem => (.error problem.message, a)
  query pool query values a := ((answer fs a pool.2 query values).mapError Obstacle.message, a)
  release pool a := if keptAt? pool.2 = none then a.filter (·.1 ≠ []) else a

end Archive

end YouthLang

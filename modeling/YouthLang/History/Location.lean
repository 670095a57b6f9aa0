import YouthLang.History.Pragma
import YouthLang.Path

/-!
# History/Location — where a history is kept

The address of a history is the path of a file, perhaps with a question mark and options behind it.  An
address may also be written with a scheme: then the path may be escaped, and the options tell too how
the file is opened.
-/

namespace YouthLang

/-- How a file is opened. -/
inductive OpenMode where
  | readOnly
  | readWrite
  | create
  | memory
deriving DecidableEq, Repr

/-- Why an address leads nowhere. -/
inductive LocationError where
  | query (e : Percent.QueryError)
  | conflictingSystems (names : List Text)
  /-- The options cannot be understood. -/
  | refused
  /-- An option asks for more than an earlier one allows. -/
  | denied
  | pragma (p : Pragma.Problem)
  | timeFormat (value : Text)
  | lock (value : Text)
deriving DecidableEq, Repr

/-- The words for the reason. -/
def LocationError.message : LocationError → Text
  | .query e => e.message
  | .conflictingSystems names => "conflicting vfs query parameters: [" ++ Text.join " " names ++ "]"
  | .refused => "SQL logic error: out of memory (1)"
  | .denied => "access permission denied: out of memory (3)"
  | .pragma p => "SQL logic error: " ++ p.message ++ " (1)"
  | .timeFormat value => "unknown _time_format " ++ value.quoted
  | .lock value => "unknown _txlock " ++ value.quoted

/-- A file and how it is opened. -/
structure Location where
  path : Text
  mode : OpenMode := .create
  /-- What is wrong with the options that matter only once the file is open. -/
  late : Option LocationError := none
deriving DecidableEq, Repr

namespace Location

/-- The scheme that an address may have. -/
def scheme : Text := "file:"

/-- What ends a text for those who count on an end mark. -/
def cutAtEnd (t : Text) : Text := t.takeWhile (· ≠ 0)

/-! ## Systems -/

/-- The systems that keep files. -/
def systems : List Text := ["unix", "unix-none", "unix-dotfile", "unix-excl"]

/-- The system that keeps files in memory. -/
def memorySystem : Text := "memdb"

/-- The mode under a system of files; no name means the usual one. -/
def underSystem (name : Option Text) (mode : OpenMode) : Except LocationError OpenMode :=
  match name with
  | none => .ok mode
  | some name =>
    if systems.contains name then .ok mode
    else if name = memorySystem then .ok .memory
    else .error .refused

/-- The system that a query asks for; several must be the same. -/
def systemOf (assignments : List (Text × Text)) : Except LocationError (Option Text) :=
  let names := Percent.valuesOf "vfs" assignments
  match names.filter (· ≠ []) with
  | [] => .ok none
  | first :: _ =>
    if (names.dropWhile (· = [])).all (· = first) then .ok (some first)
    else .error (.conflictingSystems names)

/-! ## Addresses with a scheme -/

/-- Escaped bytes put in place; an escape that is none stands for itself, and an escaped end mark ends
the text. -/
def unescape : Text → Text
  | [] => []
  | 0x25 :: x :: y :: rest =>
    match Percent.byte? x y with
    | some b => if b = 0 then [] else b :: unescape rest
    | none => 0x25 :: unescape (x :: y :: rest)
  | b :: rest => b :: unescape rest

/-- What is behind the host in an address with a scheme; only this host can be meant. -/
def behindHost (t : Text) : Except LocationError Text :=
  match t with
  | 0x2F :: 0x2F :: rest =>
    let host := rest.takeWhile (· ≠ Path.slash)
    if host = [] || host = "localhost" then .ok (rest.drop host.length) else .error .refused
  | _ => .ok t

/-- The options behind a question mark; one without a name is left out. -/
def optionsOf (t : Text) : List (Text × Text) :=
  (Text.splitOn 0x26 t).filterMap fun piece =>
    let name := unescape (piece.takeWhile (· ≠ 0x3D))
    if name = [] then none else some (name, unescape ((piece.dropWhile (· ≠ 0x3D)).drop 1))

/-- The modes by name. -/
def modes : List (Text × OpenMode) :=
  [("ro", .readOnly), ("rw", .readWrite), ("rwc", .create), ("memory", .memory)]

/-- Whether a mode may follow another: it must not ask for more. -/
def allows : OpenMode → OpenMode → Bool
  | _, .memory => true
  | .memory, _ => true
  | .create, _ => true
  | .readWrite, mode => mode ≠ .create
  | .readOnly, mode => mode = .readOnly

/-- A mode and a system after one more option. -/
def afterOption (state : OpenMode × Option Text) (option : Text × Text) :
    Except LocationError (OpenMode × Option Text) :=
  let (name, value) := option
  if name = "vfs" then .ok (state.1, some value)
  else if name = "cache" then
    if value = "shared" || value = "private" then .ok state else .error .refused
  else if name = "mode" then
    match modes.lookup value with
    | none => .error .refused
    | some mode => if allows state.1 mode then .ok (mode, state.2) else .error .denied
  else .ok state

/-- The place of an address with a scheme. -/
def ofSchemed (system : Option Text) (t : Text) : Except LocationError Location := do
  let t ← behindHost (t.takeWhile (· ≠ 0x23))
  let path := unescape (t.takeWhile (· ≠ 0x3F))
  let options := optionsOf ((t.dropWhile (· ≠ 0x3F)).drop 1)
  let (mode, system) ← options.foldlM afterOption (.create, system)
  return { path := path, mode := ← underSystem system mode }

/-! ## Addresses -/

/-- The ways to start a transaction. -/
def locks : List Text := ["deferred", "immediate", "exclusive"]

/-- What is wrong with the options that matter once the file is open. -/
def lateProblem? (assignments : List (Text × Text)) : Option LocationError :=
  let first (name : Text) : Text := (Percent.valuesOf name assignments).headD []
  match Pragma.firstProblem? (Percent.valuesOf "_pragma" assignments) with
  | some p => some (.pragma p)
  | none =>
    let format := first "_time_format"
    let lock := first "_txlock"
    if format ≠ [] then if format = "sqlite" then none else some (.timeFormat format)
    else if lock ≠ [] && !locks.contains (Pragma.lower lock) then some (.lock lock)
    else none

/-- The place that an address leads to.  A question mark at the start belongs to the path. -/
def ofAddress (address : Text) : Except LocationError Location := do
  let path := address.takeWhile (· ≠ 0x3F)
  let hasQuery := path ≠ [] && path.length < address.length
  let query := if hasQuery then address.drop (path.length + 1) else []
  let assignments ← (Percent.query query).mapError .query
  let system ← systemOf assignments
  let place ←
    match Text.after? scheme address with
    | some rest => ofSchemed system (cutAtEnd rest)
    | none => do
      let path := cutAtEnd (if hasQuery then path else address)
      pure { path := path, mode := ← underSystem system .create }
  return { place with late := lateProblem? assignments }

end Location

end YouthLang

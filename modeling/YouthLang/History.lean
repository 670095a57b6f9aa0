import YouthLang.History.Archive

/-!
# History — a record of past runs

A history is a store over the databases that can be reached.  It holds an entry for every recorded run,
each under an id of its own, and can be asked for one entry or for the most recent ones; a closed history
refuses everything and keeps its entries.
-/

namespace YouthLang

/-- A history: its store, and what can be reached around it. -/
structure History where
  files : Files
  archive : Archive
  store : Store (Dialect × Text)

/-- The history at an address. -/
def Archive.openHistory (a : Archive) (fs : Files) (driver address : Text) :
    Except OpenError History :=
  match Store.openAt (Archive.database fs) driver address a with
  | (.ok store, a) => .ok ⟨fs, a, store⟩
  | (.error e, _) => .error e

namespace History

variable (h : History)

/-- The databases around a history. -/
def database : Database Archive (Dialect × Text) := Archive.database h.files

/-- The entries in the order they were recorded. -/
def entries : List HistoryEntry :=
  ((h.archive.lookup (Archive.key h.store.connections.2)).getD []).filterMap HistoryEntry.ofRow?

/-- An entry recorded; `id` and `now` are for an entry that has none. -/
def record (id : Text) (now : Int64) (e : HistoryEntry) : Except HistoryError (History × Text) :=
  match h.store.record h.database id now e h.archive with
  | (.ok id, a) => .ok ({ h with archive := a }, id)
  | (.error problem, _) => .error problem

/-- The most recent entries, newest first; a count that is not positive means the usual one. -/
def recent (count : Int64) : Except HistoryError (List HistoryEntry) :=
  (h.store.recent h.database count h.archive).1

/-- The entry with an id. -/
def get (id : Text) : Except HistoryError HistoryEntry := (h.store.get h.database id h.archive).1

/-- The history closed; closing it again changes nothing. -/
def close : History :=
  let (store, a) := h.store.close h.database h.archive
  { h with store := store, archive := a }

end History

end YouthLang

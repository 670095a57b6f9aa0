import Mathlib.Data.List.Nodup
import Mathlib.Data.List.Perm.Basic
import YouthLang.History

/-!
# Proofs/Store — a history is a map with its newest entries in view

What a database does with a query is not the store's affair; a store relies on it to run the queries as
SQL says (`Database.RunsSql`).  Which queries these are is: the table has the columns that the store
creates, a row has the values that it writes, in its order, and the answers have those that it reads, in
its order.  That the three agree is told by `HistoryEntry.fits_row`, `HistoryEntry.shown_row` and
`HistoryEntry.ofCells?_shown`.

An open store works on a file with the rows of some entries, each under an id of its own
(`Store.Works`).  A call leaves it at work (`Store.Works.call`), and so do any calls up to one that closes
it (`Store.Works.after`); what is answered is told from the entries alone (`Store.Serves`).

The databases that the program reaches are such databases (`Archive.runsSql`).
-/

namespace YouthLang

/-! ## Tables -/

/-- The columns of the table that a store creates, with their types and constraints. -/
def createdColumns : List (Column × Text) := Dialect.columns (Dialect.types (some .sqlite))

namespace Row

/-- A value is kept as it is in a column with a type of its class: numbers in one whose type speaks of
`INT`, texts in one whose type speaks of `CHAR` or `TEXT`. -/
def suits (definition : Text) : Cell → Bool
  | .integer _ => Text.has "INT" definition
  | .text _ => Text.has "CHAR" definition || Text.has "TEXT" definition
  | .truth _ => false

/-- A row has a value for every column of the table, of the class of its type, and no others. -/
structure Fits (r : Row) : Prop where
  columns : r.map Prod.fst ⊆ createdColumns.map Prod.fst
  values : ∀ c ∈ createdColumns, ∃ v, r.lookup c.1 = some v ∧ suits c.2 v = true

/-- A column is the primary key. -/
def IsKey (c : Column) : Prop :=
  ∃ definition, (c, definition) ∈ createdColumns ∧ Text.ofString " PRIMARY KEY" <:+ definition

/-- A row has the primary key of another one. -/
def Clashes (r : Row) (rows : List Row) : Prop :=
  ∃ c, IsKey c ∧ ∃ x ∈ rows, x.lookup c = r.lookup c

end Row

namespace Database

variable {σ κ : Type}

/-- A way to look at a database from outside: the rows of the table in the file at an address, whether a
pool has connections to it, and whether it can be opened and written. -/
structure View (σ κ : Type) where
  rows : σ → Text → Option (List Row)
  reaches : σ → κ → Text → Prop
  writable : σ → Text → Prop

/-- A pool has connections to a file that can be written, and the table there has some rows. -/
structure View.Shows (v : View σ κ) (w : σ) (pool : κ) (address : Text) (rows : List Row) : Prop where
  reaches : v.reaches w pool address
  writable : v.writable w address
  rows : v.rows w address = some rows

/-- **What a store relies on**: the database is one of SQLite, as seen in some way. -/
structure RunsSql (db : Database σ κ) (v : View σ κ) : Prop where
  /-- A file that can be opened and written is connected to; that changes no table. -/
  connects : ∀ {w address}, v.writable w address → ∃ pool w', db.prepare "sqlite" address = .ok pool
    ∧ db.ping pool w = (.ok (), w') ∧ v.reaches w' pool address ∧ v.writable w' address
    ∧ v.rows w' address = v.rows w address
  /-- `CREATE TABLE IF NOT EXISTS` makes an empty table unless there is one. -/
  creates : ∀ {w pool address}, v.reaches w pool address → v.writable w address → ∃ w',
    db.exec pool (Dialect.createTable (some .sqlite)) [] w = (.ok (), w')
      ∧ v.Shows w' pool address ((v.rows w address).getD [])
  /-- `INSERT` adds a row with the values in the columns that it names, in no special place. -/
  inserts : ∀ {w pool address rows values}, v.Shows w pool address rows →
    values.length = HistoryEntry.writtenColumns.length → (Row.ofCells values).Fits →
    ¬(Row.ofCells values).Clashes rows → ∃ w' rows',
      db.exec pool Query.insertion values w = (.ok (), w') ∧ v.Shows w' pool address rows'
        ∧ rows'.Perm (Row.ofCells values :: rows)
  /-- `PRIMARY KEY`: a row with the key of another one is refused, and nothing is changed. -/
  refuses : ∀ {w pool address rows values}, v.Shows w pool address rows →
    values.length = HistoryEntry.writtenColumns.length → (Row.ofCells values).Fits →
    (Row.ofCells values).Clashes rows → ∃ problem w',
      db.exec pool Query.insertion values w = (.error problem, w') ∧ v.Shows w' pool address rows
  /-- `WHERE id = ?` selects the rows with an id, in some order, and changes nothing. -/
  selects : ∀ {w pool address rows} (id : Text), v.Shows w pool address rows →
    HistoryEntry.readColumns ⊆ createdColumns.map Prod.fst → ∃ found w',
    db.query pool Query.byId [.text id] w = (.ok found, w') ∧ v.Shows w' pool address rows
      ∧ found.Perm ((rows.filter (Row.hasId id)).map Row.shown)
  /-- `ORDER BY created_at DESC LIMIT ?` takes the first rows of all, sorted in some way. -/
  sorts : ∀ {w pool address rows n}, v.Shows w pool address rows →
    HistoryEntry.readColumns ⊆ createdColumns.map Prod.fst → 0 < n →
    ∃ (sorted : List Row) (w' : σ),
    db.query pool (Query.newest .sqlite) [.integer n] w
        = (.ok ((sorted.take n.toInt.toNat).map Row.shown), w')
      ∧ v.Shows w' pool address rows ∧ sorted.Perm rows
      ∧ sorted.Pairwise fun x y => Row.time y ≤ Row.time x
  /-- What is in a file stays there when the connections are given up. -/
  releases : ∀ {w pool address rows}, v.Shows w pool address rows →
    v.writable (db.release pool w) address ∧ v.rows (db.release pool w) address = some rows

end Database

/-! ## Entries and their rows -/

namespace HistoryEntry

variable {e : HistoryEntry} {entries : List HistoryEntry}

/-- An entry that has an id and a time of its own. -/
def IsGiven (e : HistoryEntry) : Prop := e.id ≠ [] ∧ e.createdAt.isSome

theorem stamped_of_isGiven (h : e.IsGiven) (id : Text) (now : Int64) : e.stamped id now = e := by
  obtain ⟨hid, htime⟩ := h
  obtain ⟨t, ht⟩ := Option.isSome_iff_exists.mp htime
  cases e
  simp_all [stamped]

/-- **The columns are read in the order in which they are written.** -/
theorem shown_row (e : HistoryEntry) : e.row.shown = e.cells.map Cell.stored := rfl

/-- **What is written is read back**, field for field. -/
theorem ofCells?_shown (h : e.createdAt.isSome) : ofCells? e.row.shown = some e := by
  obtain ⟨id, origin, source, output, hadStaticError, hadRuntimeError, errorText, createdAt⟩ := e
  obtain ⟨t, rfl⟩ := Option.isSome_iff_exists.mp h
  cases hadStaticError <;> cases hadRuntimeError <;> rfl

@[simp] theorem lookup_id_row (e : HistoryEntry) : e.row.lookup .id = some (.text e.id) := rfl

@[simp] theorem hasId_row (e : HistoryEntry) (id : Text) :
    Row.hasId id e.row = decide (e.id = id) := by
  simp [Row.hasId]

@[simp] theorem time_row (e : HistoryEntry) : e.row.time = e.time := rfl

/-- **The columns that are written are those of the table**, and every one gets a value of its class. -/
theorem fits_row (e : HistoryEntry) : e.row.Fits where
  columns := (by decide : writtenColumns ⊆ createdColumns.map Prod.fst)
  values := by
    intro c hc
    simp only [createdColumns, Dialect.columns, Dialect.types, List.mem_cons, List.not_mem_nil,
      or_false] at hc
    obtain rfl | rfl | rfl | rfl | rfl | rfl | rfl | rfl := hc
    all_goals exact ⟨_, rfl, rfl⟩

/-- The columns that are read are columns of the table. -/
theorem readColumns_subset : readColumns ⊆ createdColumns.map Prod.fst := by decide

end HistoryEntry

namespace Row

/-- The table has one key, the id. -/
theorem isKey_iff {c : Column} : IsKey c ↔ c = .id := by
  have hall : ∀ column ∈ createdColumns,
      (Text.ofString " PRIMARY KEY" <:+ column.2 ↔ column.1 = .id) := by decide
  constructor
  · rintro ⟨definition, hmem, hkey⟩
    exact (hall _ hmem).mp hkey
  · rintro rfl
    exact ⟨_, List.mem_cons_self, (hall _ List.mem_cons_self).mpr rfl⟩

/-- An entry's row clashes with those of others exactly if one of them has its id. -/
theorem clashes_iff {e : HistoryEntry} {entries : List HistoryEntry} {rows : List Row}
    (hrows : rows.Perm (entries.map HistoryEntry.row)) :
    e.row.Clashes rows ↔ ∃ x ∈ entries, x.id = e.id := by
  simp only [Clashes, isKey_iff, exists_eq_left, hrows.mem_iff, List.mem_map,
    exists_exists_and_eq_and, HistoryEntry.lookup_id_row, Option.some.injEq, Cell.text.injEq]

end Row

/-! ## Kept entries -/

/-- Entries as they are kept: each with an id of its own, and a time. -/
structure Kept (entries : List HistoryEntry) : Prop where
  ids : (entries.map HistoryEntry.id).Nodup
  times : ∀ e ∈ entries, e.createdAt.isSome

namespace Kept

variable {e : HistoryEntry} {entries : List HistoryEntry}

theorem nil : Kept [] := ⟨List.nodup_nil, nofun⟩

theorem append (h : Kept entries) (htime : e.createdAt.isSome) (hunused : ∀ x ∈ entries, x.id ≠ e.id) :
    Kept (entries ++ [e]) where
  ids := by
    rw [List.map_append, List.map_singleton]
    refine List.nodup_append'.mpr ⟨h.ids, List.nodup_singleton _, ?_⟩
    simpa [List.disjoint_singleton] using hunused
  times := by simpa [or_imp, forall_and] using ⟨h.times, htime⟩

/-- The entries are told apart by their ids. -/
theorem eq_of_id {x : HistoryEntry} (h : Kept entries) (he : e ∈ entries) (hx : x ∈ entries)
    (hid : x.id = e.id) : x = e :=
  List.inj_on_of_nodup_map h.ids hx he hid

/-- No two entries are found under one id. -/
theorem filter_of_mem (h : Kept entries) (he : e ∈ entries) :
    entries.filter (fun x => x.id = e.id) = [e] := by
  have hnodup : (entries.filter fun x => x.id = e.id).Nodup := (List.Nodup.of_map _ h.ids).filter _
  have hall : ∀ x, x ∈ entries.filter (fun x => x.id = e.id) ↔ x ∈ [e] := by
    intro x
    rw [List.mem_filter, List.mem_singleton]
    exact ⟨fun ⟨hx, hid⟩ => h.eq_of_id he hx (by simpa using hid), fun hx => by simp [hx, he]⟩
  exact List.perm_singleton.mp ((List.perm_ext_iff_of_nodup hnodup (List.nodup_singleton e)).mpr hall)

end Kept

/-- The number of entries that are listed when some number is asked for. -/
def listedCount (count : Int64) : Nat := if 0 < count then count.toInt.toNat else 20

/-- Entries as they are listed: as many as asked for, newest first, and none that is newer left out. -/
structure Lists (entries : List HistoryEntry) (count : Int64) (listed : List HistoryEntry) : Prop where
  length : listed.length = min (listedCount count) entries.length
  distinct : (listed.map HistoryEntry.id).Nodup
  held : ∀ e ∈ listed, e ∈ entries
  newestFirst : listed.Pairwise fun a b => b.time ≤ a.time
  noneNewer : ∀ e ∈ entries, e ∉ listed → ∀ x ∈ listed, e.time ≤ x.time

/-- The first entries are listed, in whatever way the entries are sorted. -/
theorem lists_take {entries sorted : List HistoryEntry} (hkept : Kept entries)
    (hperm : sorted.Perm entries) (hsorted : sorted.Pairwise fun a b => b.time ≤ a.time)
    (count : Int64) : Lists entries count (sorted.take (listedCount count)) where
  length := by rw [List.length_take, hperm.length_eq]
  distinct := ((hperm.map _).nodup_iff.mpr hkept.ids).sublist ((List.take_sublist _ _).map _)
  held e he := hperm.subset (List.mem_of_mem_take he)
  newestFirst := hsorted.sublist (List.take_sublist _ _)
  noneNewer e he hnot x hx := by
    have hparts := List.take_append_drop (listedCount count) sorted
    have hmem := hperm.symm.subset he
    rw [← hparts, List.mem_append] at hmem
    rw [← hparts] at hsorted
    exact (List.pairwise_append.mp hsorted).2.2 x hx e (hmem.resolve_left hnot)

/-- Rows that are those of some entries, in whatever order. -/
theorem exists_entries {entries : List HistoryEntry} {rows : List Row}
    (h : rows.Perm (entries.map HistoryEntry.row)) :
    ∃ es : List HistoryEntry, rows = es.map HistoryEntry.row ∧ es.Perm entries :=
  (congrFun (congrFun (List.eq_map_comp_perm HistoryEntry.row) rows) entries).mpr h

/-- The rows of entries with times are read back. -/
theorem mapM_ofCells? {entries : List HistoryEntry} (htimes : ∀ e ∈ entries, e.createdAt.isSome) :
    ((entries.map HistoryEntry.row).map Row.shown).mapM HistoryEntry.ofCells? = some entries := by
  induction entries with
  | nil => rfl
  | cons e rest ih =>
    rw [List.map_cons, List.map_cons, List.mapM_cons,
      HistoryEntry.ofCells?_shown (htimes e (.head _)), ih fun x hx => htimes x (.tail _ hx)]
    rfl

/-! ## A store at work -/

variable {σ κ : Type} {db : Database σ κ} {v : Database.View σ κ} {w w' : σ}
  {driver address : Text} {rows : List Row} {e : HistoryEntry} {entries : List HistoryEntry}

/-- The file at an address can be written, and its table has the rows of some entries, in any order. -/
structure Database.View.Holds (v : Database.View σ κ) (w : σ) (address : Text)
    (entries : List HistoryEntry) : Prop where
  writable : v.writable w address
  rows : ∃ rows, v.rows w address = some rows ∧ rows.Perm (entries.map HistoryEntry.row)

namespace Store

variable {s : Store κ}

/-- An open store is connected to a file that holds some entries. -/
structure Works (v : Database.View σ κ) (address : Text) (s : Store κ) (w : σ)
    (entries : List HistoryEntry) : Prop where
  isOpen : s.isOpen = true
  dialect : s.dialect = .sqlite
  reaches : v.reaches w s.connections address
  holds : v.Holds w address entries
  kept : Kept entries

theorem Works.shows (h : s.Works v address w entries) :
    ∃ rows, v.Shows w s.connections address rows ∧ rows.Perm (entries.map HistoryEntry.row) := by
  obtain ⟨rows, hrows, hperm⟩ := h.holds.rows
  exact ⟨rows, ⟨h.reaches, h.holds.writable, hrows⟩, hperm⟩

/-- The store goes on with what the database shows afterwards. -/
theorem Works.next {more : List HistoryEntry} (h : s.Works v address w entries)
    (hshows : v.Shows w' s.connections address rows) (hperm : rows.Perm (more.map HistoryEntry.row))
    (hkept : Kept more) : s.Works v address w' more where
  isOpen := h.isOpen
  dialect := h.dialect
  reaches := hshows.reaches
  holds := ⟨hshows.writable, rows, hshows.rows, hperm⟩
  kept := hkept

/-- A store for SQLite asks as it is asked. -/
theorem Works.exec_eq (db : Database σ κ) (h : s.Works v address w entries) (query : Text)
    (values : List Cell) :
    s.exec db query values w
      = ((db.exec s.connections query values w).1.mapError .refused,
        (db.exec s.connections query values w).2) := by
  rw [exec, if_pos h.isOpen, h.dialect]
  rfl

theorem Works.query_eq (db : Database σ κ) (h : s.Works v address w entries) (query : Text)
    (values : List Cell) :
    s.query db query values w
      = ((db.query s.connections query values w).1.mapError .refused,
        (db.query s.connections query values w).2) := by
  rw [Store.query, if_pos h.isOpen, h.dialect]
  rfl

variable (hsql : db.RunsSql v)

include hsql

/-- A store is opened with the entries that the file holds. -/
theorem openAt_works (hdriver : Dialect.ofName? driver = some .sqlite) (hfile : v.writable w address)
    (hrows : ((v.rows w address).getD []).Perm (entries.map HistoryEntry.row)) (hkept : Kept entries) :
    ∃ s w', openAt db driver address w = (.ok s, w') ∧ s.Works v address w' entries := by
  obtain ⟨pool, w₁, hprepare, hping, hreaches, hwritable, hsame⟩ := hsql.connects hfile
  obtain ⟨w₂, hexec, hshows⟩ := hsql.creates hreaches hwritable
  rw [hsame] at hshows
  refine ⟨{ connections := pool, dialect := .sqlite }, w₂, ?_, rfl, rfl, hshows.reaches,
    ⟨hshows.writable, _, hshows.rows, hrows⟩, hkept⟩
  have hname : Dialect.sqlite.driverName = "sqlite" := rfl
  simp only [openAt, hdriver, hname, hprepare, hping, hexec]

/-- An entry with an unused id is added. -/
theorem Works.record_unused (h : s.Works v address w entries) (hgiven : e.IsGiven)
    (hunused : ∀ x ∈ entries, x.id ≠ e.id) (id : Text) (now : Int64) :
    ∃ w', s.record db id now e w = (.ok e.id, w') ∧ s.Works v address w' (entries ++ [e]) := by
  obtain ⟨rows, hshows, hperm⟩ := h.shows
  have hclash : ¬e.row.Clashes rows := by
    rw [Row.clashes_iff hperm]
    exact fun ⟨x, hx, hid⟩ => hunused x hx hid
  obtain ⟨w', rows', hexec, hshows', hperm'⟩ := hsql.inserts hshows rfl e.fits_row hclash
  have hmore : rows'.Perm ((entries ++ [e]).map HistoryEntry.row) := by
    rw [List.map_append]
    exact hperm'.trans ((hperm.cons _).trans (List.perm_append_singleton _ _).symm)
  refine ⟨w', ?_, h.next hshows' hmore (h.kept.append hgiven.2 hunused)⟩
  rw [record, HistoryEntry.stamped_of_isGiven hgiven, h.exec_eq, hexec]
  rfl

/-- An entry with a used id is refused, and nothing is changed. -/
theorem Works.record_used (h : s.Works v address w entries) (hgiven : e.IsGiven)
    (hused : ∃ x ∈ entries, x.id = e.id) (id : Text) (now : Int64) :
    ∃ problem w', s.record db id now e w = (.error (.refused problem), w')
      ∧ s.Works v address w' entries := by
  obtain ⟨rows, hshows, hperm⟩ := h.shows
  obtain ⟨problem, w', hexec, hshows'⟩ :=
    hsql.refuses hshows rfl e.fits_row ((Row.clashes_iff hperm).mpr hused)
  refine ⟨problem, w', ?_, h.next hshows' hperm h.kept⟩
  rw [record, HistoryEntry.stamped_of_isGiven hgiven, h.exec_eq, hexec]
  rfl

/-- The answer to a question for an id has the rows of the entries with that id. -/
theorem Works.query_byId (h : s.Works v address w entries) (id : Text) : ∃ found w',
    s.query db Query.byId [.text id] w = (.ok found, w') ∧ s.Works v address w' entries
      ∧ found.Perm ((entries.filter fun x => x.id = id).map (Row.shown ∘ HistoryEntry.row)) := by
  obtain ⟨rows, hshows, hperm⟩ := h.shows
  obtain ⟨found, w', hquery, hshows', hfound⟩ :=
    hsql.selects id hshows HistoryEntry.readColumns_subset
  have hid : Row.hasId id ∘ HistoryEntry.row = fun x : HistoryEntry => decide (x.id = id) :=
    funext fun x => x.hasId_row id
  have hrows := ((hperm.filter (Row.hasId id)).map Row.shown)
  rw [List.filter_map, List.map_map, hid] at hrows
  exact ⟨found, w', by rw [h.query_eq, hquery]; rfl, h.next hshows' hperm h.kept, hfound.trans hrows⟩

/-- An entry that is held is found under its id. -/
theorem Works.get_of_mem (h : s.Works v address w entries) (he : e ∈ entries) :
    ∃ w', s.get db e.id w = (.ok e, w') ∧ s.Works v address w' entries := by
  obtain ⟨found, w', hquery, hworks, hfound⟩ := h.query_byId hsql e.id
  rw [h.kept.filter_of_mem he, List.map_singleton, List.perm_singleton] at hfound
  subst hfound
  refine ⟨w', ?_, hworks⟩
  simp only [get, hquery, Function.comp_apply, HistoryEntry.ofCells?_shown (h.kept.times e he)]

/-- Nothing is found under an id that no entry has. -/
theorem Works.get_unused {id : Text} (h : s.Works v address w entries)
    (hunused : ∀ x ∈ entries, x.id ≠ id) :
    ∃ w', s.get db id w = (.error .absent, w') ∧ s.Works v address w' entries := by
  obtain ⟨found, w', hquery, hworks, hfound⟩ := h.query_byId hsql id
  have hnone : entries.filter (fun x => x.id = id) = [] :=
    List.filter_eq_nil_iff.mpr fun x hx => by simpa using hunused x hx
  rw [hnone, List.map_nil, List.perm_nil] at hfound
  subst hfound
  exact ⟨w', by simp only [get, hquery], hworks⟩

/-- The most recent entries are listed. -/
theorem Works.recent_lists (h : s.Works v address w entries) (count : Int64) :
    ∃ listed w', s.recent db count w = (.ok listed, w') ∧ Lists entries count listed
      ∧ s.Works v address w' entries := by
  obtain ⟨rows, hshows, hperm⟩ := h.shows
  -- The number that is asked for is positive, whatever the caller's.
  obtain ⟨n, hn, hpos, hcount⟩ : ∃ n : Int64, (if count ≤ 0 then usualCount else count) = n ∧ 0 < n
      ∧ n.toInt.toNat = listedCount count := by
    by_cases hle : count ≤ 0
    · refine ⟨usualCount, if_pos hle, by decide, ?_⟩
      rw [listedCount, if_neg (Int64.not_lt.mpr hle)]
      rfl
    · have hlt : 0 < count := Int64.not_le.mp hle
      exact ⟨count, if_neg hle, hlt, by rw [listedCount, if_pos hlt]⟩
  obtain ⟨sorted, w', hquery, hshows', hsame, hsorted⟩ :=
    hsql.sorts hshows HistoryEntry.readColumns_subset hpos
  obtain ⟨es, rfl, hes⟩ := exists_entries (hsame.trans hperm)
  have hlists : Lists entries count (es.take (listedCount count)) :=
    lists_take h.kept hes (by simpa [List.pairwise_map] using hsorted) count
  have hread := mapM_ofCells? fun e he => h.kept.times e (hlists.held e he)
  rw [List.map_take] at hread
  refine ⟨es.take (listedCount count), w', ?_, hlists, h.next hshows' hperm h.kept⟩
  have hanswer := h.query_eq db (Query.newest .sqlite) [.integer n]
  rw [hquery] at hanswer
  simp only [recent, hn, h.dialect, hanswer, Except.mapError, hcount, hread]

/-- What is held stays in the file when the store is closed. -/
theorem Works.close_holds (h : s.Works v address w entries) :
    (s.close db w).1.isOpen = false ∧ v.Holds (s.close db w).2 address entries := by
  obtain ⟨rows, hshows, hperm⟩ := h.shows
  obtain ⟨hwritable, hrows⟩ := hsql.releases hshows
  rw [close, if_pos h.isOpen]
  exact ⟨rfl, hwritable, rows, hrows, hperm⟩

omit hsql

/-! ## Calls -/

/-- What a store can be asked for. -/
inductive Call where
  | record (e : HistoryEntry)
  | get (id : Text)
  | recent (count : Int64)
  | close
deriving DecidableEq

variable (db) in
/-- A store and the world around it after a call. -/
def call (now : Store κ × σ) : Call → Store κ × σ
  | .record e => (now.1, (now.1.record db e.id (e.createdAt.getD 0) e now.2).2)
  | .get id => (now.1, (now.1.get db id now.2).2)
  | .recent count => (now.1, (now.1.recent db count now.2).2)
  | .close => now.1.close db now.2

variable (db) in
/-- A store and the world around it after calls. -/
def after (now : Store κ × σ) (calls : List Call) : Store κ × σ := calls.foldl (call db) now

/-- The entry that a call adds when some ids are used. -/
def addedBy (used : List Text) : Call → List HistoryEntry
  | .record e => if e.id ∈ used then [] else [e]
  | .get _ | .recent _ | .close => []

/-- The entries that calls record when some ids are used: up to the first call to close, the first
entry under each id that is not used yet. -/
def recordedBy (used : List Text) : List Call → List HistoryEntry
  | [] => []
  | c :: rest =>
    if c = .close then []
    else addedBy used c ++ recordedBy (used ++ (addedBy used c).map HistoryEntry.id) rest

include hsql in
/-- **One call leaves an open store at work**, with the entry that it has added. -/
theorem Works.call {c : Call} (h : s.Works v address w entries) (hclose : c ≠ .close)
    (hgiven : ∀ e, c = .record e → e.IsGiven) : ∃ w', Store.call db (s, w) c = (s, w')
      ∧ s.Works v address w' (entries ++ addedBy (entries.map HistoryEntry.id) c) := by
  cases c with
  | record e =>
    rw [addedBy]
    split
    next hused =>
      obtain ⟨problem, w', hrecord, hworks⟩ :=
        h.record_used hsql (hgiven e rfl) (List.mem_map.mp hused) e.id (e.createdAt.getD 0)
      exact ⟨w', by rw [Store.call, hrecord], by rwa [List.append_nil]⟩
    next hunused =>
      obtain ⟨w', hrecord, hworks⟩ := h.record_unused hsql (hgiven e rfl)
        (fun x hx hid => hunused (List.mem_map.mpr ⟨x, hx, hid⟩)) e.id (e.createdAt.getD 0)
      exact ⟨w', by rw [Store.call, hrecord], hworks⟩
  | get id =>
    rw [addedBy, List.append_nil]
    by_cases hused : ∃ x ∈ entries, x.id = id
    · obtain ⟨x, hx, rfl⟩ := hused
      obtain ⟨w', hget, hworks⟩ := h.get_of_mem hsql hx
      exact ⟨w', by rw [Store.call, hget], hworks⟩
    · obtain ⟨w', hget, hworks⟩ := h.get_unused hsql fun x hx hid => hused ⟨x, hx, hid⟩
      exact ⟨w', by rw [Store.call, hget], hworks⟩
  | recent count =>
    rw [addedBy, List.append_nil]
    obtain ⟨listed, w', hrecent, -, hworks⟩ := h.recent_lists hsql count
    exact ⟨w', by rw [Store.call, hrecent], hworks⟩
  | close => exact absurd rfl hclose

/-- A closed store is left as it is, and so is the world around it. -/
theorem after_of_closed (hclosed : s.isOpen = false) (calls : List Call) :
    after db (s, w) calls = (s, w) := by
  induction calls with
  | nil => rfl
  | cons c rest ih =>
    have hcall : Store.call db (s, w) c = (s, w) := by
      cases c <;> simp [Store.call, record, get, recent, close, exec, Store.query, hclosed]
    rw [after, List.foldl_cons, hcall]
    exact ih

include hsql in
/-- **After any calls the file holds what they have recorded**, and the store is at work unless it was
closed. -/
theorem Works.after (calls : List Call) : ∀ {w : σ} {entries : List HistoryEntry},
    s.Works v address w entries → (∀ e, .record e ∈ calls → e.IsGiven) →
    let held := entries ++ recordedBy (entries.map HistoryEntry.id) calls
    let now := Store.after db (s, w) calls
    Kept held ∧ if .close ∈ calls then now.1.isOpen = false ∧ v.Holds now.2 address held
      else now.1.Works v address now.2 held := by
  induction calls with
  | nil =>
    intro w entries h _
    simpa [recordedBy, Store.after] using ⟨h.kept, h⟩
  | cons c rest ih =>
    intro w entries h hgiven
    by_cases hclose : c = .close
    · subst hclose
      obtain ⟨hclosed, hholds⟩ := h.close_holds hsql
      have hafter : Store.after db (s, w) (.close :: rest) = s.close db w :=
        after_of_closed hclosed rest
      simpa [recordedBy, hafter] using ⟨h.kept, hclosed, hholds⟩
    · obtain ⟨w', hcall, h'⟩ := h.call hsql hclose fun e he => hgiven e (he ▸ .head _)
      have hafter : Store.after db (s, w) (c :: rest) = Store.after db (s, w') rest := by
        rw [Store.after, List.foldl_cons, hcall]
        rfl
      have hrest := ih h' fun e he => hgiven e (.tail _ he)
      simpa [recordedBy, hclose, hafter, Ne.symm hclose, List.append_assoc] using hrest

/-! ## Answers -/

/-- An open store at a file with some entries: it adds an entry with an unused id and refuses one with a
used id, finds its entries under their ids, and lists the newest. -/
structure Serves (db : Database σ κ) (v : Database.View σ κ) (address : Text) (s : Store κ) (w : σ)
    (entries : List HistoryEntry) : Prop where
  holds : v.Holds w address entries
  add : ∀ e : HistoryEntry, e.IsGiven → (∀ x ∈ entries, x.id ≠ e.id) → ∀ id now,
    ∃ w', s.record db id now e w = (.ok e.id, w') ∧ v.Holds w' address (entries ++ [e])
  used : ∀ e : HistoryEntry, e.IsGiven → (∃ x ∈ entries, x.id = e.id) → ∀ id now,
    ∃ problem w', s.record db id now e w = (.error (.refused problem), w') ∧ v.Holds w' address entries
  get : ∀ e ∈ entries, ∃ w', s.get db e.id w = (.ok e, w') ∧ v.Holds w' address entries
  absent : ∀ id, (s.get db id w).1 = .error .absent ↔ ∀ x ∈ entries, x.id ≠ id
  recent : ∀ count, ∃ listed w',
    s.recent db count w = (.ok listed, w') ∧ Lists entries count listed ∧ v.Holds w' address entries

/-- A closed store at a file with some entries: it refuses every call, and the entries are still
there. -/
structure Refuses (db : Database σ κ) (v : Database.View σ κ) (address : Text) (s : Store κ) (w : σ)
    (entries : List HistoryEntry) : Prop where
  holds : v.Holds w address entries
  record : ∀ id now e, s.record db id now e w = (.error .closed, w)
  get : ∀ id, s.get db id w = (.error .closed, w)
  recent : ∀ count, s.recent db count w = (.error .closed, w)

include hsql in
theorem Works.serves (h : s.Works v address w entries) : s.Serves db v address w entries where
  holds := h.holds
  add e hgiven hunused id now := by
    obtain ⟨w', hrecord, hworks⟩ := h.record_unused hsql hgiven hunused id now
    exact ⟨w', hrecord, hworks.holds⟩
  used e hgiven hused id now := by
    obtain ⟨problem, w', hrecord, hworks⟩ := h.record_used hsql hgiven hused id now
    exact ⟨problem, w', hrecord, hworks.holds⟩
  get e he := by
    obtain ⟨w', hget, hworks⟩ := h.get_of_mem hsql he
    exact ⟨w', hget, hworks.holds⟩
  absent id := by
    constructor
    · rintro habsent x hx rfl
      obtain ⟨w', hget, -⟩ := h.get_of_mem hsql hx
      rw [hget] at habsent
      cases habsent
    · intro hunused
      obtain ⟨w', hget, -⟩ := h.get_unused hsql hunused
      rw [hget]
  recent count := by
    obtain ⟨listed, w', hrecent, hlists, hworks⟩ := h.recent_lists hsql count
    exact ⟨listed, w', hrecent, hlists, hworks.holds⟩

theorem refuses_of_closed (hclosed : s.isOpen = false) (hholds : v.Holds w address entries) :
    s.Refuses db v address w entries where
  holds := hholds
  record id now e := by simp [Store.record, exec, hclosed]
  get id := by simp [Store.get, Store.query, hclosed]
  recent count := by simp [Store.recent, Store.query, hclosed]

end Store

/-! ## The databases of the program -/

namespace Archive

variable {a : Archive} {fs : Files} {address : Text} {rows : List Row}

/-- An archive, looked at from outside. -/
def view (fs : Files) : Database.View Archive (Dialect × Text) where
  rows a address := a.lookup (key address)
  reaches _ pool address := pool = (.sqlite, address)
  writable a address := (keptAt? address).isSome ∧ localObstacle? fs a address = none
    ∧ isSealed address = false ∧ isForeign fs address = false

variable {pool : Dialect × Text}

@[simp] theorem lookup_put (a : Archive) (path : Text) (rows : List Row) :
    (a.put path rows).lookup path = some rows := by
  simp [put]

/-- A file that is kept has a place of its own. -/
theorem place_of_kept (h : (keptAt? address).isSome) : ∃ place,
    Location.ofAddress address = .ok place ∧ isTransient place = false
      ∧ key address = Path.clean place.path := by
  rw [keptAt?] at h
  cases hplace : Location.ofAddress address with
  | error e => simp [hplace] at h
  | ok place =>
    have htransient : isTransient place = false := by simpa [hplace] using h
    exact ⟨place, rfl, htransient, by simp [key, keptAt?, hplace, htransient]⟩

/-- A file that is written can still be opened and written. -/
theorem writable_put (h : (view fs).writable a address) (rows : List Row) :
    (view fs).writable (a.put (key address) rows) address := by
  obtain ⟨hkept, hlocal, hsealed, hforeign⟩ := h
  refine ⟨hkept, ?_, hsealed, hforeign⟩
  obtain ⟨place, hplace, htransient, hkey⟩ := place_of_kept hkept
  simp only [localObstacle?, hplace, htransient, Bool.not_false, Bool.true_and] at hlocal ⊢
  cases hunreachable : isUnreachable fs a place with
  | true => simp [hunreachable] at hlocal
  | false =>
    rw [hunreachable] at hlocal
    have hstill : isUnreachable fs (a.put (key address) rows) place = false := by
      simp only [isUnreachable, Bool.or_eq_false_iff] at hunreachable ⊢
      rw [hkey, lookup_put]
      exact ⟨by simp, hunreachable.2⟩
    rw [hstill]
    exact hlocal

/-- A table that is written is shown. -/
theorem shows_put (hreaches : (view fs).reaches a pool address) (h : (view fs).writable a address)
    (rows : List Row) : (view fs).Shows (a.put (key address) rows) pool address rows :=
  ⟨hreaches, writable_put h rows, lookup_put _ _ _⟩

/-- What is shown is in a file that can be looked into. -/
theorem isForeign_of_shows (h : (view fs).Shows a pool address rows) : isForeign fs address = false :=
  h.writable.2.2.2

/-- A statement with the values of a row is carried out unless the table has the key. -/
theorem execute_insertion (h : (view fs).Shows a pool address rows) (values : List Cell) :
    execute fs a address Query.insertion values
      = if rows.any fun r => r.lookup .id = (Row.ofCells values).lookup .id then .error .duplicate
        else .ok (a.put (key address) (rows ++ [Row.ofCells values])) := by
  have hother : Query.insertion ≠ Dialect.createTable (some .sqlite) := by decide +kernel
  have hrows : a.lookup (key address) = some rows := h.rows
  have hsealed : isSealed address = false := h.writable.2.2.1
  simp [execute, isForeign_of_shows h, hother, hrows, hsealed]

/-- A row is refused exactly if its key is taken. -/
theorem any_id_iff (r : Row) (rows : List Row) :
    (rows.any fun x => x.lookup .id = r.lookup .id) = true ↔ r.Clashes rows := by
  simp [Row.Clashes, Row.isKey_iff]

/-- **The databases of the program run the queries of a store as SQL says.** -/
theorem runsSql (fs : Files) : (database fs).RunsSql (view fs) where
  connects {a address} h := by
    refine ⟨(.sqlite, address), a, rfl, ?_, rfl, h, rfl⟩
    simp [database, obstacle?, h.2.1]
  -- A table is made once; a second time the statement changes nothing.
  creates {a pool address} hreaches h := by
    obtain rfl : pool = (.sqlite, address) := hreaches
    have ⟨_, _, hsealed, hforeign⟩ := h
    cases hrows : a.lookup (key address) with
    | none =>
      refine ⟨a.put (key address) [], ?_, ?_⟩
      · simp [database, execute, hforeign, hrows, hsealed]
      · simpa [view, hrows] using shows_put rfl h []
    | some rows =>
      refine ⟨a, ?_, rfl, h, ?_⟩
      · simp [database, execute, hforeign, hrows]
      · simp [view, hrows]
  -- With no row of this id the new row goes behind the others.
  inserts {a pool address rows values} h _ _ hclash := by
    obtain rfl : pool = (.sqlite, address) := h.reaches
    refine ⟨_, rows ++ [Row.ofCells values], ?_, shows_put rfl h.writable _,
      List.perm_append_singleton _ _⟩
    have hexec := execute_insertion h values
    rw [if_neg (by rwa [any_id_iff])] at hexec
    simp only [database, hexec]
  refuses {a pool address rows values} h _ _ hclash := by
    obtain rfl : pool = (.sqlite, address) := h.reaches
    refine ⟨Obstacle.duplicate.message, a, ?_, h⟩
    have hexec := execute_insertion h values
    rw [if_pos (by rwa [any_id_iff])] at hexec
    simp only [database, hexec]
  selects {a pool address rows} id h _ := by
    obtain rfl : pool = (.sqlite, address) := h.reaches
    have hrows : a.lookup (key address) = some rows := h.rows
    refine ⟨(rows.filter (Row.hasId id)).map Row.shown, a, ?_, h, .refl _⟩
    have hid : Row.hasId id = fun r => decide (r.lookup .id = some (.text id)) := rfl
    simp [database, answer, isForeign_of_shows h, hrows, Except.mapError, hid]
  -- The rows are sorted by their time, which is a total order on 64-bit numbers.
  sorts {a pool address rows n} h _ _ := by
    obtain rfl : pool = (.sqlite, address) := h.reaches
    have hrows : a.lookup (key address) = some rows := h.rows
    have hother : Query.newest .sqlite ≠ Query.byId := by decide +kernel
    refine ⟨rows.mergeSort fun x y => y.time ≤ x.time, a, ?_, h, List.mergeSort_perm _ _, ?_⟩
    · simp [database, answer, isForeign_of_shows h, hrows, hother, Except.mapError]
    · have htrans : ∀ x y z : Row, decide (y.time ≤ x.time) = true →
          decide (z.time ≤ y.time) = true → decide (z.time ≤ x.time) = true := by
        intro x y z
        simp only [decide_eq_true_eq]
        exact fun hxy hyz => Int.le_trans hyz hxy
      have htotal : ∀ x y : Row, (decide (y.time ≤ x.time) || decide (x.time ≤ y.time)) = true := by
        intro x y
        simpa using Int.le_total y.time x.time
      simpa using List.pairwise_mergeSort htrans htotal rows
  -- A database that is kept in a file outlives its connections.
  releases {a pool address rows} h := by
    obtain rfl : pool = (.sqlite, address) := h.reaches
    have hkept : keptAt? address ≠ none := Option.isSome_iff_ne_none.mp h.writable.1
    have hsame : (database fs).release (.sqlite, address) a = a := if_neg hkept
    rw [hsame]
    exact ⟨h.writable, h.rows⟩

end Archive

end YouthLang

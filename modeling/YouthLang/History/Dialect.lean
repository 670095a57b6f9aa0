import YouthLang.History.Column
import YouthLang.Text.Glyph

/-!
# History/Dialect — the ways databases are spoken to

The databases that can hold a history differ in how they number the parameters of a query and in the
types of their columns.
-/

namespace YouthLang

/-- A family of databases. -/
inductive Dialect where
  | sqlite
  | postgres
  | mysql
  | sqlserver
deriving DecidableEq, Repr

namespace Dialect

/-- The names that a database can be asked for by. -/
def names : List (Text × Dialect) :=
  [("sqlite", .sqlite), ("sqlite3", .sqlite), ("postgres", .postgres), ("postgresql", .postgres),
    ("mysql", .mysql), ("sqlserver", .sqlserver), ("mssql", .sqlserver)]

/-- The database by one of its names. -/
def ofName? (name : Text) : Option Dialect := names.lookup name

/-- The name of the driver for a database. -/
def driverName : Dialect → Text
  | .sqlite => "sqlite"
  | .postgres => "postgres"
  | .mysql => "mysql"
  | .sqlserver => "sqlserver"

/-- The name that a query is written for; other names are left to a dialect of their own. -/
def ofQueryName? (name : Text) : Option Dialect :=
  [(("sqlite" : Text), Dialect.sqlite), ("postgres", .postgres), ("mysql", .mysql),
    ("sqlserver", .sqlserver)].lookup name

/-- What stands before the number of a parameter, where parameters are numbered. -/
def parameterMark? : Dialect → Option Text
  | .postgres => some "$"
  | .sqlserver => some "@p"
  | .sqlite | .mysql => none

/-- A query with its question marks numbered from `n` on. -/
def numberFrom (mark : Text) (n : Nat) : List Glyph → Text
  | [] => []
  | .char '?' :: rest => mark ++ Text.ofNat n ++ numberFrom mark (n + 1) rest
  | .stray _ :: rest => "\uFFFD" ++ numberFrom mark n rest
  | g :: rest => g.encode ++ numberFrom mark n rest

/-- A query with its parameters written as the dialect wants them; an unknown dialect leaves it as it
is. -/
def rebind (dialect : Option Dialect) (query : Text) : Text :=
  match dialect.bind parameterMark? with
  | some mark => numberFrom mark 1 query.glyphs
  | none => query

/-- The column types of a dialect: of long texts, of ids and of truth values. -/
structure Types where
  text : Text
  id : Text
  flag : Text

/-- The column types; an unknown dialect has the common ones. -/
def types : Option Dialect → Types
  | some .sqlite => ⟨"TEXT", "VARCHAR(36)", "INTEGER"⟩
  | some .sqlserver => ⟨"NVARCHAR(MAX)", "NVARCHAR(36)", "BIT"⟩
  | _ => ⟨"TEXT", "VARCHAR(36)", "BOOLEAN"⟩

/-- The columns of the table of runs with their types. -/
def columns (t : Types) : List (Column × Text) :=
  [(.id, t.id ++ " PRIMARY KEY"), (.origin, t.id ++ " NOT NULL"), (.source, t.text ++ " NOT NULL"),
    (.output, t.text ++ " NOT NULL"), (.hadStaticError, t.flag ++ " NOT NULL"),
    (.hadRuntimeError, t.flag ++ " NOT NULL"), (.errorText, t.text ++ " NOT NULL"),
    (.createdAt, "BIGINT NOT NULL")]

/-- A column's definition on a line of its own. -/
def columnLine (name type : Text) : Text := "\n\t" ++ name ++ " " ++ type

/-- The query that creates the table of runs unless it is there. -/
def createTable (dialect : Option Dialect) : Text :=
  let table : Text :=
    "CREATE TABLE " ++ (if dialect = some .sqlserver then ([] : Text) else "IF NOT EXISTS ")
      ++ "youth_runs ("
      ++ Text.join "," ((columns (types dialect)).map fun (c, type) => columnLine c.name type)
      ++ "\n)"
  if dialect = some .sqlserver then "IF OBJECT_ID(N'youth_runs', N'U') IS NULL " ++ table else table

end Dialect

end YouthLang

import YouthLang.Yaml.Write
import YouthLang.Log
import YouthLang.Path

/-!
# Settings — what can be configured

The settings have five sections.  `Settings.problem?` says which setting, if any, has a value that
cannot be used, and `Settings.render` writes all of them out.
-/

namespace YouthLang

structure LogSettings where
  level : Text := "info"
  format : Text := "text"
deriving DecidableEq, Repr

structure PromptSettings where
  prompt : Text := "youth> "
  /-- The prompt while an entry goes on. -/
  continuation : Text := "...... "
  historyFile : Text := "~/.youth_history"
deriving DecidableEq, Repr

structure HistorySettings where
  enabled : Bool := false
  driver : Text := "sqlite"
  dsn : Text := "youth_history.db"
deriving DecidableEq, Repr

structure ServeSettings where
  address : Text := "127.0.0.1:8787"
  maxSourceBytes : Int := 65536
deriving DecidableEq, Repr

structure TestSettings where
  parallel : Int := 4
  format : Text := "text"
  failFast : Bool := false
deriving DecidableEq, Repr

/-- All settings, with the values they have unless something else is asked for. -/
structure Settings where
  log : LogSettings := {}
  prompt : PromptSettings := {}
  history : HistorySettings := {}
  serve : ServeSettings := {}
  test : TestSettings := {}
deriving DecidableEq, Repr

namespace Settings

/-- The databases that can hold a history. -/
def drivers : List Text := ["sqlite", "postgres", "mysql", "sqlserver"]

/-- The formats of a log. -/
def logFormats : List Text := ["text", "json"]

/-- The formats of a report. -/
def reportFormats : List Text := ["text", "json", "junit"]

/-- A setting whose value cannot be used. -/
inductive Problem where
  | logLevel (value : Text)
  | logFormat (value : Text)
  | historyDriver (value : Text)
  | noAddress
  | maxSourceBytes (value : Int)
  | parallel (value : Int)
  | reportFormat (value : Text)
deriving DecidableEq, Repr

/-- The sentence that tells what is wrong with a setting. -/
def Problem.message : Problem → Text
  | .logLevel value => "log.level: not a valid logrus Level: " ++ value.quoted
  | .logFormat value => "log.format: unknown format " ++ value.quoted
  | .historyDriver value =>
    "history.driver: unknown driver " ++ value.quoted ++ " (want one of "
      ++ Text.join ", " drivers ++ ")"
  | .noAddress => "history.dsn: required when history is enabled"
  | .maxSourceBytes value => "serve.max_source_bytes: must be positive, got " ++ Text.ofInt value
  | .parallel value => "test.parallel: must be at least 1, got " ++ Text.ofInt value
  | .reportFormat value => "test.format: unknown format " ++ value.quoted

variable (s : Settings)

/-- The first setting whose value cannot be used. -/
def problem? : Option Problem :=
  if (LogLevel.ofName? s.log.level).isNone then some (.logLevel s.log.level)
  else if !logFormats.contains s.log.format then some (.logFormat s.log.format)
  else if !drivers.contains s.history.driver then some (.historyDriver s.history.driver)
  else if s.history.enabled && s.history.dsn = [] then some .noAddress
  else if s.serve.maxSourceBytes ≤ 0 then some (.maxSourceBytes s.serve.maxSourceBytes)
  else if s.test.parallel < 1 then some (.parallel s.test.parallel)
  else if !reportFormats.contains s.test.format then some (.reportFormat s.test.format)
  else none

/-- The log that the settings ask for; a level that is none is taken as `info`. -/
def logStyle : LogStyle :=
  { level := (LogLevel.ofName? s.log.level).getD .info
    format := if s.log.format = "json" then .json else .text }

/-! ## Writing -/

/-- The spaces in front of a setting. -/
def indent : Nat := 4

/-- A section with its settings; a value brings the line end behind it. -/
def sectionText (name : Text) (entries : List (Text × Text)) : Text :=
  Text.line (name ++ ":")
    ++ entries.flatMap fun (key, value) => Text.spaces indent ++ key ++ (": " : Text) ++ value

/-- A text as the value of a setting. -/
def textValue (t : Text) : Text := Yaml.textLine (2 * indent) t

/-- An integer as the value of a setting. -/
def intValue (i : Int) : Text := Text.line (Text.ofInt i)

/-- A truth value as the value of a setting. -/
def flagValue (b : Bool) : Text := Text.line (if b then "true" else "false")

/-- All settings written out. -/
def render : Text :=
  sectionText "log" [("level", textValue s.log.level), ("format", textValue s.log.format)]
    ++ sectionText "repl"
      [("prompt", textValue s.prompt.prompt), ("continue_prompt", textValue s.prompt.continuation),
        ("history_file", textValue s.prompt.historyFile)]
    ++ sectionText "history"
      [("enabled", flagValue s.history.enabled), ("driver", textValue s.history.driver),
        ("dsn", textValue s.history.dsn)]
    ++ sectionText "serve"
      [("addr", textValue s.serve.address),
        ("max_source_bytes", intValue s.serve.maxSourceBytes)]
    ++ sectionText "test"
      [("parallel", intValue s.test.parallel), ("format", textValue s.test.format),
        ("fail_fast", flagValue s.test.failFast)]

end Settings

/-- A path with the home folder in the place of a leading `~/`; without a home folder it is left as it
is. -/
def expandHome (home path : Text) : Text :=
  match Text.after? "~/" path with
  | some rest => if home = [] then path else Path.join home rest
  | none => path

/-- The path of the settings: the one asked for, or else the one from the environment. -/
def settingsPath (asked environment : Text) : Text := if asked = [] then environment else asked

end YouthLang

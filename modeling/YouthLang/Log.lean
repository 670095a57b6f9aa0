import YouthLang.Text.Quoted
import YouthLang.Text.Blank
import YouthLang.Text.Json
import YouthLang.Duration

/-!
# Log — what the program says about itself

A log record has a level, a message and fields.  A log shows the records that are at least as severe
as its own level, as lines of `key=value` pairs or as lines of JSON.
-/

namespace YouthLang

/-- How severe a record is, from the least severe on. -/
inductive LogLevel where
  | trace | debug | info | warning | error | fatal | panic
deriving DecidableEq, Repr

namespace LogLevel

def name : LogLevel → Text
  | .trace => "trace"
  | .debug => "debug"
  | .info => "info"
  | .warning => "warning"
  | .error => "error"
  | .fatal => "fatal"
  | .panic => "panic"

def severity : LogLevel → Nat
  | .trace => 0
  | .debug => 1
  | .info => 2
  | .warning => 3
  | .error => 4
  | .fatal => 5
  | .panic => 6

/-- The names that a level can be asked for by; `warn` is short for `warning`. -/
def names : List (Text × LogLevel) :=
  [("warn", .warning), ("trace", .trace), ("debug", .debug), ("info", .info), ("warning", .warning),
    ("error", .error), ("fatal", .fatal), ("panic", .panic)]

/-- The level by its name, in any case. -/
def ofName? (name : Text) : Option LogLevel := names.lookup name.lower

end LogLevel

/-- The value of a field. -/
inductive LogValue where
  | text (t : Text)
  | count (n : Nat)
  | flag (b : Bool)
  | duration (nanos : Int)

/-- A record: its level, its message and its fields, sorted by name. -/
structure LogRecord where
  level : LogLevel
  message : Text
  fields : List (Text × LogValue) := []

/-- The two ways to write a log. -/
inductive LogFormat where
  | text
  | json
deriving DecidableEq, Repr

/-- A log's level and format. -/
structure LogStyle where
  level : LogLevel := .info
  format : LogFormat := .text

namespace LogValue

/-- A value as text. -/
def plain : LogValue → Text
  | .text t => t
  | .count n => Text.ofNat n
  | .flag b => if b then "true" else "false"
  | .duration nanos => Duration.render nanos

/-- A value as JSON; a duration is its number of nanoseconds. -/
def json : LogValue → Text
  | .text t => Json.string t
  | .duration nanos => Text.ofInt nanos
  | v => v.plain

end LogValue

namespace LogRecord

/-- The signs that a value may hold without being quoted. -/
def bareSigns : Text := "-._/@^+"

/-- The bytes that a value may hold without being quoted: letters, digits and a few signs. -/
def isBare (b : UInt8) : Bool :=
  (0x61 ≤ b && b ≤ 0x7A) || (0x41 ≤ b && b ≤ 0x5A) || (0x30 ≤ b && b ≤ 0x39) || bareSigns.contains b

/-- A key and its value, quoted where it needs to be. -/
def pair (key value : Text) : Text := key ++ "=" ++ (if value.all isBare then value else value.quoted)

/-- A record as `key=value` pairs: the level, the message unless it is empty, then the fields. -/
def textLine (r : LogRecord) : Text :=
  let message := if r.message = [] then [] else [pair "msg" r.message]
  Text.line <| Text.join " " <|
    pair "level" r.level.name :: message ++ r.fields.map fun (key, v) => pair key v.plain

/-- A record as a JSON object with sorted keys, at a time. -/
def jsonLine (r : LogRecord) (time : Text) : Text :=
  let fixed : List (Text × LogValue) :=
    [("level", .text r.level.name), ("msg", .text r.message), ("time", .text time)]
  let all := r.fields ++ fixed
  let members := (all.mergeSort fun a b => !(b.1 < a.1 : Bool)).map fun (key, v) =>
    Json.string key ++ ":" ++ v.json
  "\x7b" ++ Text.join "," members ++ "\x7d\n"

end LogRecord

namespace LogStyle

/-- The text that a log shows for a record: nothing for one below its level. -/
def write (style : LogStyle) (time : Text) (r : LogRecord) : Text :=
  if r.level.severity < style.level.severity then []
  else match style.format with
    | .text => r.textLine
    | .json => r.jsonLine time

end LogStyle

end YouthLang

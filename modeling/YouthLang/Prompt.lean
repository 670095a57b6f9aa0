import YouthLang.Recorder

/-!
# Prompt — sources typed line by line

Lines are collected into *entries*: an entry goes on while its source is incomplete.  A line that
starts an entry may be a command instead.  Every other entry that is not blank runs in the session at
hand, and `:reset` starts a new one.

`entries` says what the entries of a list of lines are, `converse` what is said in answer, and
`transcript` what comes of that: two printed texts, a log and a record.
-/

namespace YouthLang

/-! ## Lines -/

/-- The longest line that is read. -/
def maxLine : Nat := 65535

/-- The lines of a typed text, without a carriage return at their end, and whether reading stopped at
a line that was too long. -/
structure Typed where
  lines : List Text
  isCut : Bool

namespace Typed

/-- A line without its carriage return. -/
def chomp (t : Text) : Text := Text.dropTail "\r" t

/-- The lines that were typed; what follows the last newline is a line only if it is not empty. -/
def typedLines (t : Text) : List Text :=
  let all := t.lines
  if all.getLast? = some [] then all.dropLast else all

/-- The lines of a typed text. -/
def ofText (t : Text) : Typed :=
  let all := typedLines t
  let read := all.takeWhile (·.length ≤ maxLine)
  ⟨read.map chomp, read.length < all.length⟩

end Typed

/-! ## Commands -/

/-- What a line can ask for besides running a source. -/
inductive Command where
  | quit
  | help
  | reset
  | unknown (words : Text)
deriving DecidableEq, Repr

namespace Command

/-- Whether a line is a command. -/
def isCommand (t : Text) : Bool := t.trim = "exit" || t.trim.head? = some 0x3A

/-- The command that trimmed words ask for, in any case. -/
def ofWords (words : Text) : Command :=
  let lowered := words.lower
  if lowered = ":quit" || lowered = ":q" || lowered = "exit" then .quit
  else if lowered = ":help" then .help
  else if lowered = ":reset" then .reset
  else .unknown words

/-- The answer to a command. -/
def answer : Command → Text
  | .quit => []
  | .help =>
    ":quit, exit   leave the REPL\n" ++ ":help         show this help\n"
      ++ ":reset        forget every global defined so far\n"
      ++ "Input continues on the next line while a statement is unfinished.\n"
  | .reset => "globals cleared\n"
  | .unknown words => "unknown command " ++ words ++ ". Type :help for a list.\n"

end Command

/-! ## Entries -/

/-- The source so far with one more line. -/
def extended (pending : Option Text) (line : Text) : Text :=
  match pending with
  | none => line
  | some source => source ++ [Text.newline] ++ line

/-- Whether a source is to be taken as an entry as it stands. -/
def isEntry (pending : Option Text) (line : Text) : Bool :=
  (pending.isNone && Command.isCommand line) || (extended pending line).isBlank
    || !isIncomplete (extended pending line)

/-- The entries of lines behind the pending source of an entry that goes on, and the pending source at
the end. -/
def entriesFrom (pending : Option Text) : List Text → List Text × Option Text
  | [] => ([], pending)
  | line :: rest =>
    if isEntry pending line then
      let (found, open?) := entriesFrom none rest
      (extended pending line :: found, open?)
    else entriesFrom (some (extended pending line)) rest

/-- The entries of a typed text.  An entry that is still open at the end is taken as it stands, unless
reading stopped before the end. -/
def entries (t : Typed) : List Text :=
  let (found, open?) := entriesFrom none t.lines
  if t.isCut then found else found ++ open?.toList

/-! ## Conversation -/

/-- Something said in answer to an entry. -/
inductive Saying where
  | out (t : Text)
  | err (t : Text)
  | log (r : LogRecord)
  /-- A run to be recorded. -/
  | ran (e : HistoryEntry)

/-- What an entry is answered with when it runs: its log, its lines and its mistakes, and that it
ran. -/
def sayings (source : Text) (r : Run) : List Saying :=
  (r.log []).map .log ++ r.output.map (.out ·.line) ++ r.mistakeTexts.map (.err ·.line)
    ++ [.ran (.ofRun "repl" source r)]

/-- The answers to entries in a session, up to the first command to quit; also whether there was
one.  A new session reads the clock anew. -/
def converse (fuel : Nat) (s : Session) : List Text → List Saying × Bool
  | [] => ([], false)
  | entry :: rest =>
    if entry.isBlank then converse fuel s rest
    else if Command.isCommand entry then
      match Command.ofWords entry.trim with
      | .quit => ([], true)
      | command =>
        let next :=
          if command = .reset then Session.fresh s.file s.node s.machine.clock.restart else s
        let (said, hasQuit) := converse fuel next rest
        (.out command.answer :: said, hasQuit)
    else
      let (next, r) := s.run fuel entry
      let (said, hasQuit) := converse fuel next rest
      (sayings entry r ++ said, hasQuit)

/-- The record of a line that was too long to read. -/
def lineTooLong : LogRecord :=
  ⟨.warning, "read failed", [("error", .text "bufio.Scanner: token too long")]⟩

/-- The answers to a typed text. -/
def answers (fuel : Nat) (clock : Clock) (input : Text) : List Saying :=
  let typed := Typed.ofText input
  let (said, hasQuit) := converse fuel (.fresh [] 0 clock) (entries typed)
  if typed.isCut && !hasQuit then said ++ [.log lineTooLong] else said

/-- The record of an entry that could not be recorded. -/
def notRecorded (problem : Text) : LogRecord :=
  ⟨.warning, "failed to record REPL entry", [("error", .text problem)]⟩

/-! ## Transcripts -/

/-- What has come of things said: the two texts that are printed, the log, and the recorder's state. -/
structure Transcript (σ : Type) where
  out : Text := []
  err : Text := []
  log : List LogRecord := []
  recorded : σ

/-- One more thing said. -/
def Transcript.say {σ : Type} (record : Recorder σ) (t : Transcript σ) : Saying → Transcript σ
  | .out text => { t with out := t.out ++ text }
  | .err text => { t with err := t.err ++ text }
  | .log r => { t with log := t.log ++ [r] }
  | .ran e =>
    let (recorded, problem) := record t.recorded e
    { t with recorded := recorded, log := t.log ++ (problem.map notRecorded).toList }

/-- What comes of a typed text. -/
def transcript {σ : Type} (fuel : Nat) (clock : Clock) (record : Recorder σ) (start : σ)
    (input : Text) : Transcript σ :=
  (answers fuel clock input).foldl (Transcript.say record) { recorded := start }

end YouthLang

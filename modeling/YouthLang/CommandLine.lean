import YouthLang.CommandLine.Flags
import YouthLang.CommandLine.Request
import YouthLang.Address
import YouthLang.History
import YouthLang.History.Listing
import YouthLang.Prompt
import YouthLang.Report
import YouthLang.Settings.Load
import YouthLang.Token.Listing
import YouthLang.Tree.Render

/-!
# CommandLine — the program as a whole

The program is given words, and finds files, settings, typed text and histories around it.  It answers
with two texts, one of them for what goes wrong, a status, and the histories as they are afterwards.
`respond` says what the answer is.
-/

namespace YouthLang

/-- What the program finds around it. -/
structure Surroundings where
  /-- The home folder. -/
  home : Text := []
  /-- The path of the settings that the environment names. -/
  settings : Text := []
  /-- What is typed at the prompt. -/
  input : Text := []
  files : Files := .none
  archive : Archive := []
  /-- The time in nanoseconds. -/
  now : Int := 0
  /-- The time for the log. -/
  stamp : Text := []
  clock : Clock := .ofReadings []
  /-- The id for an entry behind a number of others. -/
  freshId : Nat → Text
  /-- The number of steps a program may take. -/
  fuel : Nat

/-- How the program ends. -/
inductive ExitStatus where
  | ok
  /-- A script failed, or there was none. -/
  | failed
  | usage
  | staticError
  | runtimeError
  /-- Something around the program could not be used. -/
  | unavailable
deriving DecidableEq, Repr

/-- The number that stands for a status. -/
def ExitStatus.code : ExitStatus → Nat
  | .ok => 0
  | .failed => 1
  | .usage => 64
  | .staticError => 65
  | .runtimeError => 70
  | .unavailable => 74

/-- The answer of the program. -/
structure Answer where
  status : ExitStatus
  out : Text := []
  err : Text := []
  archive : Archive

namespace CommandLine

/-- How the program is used. -/
def usage : Text :=
  Text.join "\n"
    ["youth - a small scripting language",
      "",
      "Usage:",
      "  youth [-config file] [-debug] <command> [arguments]",
      "",
      "Commands:",
      "  youth <file.youth>         Run a script",
      "  youth run <file.youth>     Run a script",
      "  youth repl                 Start the interactive prompt (default)",
      "  youth check <file.youth>   Report static errors without running",
      "  youth ast <file.youth>     Print the syntax tree",
      "  youth tokens <file.youth>  Print the token stream",
      "  youth test [paths...]      Run *_test.youth scripts",
      "  youth serve                Start the websocket playground",
      "  youth history [n]          List the n most recent runs",
      "  youth version              Print version information",
      ""]

/-- The version of the program. -/
def version : Text := "youth v1.0.0\nBuild Date: unknown\n"

/-- A sentence on a line of its own behind the name of the program. -/
def complaint (sentence : Text) : Text := Text.line ("youth: " ++ sentence)

/-! ## Commands -/

section

variable (around : Surroundings) (s : Settings)

/-- What the log shows for records. -/
def logged (records : List LogRecord) : Text := records.flatMap (s.logStyle.write around.stamp)

/-- An answer that leaves the histories as they are. -/
def answer (status : ExitStatus) (out err : Text) : Answer := ⟨status, out, err, around.archive⟩

/-- The answer when something around the program cannot be used. -/
def unavailable (sentence : Text) : Answer := answer around .unavailable [] (complaint sentence)

/-- The answer to words that are no request. -/
def misused (e : UsageError) : Answer :=
  answer around .usage [] (complaint e.message ++ "Run 'youth help' for usage.\n")

/-- The answer to a request about a source that must be read first. -/
def withSource (file : Text) (respond : Text → Answer) : Answer :=
  match around.files.read file with
  | .error problem => unavailable around ("could not read source: " ++ problem)
  | .ok source => respond source

/-- Mistakes, each on lines of its own. -/
def mistakeLines (ds : List Diagnostic) : Text := ds.flatMap fun d => d.text.line

/-- The answer to a request that only looks at a source: a text unless there are mistakes. -/
def inspected (out : Text) (mistakes : List Diagnostic) : Answer :=
  if mistakes.isEmpty then answer around .ok out []
  else answer around .staticError out (mistakeLines mistakes)

/-! ### Histories -/

/-- The address of the history. -/
def historyAddress : Text := expandHome around.home s.history.dsn

/-- The history that the settings ask for, and what the log says if it cannot be used. -/
def openedHistory : Option History × List LogRecord :=
  if s.history.enabled then
    match around.archive.openHistory around.files s.history.driver (historyAddress around s) with
    | .ok h => (some h, [])
    | .error e => (none, [⟨.warning, "history disabled", [("error", .text e.message)]⟩])
  else (none, [])

/-- An entry recorded; every entry is later by a moment than those before it. -/
def record (h : History) (e : HistoryEntry) : Except HistoryError History :=
  let number := h.entries.length
  (h.record (around.freshId number) (around.now + number : Int) e).map Prod.fst

/-- What the history itself says of an entry that it refuses. -/
def refusal (e : HistoryEntry) (problem : HistoryError) : LogRecord :=
  ⟨.warning, "failed to record run",
    [("driver", .text "sqlite"), ("error", .text problem.message), ("origin", .text e.origin)]⟩

/-- The histories when one of them, if one was opened, is closed. -/
def archiveWith (h : Option History) : Archive :=
  match h with
  | some h => h.close.archive
  | none => around.archive

/-! ### Running -/

/-- A program run and recorded. -/
def run (file source : Text) : Answer :=
  let r := runSource around.fuel around.clock file source
  let (history, warnings) := openedHistory around s
  let (recorded, failures) : Option History × List LogRecord :=
    match history with
    | none => (none, [])
    | some h =>
      let entry := HistoryEntry.ofRun "run" source r
      match record around h entry with
      | .ok h' => (some h', [])
      | .error e =>
        (some h,
          [refusal entry e, ⟨.warning, "failed to record run", [("error", .text e.onRecord)]⟩])
  { status := if r.wasRejected then .staticError else if r.hasFailed then .runtimeError else .ok
    out := r.output.flatMap Text.line
    err := logged around s (r.log file) ++ r.mistakeTexts.flatMap Text.line
      ++ logged around s (warnings ++ failures)
    archive := archiveWith around recorded }

/-- What has been said so far at the prompt, and the history. -/
structure Spoken where
  out : Text := []
  err : Text := []
  history : Option History

/-- One more thing said. -/
def Spoken.say (p : Spoken) : Saying → Spoken
  | .out t => { p with out := p.out ++ t }
  | .err t => { p with err := p.err ++ t }
  | .log r => { p with err := p.err ++ logged around s [r] }
  | .ran e =>
    match p.history with
    | none => p
    | some h =>
      match record around h e with
      | .ok h' => { p with history := some h' }
      | .error problem =>
        { p with err := p.err ++ logged around s [refusal e problem, notRecorded problem.onRecord] }

/-- The prompt, with everything that is typed at it. -/
def prompt : Answer :=
  let (history, warnings) := openedHistory around s
  let start : Spoken := { err := logged around s warnings, history := history }
  let spoken := (answers around.fuel around.clock around.input).foldl (Spoken.say around s) start
  ⟨.ok, spoken.out, spoken.err, archiveWith around spoken.history⟩

/-- Scripts found and run. -/
def test (paths : List Text) : Answer :=
  match discover around.files paths with
  | .error problem => unavailable around problem
  | .ok [] => answer around .failed [] (complaint ("no " ++ scriptSuffix ++ " files found"))
  | .ok files =>
    let outcome := runScripts around.fuel around.clock around.files s.test.failFast files
    answer around (if outcome.stats.isOk then .ok else .failed)
      (Report.render (.ofName s.test.format) false outcome.suites outcome.stats)
      (logged around s outcome.log)

/-- A playground on the address of the settings. -/
def serve : Answer :=
  let (history, warnings) := openedHistory around s
  let address := s.serve.address
  let started : LogRecord := ⟨.info, "playground listening", [("addr", .text address)]⟩
  { status := .unavailable
    err := logged around s (warnings ++ [started])
      ++ complaint ("playground: " ++ (Address.refusal address).message address)
    archive := archiveWith around history }

/-! ### Listing -/

/-- The count that a text asks for: a positive number that fits in 63 bits. -/
def count? (t : Text) : Option Nat :=
  let digits := Text.dropHead "+" t
  let n := Number.digitsValue digits
  if digits ≠ [] && (digits.all fun b => 0x30 ≤ b && b ≤ 0x39) && 0 < n && n < 0x8000000000000000 then some n
  else none

/-- The most recent entries of a history that has been opened. -/
def listed (h : History) (count : Int64) : Answer :=
  let archive := archiveWith around (some h)
  match h.recent count with
  | .error e => ⟨.unavailable, [], complaint e.onList, archive⟩
  | .ok entries => ⟨.ok, entries.flatMap (HistoryEntry.listing around.now), [], archive⟩

/-- The most recent runs. -/
def history (count : Option Text) : Answer :=
  if !s.history.enabled then
    answer around .usage []
      (complaint "history is disabled; set history.enabled in the config file")
  else
    match around.archive.openHistory around.files s.history.driver (historyAddress around s) with
    | .error e => unavailable around ("open history: " ++ e.message)
    | .ok h =>
      match count with
      | none => listed around h Store.usualCount
      | some t =>
        match count? t with
        | none => misused around (.invalidCount t)
        | some n => listed around h (n : Int)

/-! ### Requests -/

/-- The answer to a request. -/
def respondTo : Request → Answer
  | .help => answer around .ok usage []
  | .version => answer around .ok version []
  | .prompt => prompt around s
  | .run file => withSource around file (run around s file)
  | .check file =>
    withSource around file fun source =>
      let mistakes := check file source
      inspected around (if mistakes.isEmpty then Text.line (file ++ ": ok") else []) mistakes
  | .tree file =>
    withSource around file fun source =>
      let parsed := programOf 0 [] source
      inspected around (if parsed.diagnostics.isEmpty then renderProgram parsed.statements else [])
        parsed.diagnostics
  | .tokens file =>
    withSource around file fun source =>
      let scanned := tokensOf source
      inspected around (scanned.tokens.flatMap Token.listing) scanned.diagnostics
  | .test paths => test around s paths
  | .serve => serve around s
  | .history count => history around s count

end

/-- The settings that the flags ask for. -/
def settingsOf (around : Surroundings) (flags : Flags) : Except Text Settings := do
  let s ← Settings.load around.files (settingsPath flags.settings around.settings)
  return if flags.debug then { s with log := { s.log with level := "debug" } } else s

/-- What the flags and the words behind them ask for, if they make sense. -/
def asked? (around : Surroundings) (words : List Text) : Option (Settings × Request) :=
  match Flags.read {} words with
  | .error _ => none
  | .ok (flags, rest) =>
    match settingsOf around flags, Request.ofWords rest with
    | .ok s, .ok request => some (s, request)
    | _, _ => none

/-- Whether words ask for the prompt. -/
def asksForPrompt (around : Surroundings) (words : List Text) : Bool :=
  (asked? around words).any fun (_, request) => request = .prompt

/-- The folders to search for scripts. -/
def searched (around : Surroundings) (words : List Text) : List Text :=
  match asked? around words with
  | some (_, .test []) => ["."]
  | some (_, .test paths) => paths
  | _ => []

/-- The path of the file that the history is kept in, if it is kept in one. -/
def keptAt? (around : Surroundings) (words : List Text) : Option Text :=
  (asked? around words).bind fun (s, _) =>
    if s.history.enabled then Archive.keptAt? (historyAddress around s) else none

/-- The answer of the program to words. -/
def respond (around : Surroundings) (words : List Text) : Answer :=
  match Flags.read {} words with
  | .error e =>
    answer around (if e = .help then .ok else .usage) [] (e.message ++ usage)
  | .ok (flags, rest) =>
    match settingsOf around flags with
    | .error problem => answer around .usage [] (complaint problem)
    | .ok s =>
      match Request.ofWords rest with
      | .error e => misused around e
      | .ok request => respondTo around s request

end CommandLine

end YouthLang

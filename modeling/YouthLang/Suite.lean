import YouthLang.Script
import YouthLang.Files

/-!
# Suite — many scripts

Scripts are found below folders, run, and grouped by the folder they lie in.  Workers run them: each
script starts once and finishes once, and after a failure a script that has not started may be left
out.  `Workers.turn` allows every order of starts and finishes; `oneByOne` is the order that the
program itself uses.

The workers belong to an error group, which is a library's.  What is taken from its documentation: the
first worker that hands back an error cancels the group's context, every worker that asks from then on
finds it cancelled, and waiting for the group ends when all workers have ended.  A script finishes, here,
at the moment that its worker hands back: nobody sees its result before the end of the wait.
-/

namespace YouthLang

/-! ## Results -/

/-- How a script ended. -/
inductive Status where
  | passed
  | failed
  | skipped
deriving DecidableEq, Repr

/-- The result of a script. -/
structure TestResult where
  name : Text
  file : Text
  status : Status
  /-- In nanoseconds. -/
  duration : Int := 0
  /-- Why the script could not be run. -/
  error : Option Text := none
  message : Text := []
deriving DecidableEq, Repr

/-- The scripts of one folder. -/
structure Suite where
  name : Text
  results : List TestResult
  duration : Int := 0
deriving DecidableEq, Repr

/-- The totals of a run. -/
structure Stats where
  total : Int := 0
  passed : Int := 0
  failed : Int := 0
  skipped : Int := 0
  suites : Int := 0
  sourceBytes : Nat := 0
  totalTime : Int := 0
deriving DecidableEq, Repr

/-- No script failed. -/
def Stats.isOk (s : Stats) : Bool := s.failed = 0

/-! ## Finding scripts -/

/-- The end of the name of a script. -/
def scriptSuffix : Text := "_test.youth"

/-- The end of the name of a program. -/
def programSuffix : Text := ".youth"

/-- The name of a script: the last name of its path without its end. -/
def scriptName (file : Text) : Text := Text.dropTail programSuffix (Path.name file)

/-- Whether a name is hidden from a search. -/
def isHidden (name : Text) : Bool := name.head? = some 0x2E

/-- Whether a way from the searched folder leads to a script: no folder on it is hidden, and its last
name has the end of a script's. -/
def leadsToScript (way : List Text) : Bool :=
  !way.isEmpty && !way.dropLast.any isHidden && scriptSuffix.isSuffixOf (way.getLastD [])

/-- The scripts that a path stands for: a file stands for itself, a folder for the scripts below it. -/
def scriptsAt (fs : Files) (path : Text) : Except Text (List Text) :=
  match fs.find path with
  | .error e => .error ("stat " ++ path ++ ": " ++ e.message)
  | .ok (.file _) => .ok [path]
  | .ok (.folder way) =>
    let below := fs.files.filterMap fun (names, _) =>
      if way.isPrefixOf names then some (names.drop way.length) else none
    .ok ((below.filter leadsToScript).map fun rest => Path.join path (Text.join [Path.slash] rest))

/-- A list without repetitions of neighbours. -/
def dropRepeats : List Text → List Text
  | [] => []
  | [t] => [t]
  | t :: u :: rest => if t = u then dropRepeats (u :: rest) else t :: dropRepeats (u :: rest)

/-- The scripts that paths stand for, sorted, each once; without a path, those of the working
folder. -/
def discover (fs : Files) (paths : List Text) : Except Text (List Text) := do
  let found ← (if paths.isEmpty then [("." : Text)] else paths).mapM (scriptsAt fs)
  return dropRepeats (Text.sorted found.flatten)

/-! ## Running a script -/

/-- What comes of running a script: its result, the size of its source and the log. -/
structure Trial where
  result : TestResult
  size : Nat := 0
  log : List LogRecord := []

/-- A script run in a session of its own, its nodes numbered from `node + 1` on, past the numbers that
others take. -/
def tryScript (fuel : Nat) (clock : Clock) (fs : Files) (node : Nat) (others : List Nat) (file : Text) :
    Trial :=
  let failed : TestResult := ⟨scriptName file, file, .failed, 0, none, []⟩
  match fs.read file with
  | .error problem => { result := { failed with error := some problem } }
  | .ok source =>
    match Script.ofSource file source with
    | .error e => { result := { failed with error := some (e.message file) }, size := source.length }
    | .ok script =>
      let run := ((Session.fresh file node clock).run fuel source others).2
      match script.check run with
      | [] => ⟨{ failed with status := .passed }, source.length, run.log file⟩
      | mismatches =>
        { result := { failed with
            message := Text.join [Text.newline] (mismatches.map Script.Mismatch.message) }
          size := source.length
          log := run.log file ++ [⟨.debug, "script failed", [("file", .text file)]⟩] }

/-- A script run on its own. -/
def runAlone (fuel : Nat) (clock : Clock) (fs : Files) (file : Text) : Trial :=
  tryScript fuel clock fs 0 [] file

/-- What comes of a script that is left out. -/
def leftOut (file : Text) : Trial :=
  { result := ⟨scriptName file, file, .skipped, 0, none, "not run"⟩ }

/-! ## Workers -/

/-- How far a script has come. -/
inductive Slot where
  | waiting
  | running
  | done (trial : Trial)

/-- The trial of a script that is done. -/
def Slot.trial? : Slot → Option Trial
  | .done trial => some trial
  | _ => none

/-- The scripts in order with how far each has come, and the bytes of source read so far. -/
structure Workers where
  slots : List (Text × Slot)
  bytes : Nat := 0
  /-- Whether the context of the group is cancelled: then no more scripts are to be run. -/
  stopped : Bool := false

/-- What a worker does next.  All scripts draw the numbers of their nodes from one count, so where that
stands when a script is parsed depends on those parsed before it, and `others` on those parsed along with
it. -/
inductive Turn where
  | start (i : Nat)
  | finish (i node : Nat) (others : List Nat)
deriving DecidableEq, Repr

namespace Workers

/-- Nothing has started. -/
def ready (files : List Text) : Workers := { slots := files.map (·, .waiting) }

/-- A worker's turn.  A script that is to start is left out once the context is cancelled; a worker hands
back a failure as an error if `failFast` asks for it, and that cancels the context. -/
def turn (trial : Nat → List Nat → Text → Trial) (failFast : Bool) (w : Workers) : Turn → Workers
  | .start i =>
    match w.slots[i]? with
    | some (file, .waiting) =>
      let slot := if w.stopped then .done (leftOut file) else .running
      { w with slots := w.slots.set i (file, slot) }
    | _ => w
  | .finish i node others =>
    match w.slots[i]? with
    | some (file, .running) =>
      let done := trial node others file
      { slots := w.slots.set i (file, .done done)
        bytes := w.bytes + done.size
        stopped := w.stopped || (failFast && done.result.status = .failed) }
    | _ => w

/-- Turns taken in order. -/
def turns (trial : Nat → List Nat → Text → Trial) (failFast : Bool) (w : Workers) (ts : List Turn) : Workers :=
  ts.foldl (turn trial failFast) w

/-- The trials that are done, in the order of the scripts. -/
def trials (w : Workers) : List Trial := w.slots.filterMap fun (_, slot) => slot.trial?

/-- Each script starts when the one before it has finished. -/
def oneByOne (n : Nat) : List Turn := (List.range n).flatMap fun i => [.start i, .finish i 0 []]

end Workers

/-! ## Suites -/

/-- A result put with the others of its folder; the first one of a folder starts a suite. -/
def addResult (suites : List Suite) (r : TestResult) : List Suite :=
  match suites with
  | [] => [⟨Path.folder r.file, [r], r.duration⟩]
  | s :: rest =>
    if s.name = Path.folder r.file then
      { s with results := s.results ++ [r], duration := s.duration + r.duration } :: rest
    else s :: addResult rest r

/-- The results grouped by folder. -/
def suitesOf (results : List TestResult) : List Suite := results.foldl addResult []

namespace Stats

/-- The totals with one more result. -/
def addResult (s : Stats) (r : TestResult) : Stats :=
  let s := { s with total := s.total + 1 }
  match r.status with
  | .passed => { s with passed := s.passed + 1 }
  | .failed => { s with failed := s.failed + 1 }
  | .skipped => { s with skipped := s.skipped + 1 }

/-- The totals with one more suite. -/
def addSuite (s : Stats) (suite : Suite) : Stats :=
  suite.results.foldl addResult { s with suites := s.suites + 1 }

end Stats

/-- The outcome of running scripts. -/
structure SuiteRun where
  suites : List Suite
  stats : Stats
  log : List LogRecord

/-- The outcome when the workers are done. -/
def SuiteRun.ofWorkers (w : Workers) : SuiteRun :=
  let suites := suitesOf (w.trials.map Trial.result)
  { suites := suites
    stats := suites.foldl Stats.addSuite { sourceBytes := w.bytes }
    log := w.trials.flatMap Trial.log }

/-- Scripts run one by one. -/
def runScripts (fuel : Nat) (clock : Clock) (fs : Files) (failFast : Bool) (files : List Text) :
    SuiteRun :=
  .ofWorkers ((Workers.ready files).turns (tryScript fuel clock fs) failFast
    (Workers.oneByOne files.length))

end YouthLang

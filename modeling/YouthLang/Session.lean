import YouthLang.Analysis
import YouthLang.Machine
import YouthLang.Log

/-!
# Session — sources run one after another

A session keeps what its sources have declared: a later source sees the globals of the earlier ones.  A
source with a mistake in it does not run at all, and then the session is as it was, except that its
nodes have been numbered.
-/

namespace YouthLang

/-- How a run ended. -/
inductive Outcome where
  | finished
  /-- Nothing ran, because of mistakes found before. -/
  | rejected (mistakes : List Diagnostic)
  | failed (mistake : Diagnostic)
  /-- The steps allowed for ran out. -/
  | unfinished

/-- A run: the lines it printed, how it ended, and the number of statements it was asked to run. -/
structure Run where
  output : List Text
  outcome : Outcome
  statements : Nat

namespace Run

variable (r : Run)

/-- A mistake was found before the run. -/
def wasRejected : Bool :=
  match r.outcome with
  | .rejected _ => true
  | _ => false

/-- The run stopped at a mistake. -/
def hasFailed : Bool :=
  match r.outcome with
  | .failed _ => true
  | _ => false

/-- The run ended without a mistake. -/
def isOk : Bool := !r.wasRejected && !r.hasFailed

/-- The mistakes of the run. -/
def mistakes : List Diagnostic :=
  match r.outcome with
  | .rejected ds => ds
  | .failed d => [d]
  | _ => []

/-- The mistakes of the run written out. -/
def mistakeTexts : List Text := r.mistakes.map Diagnostic.text

/-- The log of the run: that it was rejected, or its start, its failure and its end. -/
def log (file : Text) : List LogRecord :=
  match r.outcome with
  | .rejected ds =>
    [⟨.debug, "static errors, not executing", [("errors", .count ds.length), ("file", .text file)]⟩]
  | outcome =>
    let failure : List LogRecord :=
      match outcome with
      | .failed d => [⟨.debug, "runtime error", [("error", .text ((d.inFile []).withExcerpt []).text)]⟩]
      | _ => []
    ⟨.debug, "interpreting program", [("statements", .count r.statements)]⟩ :: failure
      ++ [⟨.debug, "run finished",
        [("duration", .duration 0), ("failed", .flag r.hasFailed), ("file", .text file),
          ("lines", .count r.output.length)]⟩]

end Run

/-- A session: the file its sources are said to be from, the number of the last node, and the machine
between two runs. -/
structure Session where
  file : Text
  node : Nat
  machine : Machine

namespace Session

/-- A session that has run nothing. -/
def fresh (file : Text) (node : Nat) (clock : Clock) : Session := ⟨file, node, .ofClock clock⟩

/-- A source run in a session, in at most `fuel` steps.  While it is parsed, `others` number nodes as
well. -/
def run (fuel : Nat) (s : Session) (source : Text) (others : List Nat := []) : Session × Run :=
  let a := analyse s.node s.file source others
  if a.diagnostics.isEmpty then
    let m := (s.machine.load a.statements a.distances).run fuel
    let outcome :=
      if m.hasEnded then
        match m.failure? with
        | some d => .failed (d.decorate s.file source)
        | none => .finished
      else .unfinished
    (⟨s.file, a.node, m⟩, ⟨m.lines, outcome, a.statements.length⟩)
  else ({ s with node := a.node }, ⟨[], .rejected a.diagnostics, a.statements.length⟩)

/-- Sources run in order in a session. -/
def runAll (fuel : Nat) (s : Session) : List Text → List Run
  | [] => []
  | source :: rest =>
    let (s', r) := s.run fuel source
    r :: runAll fuel s' rest

end Session

/-- A source run in a session of its own. -/
def runSource (fuel : Nat) (clock : Clock) (file source : Text) : Run :=
  ((Session.fresh file 0 clock).run fuel source).2

end YouthLang

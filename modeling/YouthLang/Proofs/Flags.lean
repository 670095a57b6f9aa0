import YouthLang.Proofs.Expectations

/-!
# Proofs/Flags — endings told by flags

A run and a script can tell how they ended by flags, with a list of mistakes beside those of a run.
Nothing keeps such flags from being set together, or a flag from being set without a mistake; here they
are set one after the other as the work goes on (`Session.reported`, `ScriptFlags.ofScript`).

They come to no more than an `Outcome` and a `Status` can tell: a run's flags and mistakes are those of
its outcome (`Session.reported_eq`), and of a script's flags exactly one is set, that of its status
(`ScriptFlags.ofScript_eq`).  So they may be asked in any order: `Stats.addFlags` asks for the failure
second, and counts as `Stats.addResult` does.
-/

namespace YouthLang

variable {fuel : Nat} {clock : Clock} {others : List Nat}

/-! ## Runs -/

/-- What a run tells of itself; at first nothing has happened. -/
structure RunReport where
  rejected : Bool := false
  failed : Bool := false
  output : List Text := []
  mistakes : List Diagnostic := []

/-- The report that an outcome comes to. -/
def Run.report (r : Run) : RunReport := ⟨r.wasRejected, r.hasFailed, r.output, r.mistakes⟩

/-- A source run in a session.  A flag is set when something has gone wrong, and the mistakes that were
found before are replaced by the one that the run has stopped with. -/
def Session.reported (fuel : Nat) (s : Session) (source : Text) (others : List Nat := []) :
    Session × RunReport :=
  let a := analyse s.node s.file source others
  let told : RunReport := { mistakes := a.diagnostics }
  if 0 < a.diagnostics.length then ({ s with node := a.node }, { told with rejected := true })
  else
    let m := (s.machine.load a.statements a.distances).run fuel
    let told :=
      match if m.hasEnded then m.failure? else none with
      | some d => { told with failed := true, mistakes := [d.decorate s.file source] }
      | none => told
    (⟨s.file, a.node, m⟩, { told with output := m.lines })

/-- **The flags and the mistakes of a run are those of its outcome.** -/
theorem Session.reported_eq (s : Session) (source : Text) : s.reported fuel source others
    = ((s.run fuel source others).1, (s.run fuel source others).2.report) := by
  by_cases hclean : (analyse s.node s.file source others).diagnostics = []
  · simp only [reported, run, hclean, List.length_nil, Nat.lt_irrefl, List.isEmpty_nil, if_true,
      if_false]
    cases hended : ((s.machine.load _ _).run fuel).hasEnded
    · simp [Run.report, Run.wasRejected, Run.hasFailed, Run.mistakes]
    · cases ((s.machine.load _ _).run fuel).failure? <;>
        simp [Run.report, Run.wasRejected, Run.hasFailed, Run.mistakes]
  · have hlength := List.length_pos_iff.mpr hclean
    have hempty : (analyse s.node s.file source others).diagnostics.isEmpty = false := by
      simpa using hclean
    simp only [reported, run, hlength, hempty, if_true, Bool.false_eq_true, if_false]
    rfl

/-- A run that tells of being rejected tells of a mistake, one that tells of a failure tells of exactly
one, and none tells of both. -/
theorem Session.reported_spec (s : Session) (source : Text) :
    let told := (s.reported fuel source others).2
    (told.rejected = true → told.mistakes ≠ []) ∧ (told.failed = true → told.mistakes.length = 1)
      ∧ ¬(told.rejected = true ∧ told.failed = true) := by
  intro told
  have htold : told = (s.run fuel source others).2.report := congrArg Prod.snd (s.reported_eq source)
  rw [htold]
  refine ⟨fun h => (mistakes_of_wasRejected h).1, ?_, ?_⟩
  all_goals
    unfold Run.report Run.wasRejected Run.hasFailed Run.mistakes
    cases (s.run fuel source others).2.outcome <;> simp

/-! ## Scripts -/

/-- How a script ended, if it has. -/
structure ScriptFlags where
  passed : Bool := false
  failed : Bool := false
  skipped : Bool := false

/-- The flags that a status comes to. -/
def Status.flags : Status → ScriptFlags
  | .passed => { passed := true }
  | .failed => { failed := true }
  | .skipped => { skipped := true }

/-- Exactly one flag is set. -/
theorem Status.count_flags (status : Status) :
    [status.flags.passed, status.flags.failed, status.flags.skipped].count true = 1 := by
  cases status <;> rfl

/-- The flags of a script that is run: it has failed if it cannot be read, says what cannot be, or
departs from what it says.  There are none if a mistake is asked for that was not told. -/
def ScriptFlags.ofScript (fuel : Nat) (clock : Clock) (fs : Files) (node : Nat) (others : List Nat)
    (file : Text) : Option ScriptFlags :=
  match fs.read file with
  | .error _ => some { failed := true }
  | .ok source =>
    match Script.ofSource file source with
    | .error _ => some { failed := true }
    | .ok script =>
      let told := ((Session.fresh file node clock).reported fuel source others).2
      (script.checkReport? told.rejected told.failed told.mistakes told.output).map fun mismatches =>
        if 0 < mismatches.length then { failed := true } else { passed := true }

/-- **The flags of a script are those of its status.** -/
theorem ScriptFlags.ofScript_eq (fs : Files) (node : Nat) (file : Text) :
    ofScript fuel clock fs node others file
      = some (tryScript fuel clock fs node others file).result.status.flags := by
  unfold ofScript tryScript
  cases fs.read file with
  | error problem => rfl
  | ok source =>
    dsimp only
    cases Script.ofSource file source with
    | error e => rfl
    | ok script =>
      have hcheck := script.checkReport?_run ((Session.fresh file node clock).run fuel source others).2
      simp only [Session.reported_eq, Run.report, hcheck, Option.map_some, Option.some.injEq]
      cases script.check ((Session.fresh file node clock).run fuel source others).2 <;> rfl

/-- The totals with one more script, by its flags. -/
def Stats.addFlags (s : Stats) (f : ScriptFlags) : Stats :=
  let s := { s with total := s.total + 1 }
  if f.passed then { s with passed := s.passed + 1 }
  else if f.failed then { s with failed := s.failed + 1 }
  else if f.skipped then { s with skipped := s.skipped + 1 }
  else s

/-- A script is counted by its flags as by its status. -/
theorem Stats.addFlags_flags (s : Stats) (r : TestResult) :
    s.addFlags r.status.flags = s.addResult r := by
  unfold addResult addFlags
  cases r.status <;> rfl

end YouthLang

import YouthLang.Suite
import YouthLang.Quantity
import YouthLang.Text.Xml

/-!
# Report — the results of scripts for readers and for programs

A report tells suite by suite how each script ended and then the totals: as text, as one JSON document,
or as one JUnit document.
-/

namespace YouthLang

/-- The ways to write a report. -/
inductive ReportFormat where
  | text
  | json
  | junit
deriving DecidableEq, Repr

/-- The format by its name; every other name means text. -/
def ReportFormat.ofName (name : Text) : ReportFormat :=
  if name = "json" then .json else if name = "junit" then .junit else .text

namespace Report

/-- A duration to the microsecond. -/
def time (nanos : Int) : Text := Duration.render (Duration.roundToMicros nanos)

/-! ## Text -/

/-- The lines for a result. -/
def resultLines (r : TestResult) : List Text :=
  let timed (mark : Text) : Text := "  " ++ mark ++ " " ++ r.name ++ " (" ++ time r.duration ++ ")"
  match r.status with
  | .passed => [timed "✓"]
  | .skipped => ["  ⊘ " ++ r.name ++ " (skipped)"]
  | .failed =>
    let error : List Text := r.error.toList.map fun (e : Text) => "    Error: " ++ e
    let message : List Text :=
      if r.message = [] then [] else r.message.lines.map fun (l : Text) => "    " ++ l
    timed "✗" :: error ++ message

/-- The lines for a suite, with a total at its end if asked for. -/
def suiteLines (verbose : Bool) (s : Suite) : List Text :=
  let total : List Text :=
    if verbose then
      ["  " ++ Text.ofNat s.results.length ++ " scripts in " ++ time s.duration]
    else []
  [] :: s.name :: s.results.flatMap resultLines ++ total

/-- The line for a count, left out unless the count is positive. -/
def countLine (label : Text) (n : Int) : List Text := if 0 < n then [label ++ Text.ofInt n] else []

/-- The lines for the totals. -/
def statsLines (s : Stats) : List Text :=
  let scripts : Text :=
    "Scripts:    " ++ Quantity.grouped s.total ++ " (" ++ Quantity.bytes s.sourceBytes ++ " of source)"
  [[], List.replicate 60 0x3D, scripts]
    ++ countLine "Passed:     " s.passed
    ++ countLine "Failed:     " s.failed
    ++ countLine "Skipped:    " s.skipped
    ++ ["Suites:     " ++ Text.ofInt s.suites, "Total time: " ++ time s.totalTime,
      if s.isOk then "PASS" else "FAIL"]

/-- A report as text. -/
def text (verbose : Bool) (suites : List Suite) (stats : Stats) : Text :=
  (suites.flatMap (suiteLines verbose) ++ statsLines stats).flatMap Text.line

/-! ## JSON -/

/-- A truth value in JSON. -/
def jsonBool (b : Bool) : Text := if b then "true" else "false"

/-- A member of a JSON object on a line of its own. -/
def member (depth : Nat) (key value : Text) : Text :=
  Text.spaces (2 * depth) ++ Json.string key ++ ": " ++ value

/-- A member with a text, left out if the text is empty. -/
def textMember (depth : Nat) (key value : Text) : List Text :=
  if value = [] then [] else [member depth key (Json.string value)]

/-- Lines with a comma at the end of each but the last. -/
def listing (ls : List Text) : Text := Text.join ",\n" ls

/-- What a JSON report tells of a result. -/
structure JsonResult where
  suite : Text
  test : Text
  passed : Bool := false
  failed : Bool := false
  skipped : Bool := false
  duration : Int := 0
  error : Text := []
  message : Text
deriving DecidableEq, Repr

namespace JsonResult

/-- What is told of a result.  Only a failure has an error, and a script that did not run took no time. -/
def ofResult (r : TestResult) : JsonResult :=
  match r.status with
  | .passed =>
    { suite := r.file, test := r.name, passed := true, duration := r.duration, message := r.message }
  | .failed =>
    { suite := r.file, test := r.name, failed := true, duration := r.duration
      error := r.error.getD [], message := r.message }
  | .skipped => { suite := r.file, test := r.name, skipped := true, message := r.message }

/-- The result as a JSON object. -/
def render (r : JsonResult) : Text :=
  "    \x7b\n"
    ++ listing ([member 3 "suite" (Json.string r.suite), member 3 "test" (Json.string r.test),
        member 3 "passed" (jsonBool r.passed),
        member 3 "failed" (jsonBool r.failed),
        member 3 "skipped" (jsonBool r.skipped),
        member 3 "duration" (Text.ofInt r.duration)]
        ++ textMember 3 "error" r.error ++ textMember 3 "message" r.message)
    ++ "\n    \x7d"

end JsonResult

/-- What a JSON report tells of the results of suites. -/
def jsonResults (suites : List Suite) : List JsonResult :=
  (suites.flatMap Suite.results).map .ofResult

/-- A report as one JSON document. -/
def json (suites : List Suite) (stats : Stats) : Text :=
  let results := jsonResults suites
  let array : Text :=
    if results.isEmpty then "[]" else "[\n" ++ listing (results.map JsonResult.render) ++ "\n  ]"
  "\x7b\n"
    ++ listing [member 1 "results" array, member 1 "total_tests" (Text.ofInt stats.total),
        member 1 "passed_tests" (Text.ofInt stats.passed),
        member 1 "failed_tests" (Text.ofInt stats.failed),
        member 1 "skipped_tests" (Text.ofInt stats.skipped),
        member 1 "source_bytes" (Text.ofNat stats.sourceBytes),
        member 1 "total_time" (Text.ofInt stats.totalTime)]
    ++ "\n\x7d\n"

/-! ## JUnit -/

/-- A duration in seconds. -/
def seconds (nanos : Int) : Text := Number.compact (secondsOf nanos)

/-- A result as a test case of a suite. -/
def testCase (suite : Text) (r : TestResult) : Text :=
  let outcome : List Text :=
    match r.status with
    | .passed => []
    | .failed =>
      [Xml.leaf 3 "failure" [("message", r.message), ("type", "ExpectationError")] (r.error.getD [])]
    | .skipped =>
      [Xml.leaf 3 "skipped" (if r.message = [] then [] else [("message", r.message)]) []]
  Xml.node 2 "testcase"
    [("name", r.name), ("classname", suite), ("time", seconds r.duration)] outcome

/-- What a JUnit report tells of a suite: its results with their counts. -/
structure JUnitSuite where
  name : Text
  tests : Nat
  failures : Nat := 0
  skipped : Nat := 0
  time : Int
  cases : List Text := []
deriving DecidableEq, Repr

namespace JUnitSuite

/-- One more result told. -/
def addCase (s : JUnitSuite) (r : TestResult) : JUnitSuite :=
  let s := { s with cases := s.cases ++ [testCase s.name r] }
  match r.status with
  | .passed => s
  | .failed => { s with failures := s.failures + 1 }
  | .skipped => { s with skipped := s.skipped + 1 }

/-- What is told of a suite. -/
def ofSuite (s : Suite) : JUnitSuite :=
  s.results.foldl addCase { name := s.name, tests := s.results.length, time := s.duration }

/-- The suite as an element. -/
def render (s : JUnitSuite) : Text :=
  Xml.node 1 "testsuite"
    [("name", s.name), ("tests", Text.ofNat s.tests), ("failures", Text.ofNat s.failures),
      ("skipped", Text.ofNat s.skipped), ("time", seconds s.time)]
    s.cases

end JUnitSuite

/-- A report as one JUnit document. -/
def junit (suites : List Suite) : Text :=
  "<?xml version=\"1.0\" encoding=\"UTF-8\"?>\n"
    ++ Text.line (Xml.node 0 "testsuites" [] (suites.map fun s => (JUnitSuite.ofSuite s).render))

/-- A report in a format. -/
def render (format : ReportFormat) (verbose : Bool) (suites : List Suite) (stats : Stats) : Text :=
  match format with
  | .text => text verbose suites stats
  | .json => json suites stats
  | .junit => junit suites

end Report

end YouthLang

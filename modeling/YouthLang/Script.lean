import YouthLang.Session
import YouthLang.Text.Quoted
import YouthLang.Text.Blank

/-!
# Script — programs that say what they should do

A script carries its expectations in comments: the lines it should print, that it should be refused,
or that it should stop with a mistake.  `Script.ofSource` collects them and `Script.check` lists how a
run departs from them.
-/

namespace YouthLang

/-- An expectation, as one comment states it. -/
inductive Annotation where
  | line (wanted : Text)
  | staticError
  /-- The message must contain the text. -/
  | runtimeError (part : Text)
deriving DecidableEq, Repr

/-- Why the expectations of a script make no sense. -/
inductive ScriptError where
  | malformed (line : Nat) (words : Text)
  | contradictory
deriving DecidableEq, Repr

/-- The sentence that tells what is wrong with a script. -/
def ScriptError.message (path : Text) : ScriptError → Text
  | .malformed line words =>
    path ++ ":" ++ Text.ofNat line ++ ": malformed annotation " ++ words.quoted
  | .contradictory => path ++ ": cannot expect both a static and a runtime error"

namespace Annotation

/-- The words that start an annotation. -/
def marker : Text := "aside expect"

/-- What follows the marker: a colon and a line, or one of the two kinds of mistakes. -/
def ofRest? (rest : Text) : Option Annotation :=
  match Text.after? ":" rest with
  | some wanted => some (.line (Text.dropHead " " wanted))
  | none =>
    if rest.trim = "static error" then some .staticError
    else
      (Text.after? "runtime error" rest.trim).map fun part =>
        .runtimeError (Text.dropHead ":" part).trim

/-- The annotation that a line of source carries; `none` if it carries none. -/
def ofLine? (text : Text) : Option (Except Text Annotation) :=
  (Text.cut marker text).map fun (_, behind) =>
    match ofRest? (behind.dropTrailing 0x0D) with
    | some a => .ok a
    | none => .error (marker ++ behind).trim

/-- The annotations of lines, the first of which has a number. -/
def ofLines (number : Nat) : List Text → Except ScriptError (List Annotation)
  | [] => .ok []
  | first :: rest =>
    match ofLine? first with
    | none => ofLines (number + 1) rest
    | some (.error words) => .error (.malformed number words)
    | some (.ok a) => (ofLines (number + 1) rest).map (a :: ·)

end Annotation

/-- A program and what is expected of it. -/
structure Script where
  path : Text
  source : Text
  /-- The lines it should print. -/
  expected : List Text
  expectStatic : Bool
  /-- What the message of the mistake it should stop with contains. -/
  expectRuntime : Option Text

namespace Script

/-- The script that a source is.  Of several runtime expectations the last one counts. -/
def ofSource (path source : Text) : Except ScriptError Script := do
  let annotations ← Annotation.ofLines 1 source.lines
  let script : Script :=
    { path := path
      source := source
      expected := annotations.filterMap fun
        | .line wanted => some wanted
        | _ => none
      expectStatic := annotations.contains .staticError
      expectRuntime := (annotations.filterMap fun
        | .runtimeError part => some part
        | _ => none).getLast? }
  if script.expectStatic && script.expectRuntime.isSome then throw .contradictory
  return script

/-- A way in which a run departs from what was expected. -/
inductive Mismatch where
  | notRejected
  | mistake (found : Diagnostic)
  | notFailed
  | otherMessage (message part : Text)
  | missingLine (number : Nat) (wanted : Text)
  | extraLine (number : Nat) (got : Text)
  | otherLine (number : Nat) (got wanted : Text)
deriving DecidableEq, Repr

/-- The sentence that tells a mismatch. -/
def Mismatch.message : Mismatch → Text
  | .notRejected => "expected a static error, program compiled"
  | .mistake found => "unexpected " ++ found.header
  | .notFailed => "expected a runtime error, program finished"
  | .otherMessage message part =>
    "runtime error " ++ message.quoted ++ " does not contain " ++ part.quoted
  | .missingLine number wanted =>
    "output line " ++ Text.ofNat number ++ ": missing, want " ++ wanted.quoted
  | .extraLine number got => "output line " ++ Text.ofNat number ++ ": unexpected " ++ got.quoted
  | .otherLine number got wanted =>
    "output line " ++ Text.ofNat number ++ ": got " ++ got.quoted ++ ", want " ++ wanted.quoted

/-- Where two lists of lines differ, position by position; the first position has a number. -/
def compareLines (number : Nat) : List Text → List Text → List Mismatch
  | [], gs => gs.mapIdx fun i got => .extraLine (number + i) got
  | wanted :: ws, [] => .missingLine number wanted :: compareLines (number + 1) ws []
  | wanted :: ws, got :: gs =>
    if wanted = got then compareLines (number + 1) ws gs
    else .otherLine number got wanted :: compareLines (number + 1) ws gs

variable (s : Script)

/-- How the end of a run that was not rejected departs from what was expected. -/
def checkEnd (r : Run) : List Mismatch :=
  match s.expectRuntime, r.outcome with
  | some part, .failed d =>
    if Text.has part d.message then [] else [.otherMessage d.message part]
  | some _, _ => [.notFailed]
  | none, .failed d => [.mistake d]
  | none, _ => []

/-- How a run departs from what was expected.  Nothing is printed by a program that is refused, so
then no lines are compared. -/
def check (r : Run) : List Mismatch :=
  match s.expectStatic, r.outcome with
  | true, .rejected _ => []
  | true, _ => [.notRejected]
  | false, .rejected ds => ds.map .mistake
  | false, _ => s.checkEnd r ++ compareLines 1 s.expected r.output

end Script

end YouthLang

import YouthLang.Token.Scanner
import YouthLang.Tree.Parse
import YouthLang.Scope

/-!
# Analysis — everything that is known about a source before it runs

A source is scanned, parsed and resolved, and the mistakes of all three are collected in that order.
Later steps also see what an earlier one could make of a broken source, so one analysis finds as many
mistakes as there are.
-/

namespace YouthLang

/-- A source's tokens and the lexical mistakes in it, read byte by byte. -/
def tokensOf (source : Text) : Scanned :=
  match (Scanner.ofSource [] source).scanTokens with
  | some s => ⟨s.tokens.toList, s.errors.toList.map (·.attach source)⟩
  | none => ⟨[], []⟩

/-- A source's program, the number of its last node, and the lexical and grammatical mistakes in it.  The
parser has given its own mistakes their lines by then; the others get theirs here. -/
def programOf (node : Nat) (file source : Text) (others : List Nat := []) : Parsed :=
  let scanned := scan source
  let parsed := parseFrom (.ofSource file source) node scanned.tokens others
  { parsed with
    diagnostics := (scanned.diagnostics ++ parsed.diagnostics).map (·.decorate file source) }

/-- A program ready to run if no mistake was found. -/
structure Analysis where
  statements : List Stmt
  distances : Distances
  /-- The number of the last node. -/
  node : Nat
  diagnostics : List Diagnostic

/-- A source analysed; its nodes are numbered from `node + 1` on, past the numbers that others take. -/
def analyse (node : Nat) (file source : Text) (others : List Nat := []) : Analysis :=
  let parsed := programOf node file source others
  let resolved := resolve parsed.statements
  { statements := parsed.statements
    distances := resolved.distances
    node := parsed.node
    diagnostics := parsed.diagnostics ++ resolved.diagnostics.map (·.decorate file source) }

/-- Every mistake that can be found without running the source. -/
def check (file source : Text) : List Diagnostic := (analyse 0 file source).diagnostics

/-- The mistake is only that the source has ended. -/
def Diagnostic.wantsMore (d : Diagnostic) : Bool :=
  d.atEnd || d.cause = .lexical .unterminatedString

/-- The source has mistakes, and all of them only because it has ended: more lines may mend it. -/
def isIncomplete (source : Text) : Bool :=
  let mistakes := (programOf 0 [] source).diagnostics
  !mistakes.isEmpty && mistakes.all Diagnostic.wantsMore

end YouthLang

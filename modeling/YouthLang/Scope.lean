import Std.Data.HashMap
import YouthLang.Tree
import YouthLang.Diagnostic

/-!
# Scope — what each name refers to

Before a program runs, every node that uses a name is told how many scopes out the name is declared.
The program, each block, each function (with its parameters) and each youth (which declares only the
receiver) is a scope; a name belongs to the innermost scope that has declared it so far.  A node whose
name no scope has declared has no entry and is looked up among the globals when the program runs.
-/

namespace YouthLang

/-- The distance of each resolved node: how many scopes out its name is declared. -/
abbrev Distances := Std.HashMap Nat Nat

/-- The names that a scope has declared so far, latest first, each with whether its declaration is
complete. -/
abbrev Scope := List (Text × Bool)

/-- Where a walk over a program stands: the open scopes, innermost first, and what was found. -/
structure Resolution where
  scopes : List Scope
  inFunction : Bool
  inYouth : Bool
  distances : Distances
  /-- Latest first. -/
  mistakes : List Diagnostic

namespace Resolution

variable (r : Resolution)

/-- The mistake at a token, reported. -/
def report (t : Token) (cause : ScopeCause) : Resolution :=
  { r with
    mistakes :=
      { cause := .resolution cause
        line := t.place.line
        column := t.place.column
        lexeme := t.lexeme } :: r.mistakes }

/-- A new innermost scope. -/
def enter (scope : Scope) : Resolution := { r with scopes := scope :: r.scopes }

/-- The innermost scope closed. -/
def leave : Resolution := { r with scopes := r.scopes.tail }

/-- The innermost scope. -/
def innermost : Scope := r.scopes.headD []

/-- The innermost scope with a name entered as declared, or as completely declared. -/
def note (name : Text) (complete : Bool) : Resolution :=
  match r.scopes with
  | [] => r
  | scope :: outer => { r with scopes := ((name, complete) :: scope) :: outer }

/-- A name declared in the innermost scope; it is a mistake if the scope has the name already. -/
def declare (t : Token) : Resolution :=
  (if (r.innermost.lookup t.lexeme).isSome then r.report t .duplicate else r).note t.lexeme false

/-- The declaration of a name completed. -/
def define (t : Token) : Resolution := r.note t.lexeme true

/-- The number of scopes between here and the innermost one that declares a name. -/
def distance? (name : Text) : Option Nat :=
  r.scopes.findIdx? fun scope => (scope.lookup name).isSome

/-- The distance of a node's name, entered for the node if there is one. -/
def resolve (node : Nat) (name : Text) : Resolution :=
  match r.distance? name with
  | some d => { r with distances := r.distances.insert node d }
  | none => r

end Resolution

mutual

/-- A walk over an expression.  The value of an assignment is walked before its target. -/
def Expr.resolve (r : Resolution) : Expr → Resolution
  | .literal _ => r
  | .variable node name =>
    (if r.innermost.lookup name.lexeme = some false then r.report name .ownInitializer else r).resolve
      node name.lexeme
  | .me node keyword =>
    if r.inYouth then r.resolve node keyword.lexeme else r.report keyword .meOutside
  | .group inner => inner.resolve r
  | .unary _ _ operand => operand.resolve r
  | .binary _ _ left right => right.resolve (left.resolve r)
  | .logical _ _ left right => right.resolve (left.resolve r)
  | .assign node name value => (value.resolve r).resolve node name.lexeme
  | .get object _ => object.resolve r
  | .set object _ value => object.resolve (value.resolve r)
  | .call callee _ arguments => resolveArguments (callee.resolve r) arguments

/-- A walk over a list of expressions. -/
def resolveArguments (r : Resolution) : List Expr → Resolution
  | [] => r
  | e :: rest => resolveArguments (e.resolve r) rest

end

mutual

/-- A walk over a statement. -/
def Stmt.resolve (r : Resolution) : Stmt → Resolution
  | .failed => r
  | .expression value => value.resolve r
  | .tell value => value.resolve r
  | .declare name none => (r.declare name).define name
  | .declare name (some value) => (value.resolve (r.declare name)).define name
  | .give keyword none => if r.inFunction then r else r.report keyword .giveOutside
  | .give keyword (some value) =>
    value.resolve (if r.inFunction then r else r.report keyword .giveOutside)
  | .block body => (resolveBody (r.enter []) body).leave
  | .branch condition yes none => yes.resolve (condition.resolve r)
  | .branch condition yes (some no) => no.resolve (yes.resolve (condition.resolve r))
  | .loop condition body => body.resolve (condition.resolve r)
  | .function declaration =>
    declaration.resolve ((r.declare declaration.name).define declaration.name)
  | .youth name methods =>
    let entered := (((r.declare name).define name).enter [(receiver, true)])
    { (resolveMethods { entered with inYouth := true } methods).leave with inYouth := r.inYouth }

/-- A walk over a function: its parameters and its body are one scope. -/
def Function.resolve (r : Resolution) : Function → Resolution
  | .mk _ parameters body =>
    let entered := parameters.foldl (fun r p => (r.declare p).define p) (r.enter [])
    { (resolveBody { entered with inFunction := true } body).leave with inFunction := r.inFunction }

/-- A walk over a list of statements. -/
def resolveBody (r : Resolution) : List Stmt → Resolution
  | [] => r
  | s :: rest => resolveBody (s.resolve r) rest

/-- A walk over a list of methods. -/
def resolveMethods (r : Resolution) : List Function → Resolution
  | [] => r
  | m :: rest => resolveMethods (m.resolve r) rest

end

/-- What a program's names refer to, and the mistakes in their use. -/
structure Resolved where
  distances : Distances
  diagnostics : List Diagnostic

/-- The names of a program resolved. -/
def resolve (statements : List Stmt) : Resolved :=
  let r := resolveBody ⟨[[]], false, false, ∅, []⟩ statements
  ⟨r.distances, r.mistakes.reverse⟩

end YouthLang

import YouthLang.Tree
import YouthLang.Number.Notation
import YouthLang.Text.Quoted

/-!
# Tree/Render — trees written out

A tree is written in a prefix form with everything in parentheses, `(* (- 123) (group 45.67))`.  An
expression takes one line; a statement inside another stands on a line of its own, two spaces further
in.  A list of statements is written one after another, so writing respects `++`
(`renderProgram_append`).
-/

namespace YouthLang

/-- A literal as the source would spell it. -/
def Literal.render : Literal → Text
  | .emptiness => "emptiness"
  | .truth true => "surely"
  | .truth false => "impossible"
  | .number x => Number.plain x
  | .text t => t.quoted

mutual

/-- An expression on one line. -/
def Expr.render : Expr → Text
  | .literal value => value.render
  | .variable _ name => name.lexeme
  | .me _ _ => receiver
  | .group inner => "(group " ++ inner.render ++ ")"
  | .unary _ token operand => "(" ++ token.lexeme ++ " " ++ operand.render ++ ")"
  | .binary _ token left right =>
    "(" ++ token.lexeme ++ " " ++ left.render ++ " " ++ right.render ++ ")"
  | .logical _ token left right =>
    "(" ++ token.lexeme ++ " " ++ left.render ++ " " ++ right.render ++ ")"
  | .assign _ name value => "(= " ++ name.lexeme ++ " " ++ value.render ++ ")"
  | .get object name => "(. " ++ name.lexeme ++ " " ++ object.render ++ ")"
  | .set object name value =>
    "(= . " ++ name.lexeme ++ " " ++ object.render ++ " " ++ value.render ++ ")"
  | .call callee _ arguments => "(call " ++ callee.render ++ renderArguments arguments ++ ")"

/-- Expressions with a space in front of each. -/
def renderArguments : List Expr → Text
  | [] => []
  | e :: rest => " " ++ e.render ++ renderArguments rest

end

/-- The start of a line, `depth` steps in. -/
def indented (depth : Nat) : Text := [Text.newline] ++ Text.spaces (2 * depth)

mutual

/-- A statement whose first line is `depth` steps in. -/
def Stmt.render (depth : Nat) : Stmt → Text
  | .failed => "(error)"
  | .expression value => "(; " ++ value.render ++ ")"
  | .tell value => "(tell " ++ value.render ++ ")"
  | .declare name none => "(is " ++ name.lexeme ++ ")"
  | .declare name (some value) => "(is " ++ name.lexeme ++ " " ++ value.render ++ ")"
  | .give _ none => "(give)"
  | .give _ (some value) => "(give " ++ value.render ++ ")"
  | .block body => "(block" ++ renderLines (depth + 1) body ++ ")"
  | .branch condition yes none =>
    "(if " ++ condition.render ++ indented (depth + 1) ++ yes.render (depth + 1) ++ ")"
  | .branch condition yes (some no) =>
    "(if " ++ condition.render ++ indented (depth + 1) ++ yes.render (depth + 1)
      ++ indented (depth + 1) ++ no.render (depth + 1) ++ ")"
  | .loop condition body =>
    "(while " ++ condition.render ++ indented (depth + 1) ++ body.render (depth + 1) ++ ")"
  | .function declaration => declaration.render depth
  | .youth name methods => "(youth " ++ name.lexeme ++ renderMethods (depth + 1) methods ++ ")"

/-- A function or method whose first line is `depth` steps in. -/
def Function.render (depth : Nat) : Function → Text
  | .mk name parameters body =>
    "(listen " ++ name.lexeme ++ " (" ++ Text.join " " (parameters.map Token.lexeme) ++ ")"
      ++ renderLines (depth + 1) body ++ ")"

/-- Statements on lines of their own. -/
def renderLines (depth : Nat) : List Stmt → Text
  | [] => []
  | s :: rest => indented depth ++ s.render depth ++ renderLines depth rest

/-- Methods on lines of their own. -/
def renderMethods (depth : Nat) : List Function → Text
  | [] => []
  | m :: rest => indented depth ++ m.render depth ++ renderMethods depth rest

end

/-- A program, one statement after another, each with a line end. -/
def renderProgram (statements : List Stmt) : Text :=
  statements.flatMap fun s => (s.render 0).line

/-- **Writing respects concatenation.** -/
theorem renderProgram_append (p q : List Stmt) :
    renderProgram (p ++ q) = renderProgram p ++ renderProgram q := List.flatMap_append

/-- The expressions of the top-level expression and `tell` statements, written out. -/
def renderExpressions (statements : List Stmt) : List Text :=
  statements.filterMap fun
    | .expression value => some value.render
    | .tell value => some value.render
    | _ => none

end YouthLang

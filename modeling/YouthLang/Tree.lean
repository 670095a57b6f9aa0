import YouthLang.Token

/-!
# Tree — programs as trees

Expressions and statements.  A node that reads or writes a name carries a number of its own, its
*node*: what is found out about the name before the program runs is kept in a table by that number.
A declaration that could not be parsed leaves `Stmt.failed` in its place.
-/

namespace YouthLang

/-- The value that a literal stands for. -/
inductive Literal where
  | emptiness
  | truth (b : Bool)
  | number (x : Float)
  | text (t : Text)
deriving DecidableEq

inductive UnaryOp where
  | negate
  | not
deriving DecidableEq, Repr

inductive BinaryOp where
  | add | subtract | multiply | divide
  | equal | notEqual
  | less | lessEqual | greater | greaterEqual
deriving DecidableEq, Repr

inductive LogicalOp where
  | and
  | or
deriving DecidableEq, Repr

inductive Expr where
  | literal (value : Literal)
  | variable (node : Nat) (name : Token)
  | me (node : Nat) (keyword : Token)
  | group (inner : Expr)
  | unary (op : UnaryOp) (token : Token) (operand : Expr)
  | binary (op : BinaryOp) (token : Token) (left right : Expr)
  | logical (op : LogicalOp) (token : Token) (left right : Expr)
  | assign (node : Nat) (name : Token) (value : Expr)
  | get (object : Expr) (name : Token)
  | set (object : Expr) (name : Token) (value : Expr)
  /-- The closing parenthesis is the place that a failed call is reported at. -/
  | call (callee : Expr) (paren : Token) (arguments : List Expr)

mutual

inductive Stmt where
  | expression (value : Expr)
  | tell (value : Expr)
  | declare (name : Token) (initializer : Option Expr)
  | give (keyword : Token) (value : Option Expr)
  | block (body : List Stmt)
  | branch (condition : Expr) (yes : Stmt) (no : Option Stmt)
  | loop (condition : Expr) (body : Stmt)
  | function (declaration : Function)
  | youth (name : Token) (methods : List Function)
  /-- The place of a declaration that could not be parsed. -/
  | failed

/-- A function or a method: its name, its parameters and its body. -/
inductive Function where
  | mk (name : Token) (parameters : List Token) (body : List Stmt)

end

namespace Function

def name : Function → Token
  | .mk name _ _ => name

def parameters : Function → List Token
  | .mk _ parameters _ => parameters

def body : Function → List Stmt
  | .mk _ _ body => body

end Function

/-- The name that a method sees its instance under. -/
def receiver : Text := "me"

end YouthLang

import YouthLang.Tree
import YouthLang.Diagnostic

/-!
# Tree/Parse — from tokens to trees

The grammar has one parser per rule.  A rule that contains itself takes the parser of the inner
occurrence as an argument, and `expressionAt`, `statementAt` close the circle: their number bounds how
deep rules may be nested.  An inner occurrence always follows a token of the outer one, so the number
of tokens left is bound enough.

A mistake is reported and unwinds to the innermost declaration, which leaves `Stmt.failed` and goes on
at the next statement.  Three mistakes are only reported: too many parameters, too many arguments and
an assignment to something that cannot be assigned to.
-/

namespace YouthLang

/-- A place between two tokens, the number of the last node and the mistakes so far, latest first.
The last token of the sequence marks its end. -/
structure Cursor where
  previous : Token
  current : Token
  following : List Token
  node : Nat
  mistakes : List Diagnostic
  /-- How many numbers other parsers take before each of the next ones; all draw from one count. -/
  others : Nat → Nat

namespace Cursor

/-- In front of the first token. -/
def start (node : Nat) (t : Token) (ts : List Token) (others : List Nat := []) : Cursor :=
  ⟨t, t, ts, node, [], fun k => others.getD k 0⟩

def atEnd (c : Cursor) : Bool := c.current.kind = .endOfSource

/-- The number of tokens from the current one on. -/
def size (c : Cursor) : Nat := c.following.length + 1

/-- One token further on, except at the end. -/
def advance (c : Cursor) : Cursor :=
  if c.atEnd then c
  else match c.following with
    | [] => c
    | t :: ts => { c with previous := c.current, current := t, following := ts }

/-- With a number for one more node. -/
def count (c : Cursor) : Cursor :=
  { c with node := c.node + c.others 0 + 1, others := fun k => c.others (k + 1) }

/-- The mistake at a token, reported; `Origin.report` adds the file and the source line. -/
def report (c : Cursor) (t : Token) (cause : GrammarCause) : Cursor :=
  { c with
    mistakes :=
      { cause := .grammatical cause
        line := t.place.line
        column := t.place.column
        lexeme := t.lexeme
        atEnd := t.kind = .endOfSource } :: c.mistakes }

/-- On to the next place where a statement may start, at most `n` tokens further. -/
def settle : Nat → Cursor → Cursor
  | 0, c => c
  | n + 1, c =>
    if c.atEnd || c.previous.kind = .semicolon || c.current.kind.startsStatement then c
    else settle n c.advance

/-- Recovery after a mistake: nothing is skipped in front of a word that starts a statement; otherwise
at least one token is, and then all up to a semicolon or such a word. -/
def recover (c : Cursor) : Cursor :=
  if c.current.kind.startsStatement then c else settle c.size c.advance

end Cursor

/-- How a parser ends: with a result, or unwinding after a mistake. -/
inductive Parsing (α : Type) where
  | done (value : α) (cursor : Cursor)
  | unwound (cursor : Cursor)

def Parser (α : Type) : Type := Cursor → Parsing α

namespace Parser

variable {α : Type}

instance : Monad Parser where
  pure a := fun c => .done a c
  bind p f := fun c =>
    match p c with
    | .done a c' => f a c'
    | .unwound c' => .unwound c'

/-- The current token, left where it is. -/
def peek : Parser Token := fun c => .done c.current c

/-- The current token, read. -/
def next : Parser Token := fun c => .done c.current c.advance

/-- The number of tokens left. -/
def remaining : Parser Nat := fun c => .done c.size c

/-- A number for a new node. -/
def freshNode : Parser Nat := fun c => .done c.count.node c.count

/-- Reports a mistake at a token and goes on. -/
def report (t : Token) (cause : GrammarCause) : Parser Unit := fun c => .done () (c.report t cause)

/-- Reports what is missing at the current token and unwinds. -/
def missing (what : Wanted) : Parser α := fun c => .unwound (c.report c.current (.missing what))

/-- The end of the nesting that was allowed for. -/
def exhausted : Parser α := fun c => .unwound c

/-- Whether the current token is of a kind. -/
def sees (kind : TokenKind) : Parser Bool := fun c => .done (c.current.kind = kind) c

/-- Reads a token of a kind if it comes next. -/
def accept (kind : TokenKind) : Parser Bool := do
  if ← sees kind then
    let _ ← next
    return true
  return false

/-- Reads a token of a kind, or reports that it is missing. -/
def expect (kind : TokenKind) (what : Wanted) : Parser Token := do
  if ← sees kind then next else missing what

end Parser

open YouthLang.Parser

/-! ## Expressions -/

/-- The two-operand levels, from the loosest to the tightest. -/
inductive Level where
  | disjunction | conjunction | equality | comparison | sum | product
deriving DecidableEq, Repr

namespace Level

/-- The node that an operator of a level makes, `none` for any other token. -/
def node? (level : Level) (t : Token) : Option (Expr → Expr → Expr) :=
  match level, t.kind with
  | .disjunction, .orKey => some (.logical .or t)
  | .conjunction, .andKey => some (.logical .and t)
  | .equality, .bangEqual => some (.binary .notEqual t)
  | .equality, .equalEqual => some (.binary .equal t)
  | .comparison, .greater => some (.binary .greater t)
  | .comparison, .greaterEqual => some (.binary .greaterEqual t)
  | .comparison, .less => some (.binary .less t)
  | .comparison, .lessEqual => some (.binary .lessEqual t)
  | .sum, .minus => some (.binary .subtract t)
  | .sum, .plus => some (.binary .add t)
  | .product, .slash => some (.binary .divide t)
  | .product, .star => some (.binary .multiply t)
  | _, _ => none

end Level

/-- The operators of a level and their right operands behind a left operand, at most `n` of them. -/
def chainFrom (level : Level) (operand : Parser Expr) : Nat → Expr → Parser Expr
  | 0, left => pure left
  | n + 1, left => do
    match level.node? (← peek) with
    | none => return left
    | some node =>
      let _ ← next
      let right ← operand
      chainFrom level operand n (node left right)

/-- Operands with the operators of a level between them, grouped to the left. -/
def chain (level : Level) (operand : Parser Expr) : Parser Expr := do
  let left ← operand
  chainFrom level operand (← remaining) left

/-- The arguments of a call from the next one on, at most `n` of them, behind those already read
(latest first). -/
def argumentsFrom (expression : Parser Expr) : Nat → List Expr → Parser (List Expr)
  | 0, read => pure read.reverse
  | n + 1, read => do
    if maxArguments ≤ read.length then report (← peek) .tooManyArguments
    let argument ← expression
    if ← accept .comma then argumentsFrom expression n (argument :: read)
    else return (argument :: read).reverse

/-- The arguments of a call, behind its opening parenthesis. -/
def callArguments (expression : Parser Expr) : Parser (List Expr) := do
  if ← sees .rightParen then return []
  argumentsFrom expression (← remaining) []

/-- Calls and property accesses behind an expression, at most `n` of them. -/
def suffixesFrom (expression : Parser Expr) : Nat → Expr → Parser Expr
  | 0, e => pure e
  | n + 1, e => do
    if ← accept .leftParen then
      let arguments ← callArguments expression
      let paren ← expect .rightParen (.closing .arguments)
      suffixesFrom expression n (.call e paren arguments)
    else if ← accept .dot then
      let name ← expect .identifier (.name .property)
      suffixesFrom expression n (.get e name)
    else return e

/-- A literal, a name, or an expression in parentheses. -/
def primary (expression : Parser Expr) : Parser Expr := do
  let t ← peek
  match t.kind with
  | .impossibleKey => let _ ← next; return .literal (.truth false)
  | .surelyKey => let _ ← next; return .literal (.truth true)
  | .emptinessKey => let _ ← next; return .literal .emptiness
  | .number x => let _ ← next; return .literal (.number x)
  | .string s => let _ ← next; return .literal (.text s)
  | .meKey => let _ ← next; return .me (← freshNode) t
  | .identifier => let _ ← next; return .variable (← freshNode) t
  | .leftParen =>
    let _ ← next
    let e ← expression
    let _ ← expect .rightParen (.closing .group)
    return .group e
  | _ => missing .expression

/-- A primary expression with its calls and property accesses. -/
def suffixed (expression : Parser Expr) : Parser Expr := do
  let e ← primary expression
  suffixesFrom expression (← remaining) e

/-- Signs in front of an expression, at most `n` of them. -/
def signedFrom (expression : Parser Expr) : Nat → Parser Expr
  | 0 => suffixed expression
  | n + 1 => do
    let t ← peek
    match t.kind with
    | .bang => let _ ← next; return .unary .not t (← signedFrom expression n)
    | .minus => let _ ← next; return .unary .negate t (← signedFrom expression n)
    | _ => suffixed expression

/-- A suffixed expression with the signs in front of it. -/
def signed (expression : Parser Expr) : Parser Expr := do
  signedFrom expression (← remaining)

/-- Everything that binds tighter than an assignment. -/
def operation (expression : Parser Expr) : Parser Expr :=
  [Level.product, .sum, .comparison, .equality, .conjunction, .disjunction].foldl
    (fun operand level => chain level operand) (signed expression)

/-- An operation, or an assignment of an expression to it.  What stands before the equals sign is
only known to be no target once the value is read. -/
def assignment (expression : Parser Expr) : Parser Expr := do
  let target ← operation expression
  let equals ← peek
  if ← accept .equal then
    let value ← expression
    match target with
    | .variable _ name => return .assign (← freshNode) name value
    | .get object name => return .set object name value
    | _ =>
      report equals .invalidTarget
      return target
  else return target

/-- An expression with at most `n` expressions nested in each other. -/
def expressionAt : Nat → Parser Expr
  | 0 => exhausted
  | n + 1 => assignment (expressionAt n)

/-- An expression. -/
def expression : Parser Expr := do
  expressionAt (← remaining)

/-! ## Statements -/

/-- The two rules that contain each other: a declaration may stand in a program, a block or a body, a
statement also behind a condition. -/
inductive Rule where
  | declaration
  | statement
deriving DecidableEq, Repr

/-- Declarations up to a closing parenthesis or the end, at most `n` of them, behind those already
read (latest first). -/
def declarationsFrom (declaration : Parser Stmt) : Nat → List Stmt → Parser (List Stmt)
  | 0, read => pure read.reverse
  | n + 1, read => do
    let t ← peek
    if t.kind = .rightParen || t.kind = .endOfSource then return read.reverse
    let s ← declaration
    declarationsFrom declaration n (s :: read)

/-- Declarations and the closing parenthesis, behind the opening one. -/
def block (declaration : Parser Stmt) : Parser (List Stmt) := do
  let body ← declarationsFrom declaration (← remaining) []
  let _ ← expect .rightParen (.closing .block)
  return body

/-- Parameters from the next one on, at most `n` of them, behind those already read (latest first). -/
def parametersFrom : Nat → List Token → Parser (List Token)
  | 0, read => pure read.reverse
  | n + 1, read => do
    if maxArguments ≤ read.length then report (← peek) .tooManyParameters
    let name ← expect .identifier (.name .parameter)
    if ← accept .comma then parametersFrom n (name :: read)
    else return (name :: read).reverse

/-- The parameters of a function, behind the opening parenthesis. -/
def parameterList : Parser (List Token) := do
  if ← sees .rightParen then return []
  parametersFrom (← remaining) []

/-- A function or method behind its first word. -/
def routine (kind : Routine) (declaration : Parser Stmt) : Parser Function := do
  let name ← expect .identifier (.name (.routine kind))
  let _ ← expect .leftParen (.opening (.parameters kind))
  let parameters ← parameterList
  let _ ← expect .rightParen (.closing .parameters)
  let _ ← expect .leftParen (.opening (.routineBody kind))
  return .mk name parameters (← block declaration)

/-- Methods up to a closing parenthesis or the end, at most `n` of them, behind those already read
(latest first). -/
def methodsFrom (declaration : Parser Stmt) : Nat → List Function → Parser (List Function)
  | 0, read => pure read.reverse
  | n + 1, read => do
    let t ← peek
    if t.kind = .rightParen || t.kind = .endOfSource then return read.reverse
    let _ ← expect .listenKey .listen
    let m ← routine .method declaration
    methodsFrom declaration n (m :: read)

/-- A youth behind its first word. -/
def youthDeclaration (declaration : Parser Stmt) : Parser Stmt := do
  let name ← expect .identifier (.name .youth)
  let _ ← expect .leftParen (.opening .youthBody)
  let methods ← methodsFrom declaration (← remaining) []
  let _ ← expect .rightParen (.closing .youthBody)
  return .youth name methods

/-- A variable behind its first word. -/
def variableDeclaration : Parser Stmt := do
  let name ← expect .identifier (.name .variable)
  let initializer ← if ← accept .equal then some <$> expression else pure none
  let _ ← expect .semicolon (.semicolon .declaration)
  return .declare name initializer

/-- An expression, unless a token of a kind comes next. -/
def expressionUnless (kind : TokenKind) : Parser (Option Expr) := do
  if ← sees kind then return none
  some <$> expression

/-- The statement that a counting loop stands for: a block with the initializer and a loop whose body
runs the body and then the increment. -/
def countingLoop (initializer : Option Stmt) (condition increment : Option Expr) (body : Stmt) :
    Stmt :=
  let body :=
    match increment with
    | some e => .block [body, .expression e]
    | none => body
  let loop := Stmt.loop (condition.getD (.literal (.truth true))) body
  match initializer with
  | some s => .block [s, loop]
  | none => loop

/-- The first clause of a counting loop. -/
def loopInitializer : Parser (Option Stmt) := do
  if ← accept .semicolon then return none
  if ← accept .isKey then return some (← variableDeclaration)
  let e ← expression
  let _ ← expect .semicolon (.semicolon .loopInitializer)
  return some (.expression e)

/-- A counting loop behind its first word. -/
def forStatement (statement : Parser Stmt) : Parser Stmt := do
  let _ ← expect .leftParen (.opening .loopClauses)
  let initializer ← loopInitializer
  let condition ← expressionUnless .semicolon
  let _ ← expect .semicolon (.semicolon .loopCondition)
  let increment ← expressionUnless .rightParen
  let _ ← expect .rightParen (.closing .loopClauses)
  return countingLoop initializer condition increment (← statement)

/-- A branch behind its first word. -/
def ifStatement (statement : Parser Stmt) : Parser Stmt := do
  let _ ← expect .leftParen (.opening .branchCondition)
  let condition ← expression
  let _ ← expect .rightParen (.closing .branchCondition)
  let yes ← statement
  if ← accept .elseKey then return .branch condition yes (some (← statement))
  else return .branch condition yes none

/-- A loop behind its first word. -/
def whileStatement (statement : Parser Stmt) : Parser Stmt := do
  let _ ← expect .leftParen (.opening .loopCondition)
  let condition ← expression
  let _ ← expect .rightParen (.closing .loopCondition)
  return .loop condition (← statement)

/-- A statement. -/
def statement (parse : Rule → Parser Stmt) : Parser Stmt := do
  let t ← peek
  match t.kind with
  | .forKey => let _ ← next; forStatement (parse .statement)
  | .ifKey => let _ ← next; ifStatement (parse .statement)
  | .tellKey =>
    let _ ← next
    let value ← expression
    let _ ← expect .semicolon (.semicolon .told)
    return .tell value
  | .giveKey =>
    let _ ← next
    let value ← expressionUnless .semicolon
    let _ ← expect .semicolon (.semicolon .given)
    return .give t value
  | .whileKey => let _ ← next; whileStatement (parse .statement)
  | .leftParen => let _ ← next; return .block (← block (parse .declaration))
  | _ =>
    let value ← expression
    let _ ← expect .semicolon (.semicolon .expression)
    return .expression value

/-- A declaration or statement, before recovery. -/
def declarationBody (parse : Rule → Parser Stmt) : Parser Stmt := do
  let t ← peek
  match t.kind with
  | .youthKey => let _ ← next; youthDeclaration (parse .declaration)
  | .listenKey => let _ ← next; return .function (← routine .function (parse .declaration))
  | .isKey => let _ ← next; variableDeclaration
  | _ => parse .statement

/-- A declaration that recovers from a mistake in it. -/
def recovering (p : Parser Stmt) : Parser Stmt := fun c =>
  match p c with
  | .done s c' => .done s c'
  | .unwound c' => .done .failed c'.recover

/-- A declaration or a statement with at most `n` of them nested in each other. -/
def statementAt : Nat → Rule → Parser Stmt
  | 0, _ => exhausted
  | n + 1, .declaration => recovering (declarationBody (statementAt n))
  | n + 1, .statement => statement (statementAt n)

/-- A declaration.  Every other level of nesting reads a token. -/
def declaration : Parser Stmt := do
  statementAt (2 * (← remaining)) .declaration

/-- Declarations up to the end, at most `n` of them, behind those already read (latest first). -/
def programFrom : Nat → List Stmt → Cursor → List Stmt × Cursor
  | 0, read, c => (read.reverse, c)
  | n + 1, read, c =>
    if c.atEnd then (read.reverse, c)
    else match declaration c with
      | .done s c' => programFrom n (s :: read) c'
      | .unwound c' => (read.reverse, c')

/-- A parsed program, the number of its last node and the mistakes in it. -/
structure Parsed where
  statements : List Stmt
  node : Nat
  diagnostics : List Diagnostic

/-- The program that a sequence of tokens spells.  Its nodes are numbered from `node + 1` on, past the
numbers that others take. -/
def parse (node : Nat) (tokens : List Token) (others : List Nat := []) : Parsed :=
  match tokens with
  | [] => ⟨[], node, []⟩
  | t :: ts =>
    let start : Cursor := .start node t ts others
    let (statements, c) := programFrom start.size [] start
    ⟨statements, c.node, c.mistakes.reverse⟩

/-! ## Sources -/

/-- What a parser knows of where its tokens are from: the file and the lines of the source. -/
structure Origin where
  file : Text
  lines : List Text

namespace Origin

/-- The origin of the tokens of a source. -/
def ofSource (file source : Text) : Origin := ⟨file, source.lines⟩

/-- A mistake as the parser reports it: in the file, if there is one, and with its source line, if there
is such a line. -/
def report (origin : Origin) (d : Diagnostic) : Diagnostic :=
  let placed := d.placed origin.file
  if 0 < placed.line && placed.line ≤ origin.lines.length then
    placed.withExcerpt (Text.dropTrailing 0x0D (origin.lines.getD (placed.line.toNat - 1) []))
  else placed

end Origin

/-- The program that the tokens of an origin spell.  No rule reads a mistake again, so all are given
their file and their line when the program is read. -/
def parseFrom (origin : Origin) (node : Nat) (tokens : List Token) (others : List Nat := []) : Parsed :=
  let parsed := parse node tokens others
  { parsed with diagnostics := parsed.diagnostics.map origin.report }

end YouthLang

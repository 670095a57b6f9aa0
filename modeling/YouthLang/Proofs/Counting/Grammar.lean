import YouthLang.Proofs.Counting.Walk

/-!
# Proofs/Counting/Grammar — the parser of a language with counting loops

The language with counting loops has the grammar that there is, and its parser makes a tree of its
own for a counting loop where the other one makes what the loop stands for.  So it reads the same
tokens, numbers the same nodes and finds the same mistakes, and its program stands for the one that
the other parser makes (`parse_desugar`).

Parsers are a lawful monad, and a parser that makes something of what another one has read is that
parser under a map; a rule that takes the parsers of its parts is compared with them under their
maps.
-/

namespace YouthLang

open YouthLang.Parser

section Monad

variable {α β : Type}

/-- A parser behind another starts where that one stops. -/
theorem Parser.bind_run (p : Parser α) (f : α → Parser β) (c : Cursor) : (p >>= f) c
    = match p c with
      | .done a c' => f a c'
      | .unwound c' => .unwound c' := rfl

/-- A result changed on the way leaves the cursor as it is. -/
theorem Parser.map_run (f : α → β) (p : Parser α) (c : Cursor) : (f <$> p) c
    = match p c with
      | .done a c' => .done (f a) c'
      | .unwound c' => .unwound c' := rfl

instance : LawfulMonad Parser := LawfulMonad.mk' Parser
  (fun p => funext fun c => by
    rw [Parser.map_run]
    cases p c <;> rfl)
  (fun _ _ => rfl)
  (fun p f g => funext fun c => by
    rw [Parser.bind_run, Parser.bind_run, Parser.bind_run]
    cases p c <;> rfl)

end Monad

namespace Counting

/-! ## The parser -/

/-- Declarations up to a closing parenthesis or the end, at most `n` of them, behind those already
read (latest first). -/
def declarationsFrom (declaration : Parser Decl) : Nat → List Decl → Parser (List Decl)
  | 0, read => pure read.reverse
  | n + 1, read => do
    let t ← peek
    if t.kind = .rightParen || t.kind = .endOfSource then return read.reverse
    let d ← declaration
    declarationsFrom declaration n (d :: read)

/-- Declarations and the closing parenthesis, behind the opening one. -/
def block (declaration : Parser Decl) : Parser (List Decl) := do
  let body ← declarationsFrom declaration (← remaining) []
  let _ ← expect .rightParen (.closing .block)
  return body

/-- A function or method behind its first word. -/
def routine (kind : Routine) (declaration : Parser Decl) : Parser Function := do
  let name ← expect .identifier (.name (.routine kind))
  let _ ← expect .leftParen (.opening (.parameters kind))
  let parameters ← parameterList
  let _ ← expect .rightParen (.closing .parameters)
  let _ ← expect .leftParen (.opening (.routineBody kind))
  return .mk name parameters (← block declaration)

/-- Methods up to a closing parenthesis or the end, at most `n` of them, behind those already read
(latest first). -/
def methodsFrom (declaration : Parser Decl) : Nat → List Function → Parser (List Function)
  | 0, read => pure read.reverse
  | n + 1, read => do
    let t ← peek
    if t.kind = .rightParen || t.kind = .endOfSource then return read.reverse
    let _ ← expect .listenKey .listen
    let m ← routine .method declaration
    methodsFrom declaration n (m :: read)

/-- A youth behind its first word. -/
def youthDeclaration (declaration : Parser Decl) : Parser Decl := do
  let name ← expect .identifier (.name .youth)
  let _ ← expect .leftParen (.opening .youthBody)
  let methods ← methodsFrom declaration (← remaining) []
  let _ ← expect .rightParen (.closing .youthBody)
  return .youth name methods

/-- What is made of a variable behind its first word. -/
def variableDeclaration {α : Type} (make : Token → Option Expr → α) : Parser α := do
  let name ← expect .identifier (.name .variable)
  let initializer ← if ← accept .equal then some <$> expression else pure none
  let _ ← expect .semicolon (.semicolon .declaration)
  return make name initializer

/-- The first clause of a counting loop. -/
def loopInitializer : Parser (Option Clause) := do
  if ← accept .semicolon then return none
  if ← accept .isKey then return some (← variableDeclaration .declare)
  let e ← expression
  let _ ← expect .semicolon (.semicolon .loopInitializer)
  return some (.expression e)

/-- A counting loop behind its first word. -/
def forStatement (statement : Parser Stmt) : Parser Stmt := do
  let _ ← expect .leftParen (.opening .loopClauses)
  let initializer ← loopInitializer
  let condition ← expressionUnless .semicolon
  let _ ← expect .semicolon (.semicolon .loopCondition)
  let increment ← expressionUnless .rightParen
  let _ ← expect .rightParen (.closing .loopClauses)
  return .count initializer condition increment (← statement)

/-- A branch behind its first word. -/
def ifStatement (statement : Parser Stmt) : Parser Stmt := do
  let _ ← expect .leftParen (.opening .branchCondition)
  let condition ← expression
  let _ ← expect .rightParen (.closing .branchCondition)
  let yes ← statement
  if ← accept .elseKey then return .branch condition yes (some (← statement))
  else return .branch condition yes none

/-- A loop behind its first word. -/
def whileStatement (statement : Parser Stmt) : Parser Stmt := do
  let _ ← expect .leftParen (.opening .loopCondition)
  let condition ← expression
  let _ ← expect .rightParen (.closing .loopCondition)
  return .loop condition (← statement)

/-- A statement. -/
def statement (declaration : Parser Decl) (inner : Parser Stmt) : Parser Stmt := do
  let t ← peek
  match t.kind with
  | .forKey => let _ ← next; forStatement inner
  | .ifKey => let _ ← next; ifStatement inner
  | .tellKey =>
    let _ ← next
    let value ← expression
    let _ ← expect .semicolon (.semicolon .told)
    return .tell value
  | .giveKey =>
    let _ ← next
    let value ← expressionUnless .semicolon
    let _ ← expect .semicolon (.semicolon .given)
    return .give t value
  | .whileKey => let _ ← next; whileStatement inner
  | .leftParen => let _ ← next; return .block (← block declaration)
  | _ =>
    let value ← expression
    let _ ← expect .semicolon (.semicolon .expression)
    return .expression value

/-- A declaration or statement, before recovery. -/
def declarationBody (declaration : Parser Decl) (inner : Parser Stmt) : Parser Decl := do
  let t ← peek
  match t.kind with
  | .youthKey => let _ ← next; youthDeclaration declaration
  | .listenKey => let _ ← next; return .function (← routine .function declaration)
  | .isKey => let _ ← next; variableDeclaration .declare
  | _ => .statement <$> inner

/-- A declaration that recovers from a mistake in it. -/
def recovering (p : Parser Decl) : Parser Decl := fun c =>
  match p c with
  | .done d c' => .done d c'
  | .unwound c' => .done .failed c'.recover

mutual

/-- A declaration with at most `n` declarations and statements nested in each other. -/
def declarationAt : Nat → Parser Decl
  | 0 => exhausted
  | n + 1 => recovering (declarationBody (declarationAt n) (statementAt n))

/-- The same for a statement. -/
def statementAt : Nat → Parser Stmt
  | 0 => exhausted
  | n + 1 => statement (declarationAt n) (statementAt n)

end

/-- A declaration.  Every other level of nesting reads a token. -/
def declaration : Parser Decl := do
  declarationAt (2 * (← remaining))

/-- Declarations up to the end, at most `n` of them, behind those already read (latest first). -/
def programFrom : Nat → List Decl → Cursor → List Decl × Cursor
  | 0, read, c => (read.reverse, c)
  | n + 1, read, c =>
    if c.atEnd then (read.reverse, c)
    else match declaration c with
      | .done d c' => programFrom n (d :: read) c'
      | .unwound c' => (read.reverse, c')

/-- A parsed program and the mistakes in it. -/
structure Parsed where
  statements : List Decl
  diagnostics : List Diagnostic

/-- The program that a sequence of tokens spells. -/
def parse : List Token → Parsed
  | [] => ⟨[], []⟩
  | t :: ts =>
    let start : Cursor := .start 0 t ts
    let (statements, c) := programFrom start.size [] start
    ⟨statements, c.mistakes.reverse⟩

/-! ## What it makes -/

/-- A body stands for what its declarations stand for. -/
theorem desugarBody_eq_map (body : List Decl) : desugarBody body = body.map Decl.desugar := by
  induction body with
  | nil => rfl
  | cons d body ih => rw [desugarBody, ih, List.map_cons]

section Rules

variable (d : Parser Decl) (s : Parser Stmt)

/-- The loop of a block makes what the same loop makes of the larger trees. -/
theorem declarationsFrom_desugar (n : Nat) (read : List Decl) :
    YouthLang.declarationsFrom (Decl.desugar <$> d) n (desugarBody read)
      = desugarBody <$> declarationsFrom d n read := by
  induction n generalizing read with
  | zero => simp [YouthLang.declarationsFrom, declarationsFrom, desugarBody_eq_map]
  | succ n ih =>
    simp only [YouthLang.declarationsFrom, declarationsFrom, map_bind, bind_map_left]
    refine bind_congr fun t => ?_
    split
    · simp [desugarBody_eq_map]
    · exact (bind_congr fun first => ih (first :: read)).trans (map_bind _ _ _).symm

/-- So does a block. -/
theorem block_desugar : YouthLang.block (Decl.desugar <$> d) = desugarBody <$> block d := by
  have hfrom := fun n => declarationsFrom_desugar d n []
  simp only [desugarBody] at hfrom
  simp [YouthLang.block, block, hfrom, map_bind, bind_map_left]

/-- So does a function. -/
theorem routine_desugar (kind : Routine) :
    YouthLang.routine kind (Decl.desugar <$> d) = Function.desugar <$> routine kind d := by
  simp [YouthLang.routine, routine, block_desugar, map_bind, Function.desugar]

/-- So does the loop of a class. -/
theorem methodsFrom_desugar (n : Nat) (read : List Function) :
    YouthLang.methodsFrom (Decl.desugar <$> d) n (desugarMethods read)
      = desugarMethods <$> methodsFrom d n read := by
  induction n generalizing read with
  | zero => simp [YouthLang.methodsFrom, methodsFrom, desugarMethods_eq_map]
  | succ n ih =>
    simp only [YouthLang.methodsFrom, methodsFrom, map_bind]
    refine bind_congr fun t => ?_
    split
    · simp [desugarMethods_eq_map]
    · simp only [map_bind, routine_desugar, bind_map_left]
      exact bind_congr fun _ => bind_congr fun m => ih (m :: read)

/-- So does a class. -/
theorem youthDeclaration_desugar :
    YouthLang.youthDeclaration (Decl.desugar <$> d) = Decl.desugar <$> youthDeclaration d := by
  have hfrom := fun n => methodsFrom_desugar d n []
  simp only [desugarMethods] at hfrom
  simp [YouthLang.youthDeclaration, youthDeclaration, hfrom, map_bind, bind_map_left, Decl.desugar]

/-- What a declaration is made into may be changed afterwards. -/
theorem map_variableDeclaration {α β : Type} (f : α → β) (make : Token → Option Expr → α) :
    f <$> variableDeclaration make = variableDeclaration fun name value => f (make name value) := by
  simp only [variableDeclaration, map_bind]
  refine bind_congr fun name => bind_congr fun b => ?_
  split <;> simp

/-- The rule of the language is the rule that makes its own declaration. -/
theorem variableDeclaration_eq : YouthLang.variableDeclaration = variableDeclaration .declare := rfl

/-- The first part of a loop is a clause and becomes a statement. -/
theorem loopInitializer_desugar :
    YouthLang.loopInitializer = Option.map Clause.desugar <$> loopInitializer := by
  simp only [YouthLang.loopInitializer, loopInitializer, map_bind]
  refine bind_congr fun b => ?_
  split
  · simp
  · simp only [map_bind]
    refine bind_congr fun b => ?_
    split
    · simp [variableDeclaration_eq, map_variableDeclaration, Clause.desugar]
    · simp [Clause.desugar]

/-- **A counting loop is desugared where it is read.** The one parser keeps the loop, and the other
makes its block at once. -/
theorem forStatement_desugar :
    YouthLang.forStatement (Stmt.desugar <$> s) = Stmt.desugar <$> forStatement s := by
  simp [YouthLang.forStatement, forStatement, loopInitializer_desugar, map_bind, bind_map_left,
    Stmt.desugar]

/-- A choice makes what the same rule makes of the larger trees. -/
theorem ifStatement_desugar :
    YouthLang.ifStatement (Stmt.desugar <$> s) = Stmt.desugar <$> ifStatement s := by
  simp only [YouthLang.ifStatement, ifStatement, map_bind, bind_map_left]
  refine bind_congr fun _ => bind_congr fun condition => bind_congr fun _ => bind_congr fun yes =>
    bind_congr fun b => ?_
  split <;> simp [Stmt.desugar]

/-- So does the other loop. -/
theorem whileStatement_desugar :
    YouthLang.whileStatement (Stmt.desugar <$> s) = Stmt.desugar <$> whileStatement s := by
  simp [YouthLang.whileStatement, whileStatement, map_bind, Stmt.desugar]

variable {parse : Rule → Parser YouthLang.Stmt} (hd : parse .declaration = Decl.desugar <$> d)
  (hs : parse .statement = Stmt.desugar <$> s)

include hd hs

/-- So does every kind of statement. -/
theorem statement_desugar : YouthLang.statement parse = Stmt.desugar <$> statement d s := by
  simp only [YouthLang.statement, statement, map_bind, hd, hs, forStatement_desugar,
    ifStatement_desugar, whileStatement_desugar, block_desugar]
  refine bind_congr fun t => ?_
  split <;> simp [*, Stmt.desugar]

/-- So does every kind of declaration. -/
theorem declarationBody_desugar :
    YouthLang.declarationBody parse = Decl.desugar <$> declarationBody d s := by
  simp only [YouthLang.declarationBody, declarationBody, map_bind, hd, hs, youthDeclaration_desugar,
    routine_desugar, variableDeclaration_eq]
  refine bind_congr fun t => ?_
  split <;> simp [*, map_variableDeclaration, Decl.desugar]

end Rules

/-- Recovery puts the same placeholder in both trees. -/
theorem recovering_desugar (p : Parser Decl) :
    YouthLang.recovering (Decl.desugar <$> p) = Decl.desugar <$> recovering p := by
  funext c
  rw [Parser.map_run, YouthLang.recovering, recovering, Parser.map_run]
  cases p c <;> rfl

/-- Declarations and statements together, by induction on the depth. -/
theorem parsersAt_desugar (n : Nat) :
    YouthLang.statementAt n .declaration = Decl.desugar <$> declarationAt n
      ∧ YouthLang.statementAt n .statement = Stmt.desugar <$> statementAt n := by
  induction n with
  | zero => exact ⟨rfl, rfl⟩
  | succ n ih =>
    obtain ⟨hd, hs⟩ := ih
    rw [YouthLang.statementAt, YouthLang.statementAt, declarationAt, statementAt,
      declarationBody_desugar _ _ hd hs, recovering_desugar, statement_desugar _ _ hd hs]
    exact ⟨rfl, rfl⟩

/-- A declaration stands for what the other parser reads. -/
theorem declaration_desugar : YouthLang.declaration = Decl.desugar <$> declaration := by
  simp only [YouthLang.declaration, declaration, map_bind, parsersAt_desugar]

/-- So does a program, declaration by declaration. -/
theorem programFrom_desugar (n : Nat) (read : List Decl) (c : Cursor) :
    YouthLang.programFrom n (desugarBody read) c
      = (desugarBody (programFrom n read c).1, (programFrom n read c).2) := by
  induction n generalizing read c with
  | zero => simp [YouthLang.programFrom, programFrom, desugarBody_eq_map]
  | succ n ih =>
    rw [YouthLang.programFrom, programFrom, declaration_desugar, Parser.map_run]
    split
    · simp [desugarBody_eq_map]
    · cases declaration c with
      | done d c' => exact ih (d :: read) c'
      | unwound c' => simp [desugarBody_eq_map]

/-- **The parser of the language with counting loops makes a program that stands for the one that
the other parser makes, and finds the same mistakes.** -/
theorem parse_desugar (tokens : List Token) :
    (YouthLang.parse 0 tokens).statements = desugarBody (parse tokens).statements
      ∧ (YouthLang.parse 0 tokens).diagnostics = (parse tokens).diagnostics := by
  cases tokens with
  | nil => exact ⟨rfl, rfl⟩
  | cons t ts =>
    have hprogram := programFrom_desugar (Cursor.start 0 t ts).size [] (.start 0 t ts)
    rw [desugarBody] at hprogram
    simp only [YouthLang.parse, parse, hprogram, and_self]

end Counting

end YouthLang

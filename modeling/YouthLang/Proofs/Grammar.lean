import YouthLang.Tree.Parse

/-!
# Proofs/Grammar — the language as a grammar

The grammar of the language says which runs of tokens are phrases of which rule, and which tree each of
them stands for.  A rule is a relation between runs and trees; the numbers of the nodes are left open.

* An expression is an assignment, whose target is a name or ends in a property; below it stand the
  levels of the operators, each grouped to the left, then the signs, the calls and properties, and the
  primary expressions.
* A branch with a second part is ambiguous: in `if (a) if (b) x; else y;` the second part may belong to
  either branch.  The rules come in two versions.  The plain one takes both readings; the strict one
  gives the second part to the nearest branch, by asking that the first part of a branch that has a
  second one cannot take it itself.
-/

namespace YouthLang.Grammar

/-- A rule: which runs of tokens stand for what. -/
abbrev Phrase (α : Type) : Type := List Token → α → Prop

/-! ## Lists -/

section Lists

variable {α : Type}

/-- One item or more, with commas between them. -/
inductive Separated (item : Phrase α) : Phrase (List α)
  | one {ts a} (h : item ts a) : Separated item ts [a]
  | more {ts a comma us as} (h : item ts a) (hcomma : comma.kind = .comma)
      (hrest : Separated item us as) : Separated item (ts ++ comma :: us) (a :: as)

/-- Nothing, or items with commas between them, as many as a call may have. -/
inductive Listed (item : Phrase α) : Phrase (List α)
  | none : Listed item [] []
  | some {ts as} (h : Separated item ts as) (hmax : as.length ≤ maxArguments) : Listed item ts as

/-- Items one after the other. -/
inductive Repeated (item : Phrase α) : Phrase (List α)
  | nil : Repeated item [] []
  | cons {ts a us as} (h : item ts a) (hrest : Repeated item us as) :
      Repeated item (ts ++ us) (a :: as)

/-- An item or nothing. -/
inductive Optional (item : Phrase α) : Phrase (Option α)
  | none : Optional item [] .none
  | some {ts a} (h : item ts a) : Optional item ts (.some a)

end Lists

/-- An identifier. -/
inductive Name : Phrase Token
  | mk {t} (h : t.kind = .identifier) : Name [t] t

/-! ## Expressions -/

section Expressions

variable (expression : Phrase Expr)

/-- A literal, a name, or an expression in parentheses. -/
inductive Primary : Phrase Expr
  | impossible {t} (h : t.kind = .impossibleKey) : Primary [t] (.literal (.truth false))
  | surely {t} (h : t.kind = .surelyKey) : Primary [t] (.literal (.truth true))
  | emptiness {t} (h : t.kind = .emptinessKey) : Primary [t] (.literal .emptiness)
  | number {t x} (h : t.kind = .number x) : Primary [t] (.literal (.number x))
  | string {t s} (h : t.kind = .string s) : Primary [t] (.literal (.text s))
  | me {t n} (h : t.kind = .meKey) : Primary [t] (.me n t)
  | name {t n} (h : t.kind = .identifier) : Primary [t] (.variable n t)
  | group {left ts e right} (hleft : left.kind = .leftParen) (h : expression ts e)
      (hright : right.kind = .rightParen) : Primary (left :: (ts ++ [right])) (.group e)

/-- A primary expression with calls and properties behind it. -/
inductive Suffixed : Phrase Expr
  | primary {ts e} (h : Primary expression ts e) : Suffixed ts e
  | call {ts e left us es right} (h : Suffixed ts e) (hleft : left.kind = .leftParen)
      (harguments : Listed expression us es) (hright : right.kind = .rightParen) :
      Suffixed (ts ++ left :: (us ++ [right])) (.call e right es)
  | get {ts e dot name} (h : Suffixed ts e) (hdot : dot.kind = .dot)
      (hname : name.kind = .identifier) : Suffixed (ts ++ [dot, name]) (.get e name)

/-- A suffixed expression with signs in front of it. -/
inductive Signed : Phrase Expr
  | suffixed {ts e} (h : Suffixed expression ts e) : Signed ts e
  | not {t ts e} (hsign : t.kind = .bang) (h : Signed ts e) : Signed (t :: ts) (.unary .not t e)
  | negate {t ts e} (hsign : t.kind = .minus) (h : Signed ts e) :
      Signed (t :: ts) (.unary .negate t e)

/-- Operands with the operators of a level between them, grouped to the left. -/
inductive Chain (level : Level) (operand : Phrase Expr) : Phrase Expr
  | operand {ts e} (h : operand ts e) : Chain level operand ts e
  | operator {ts left t node us right} (hleft : Chain level operand ts left)
      (hnode : level.node? t = some node) (hright : operand us right) :
      Chain level operand (ts ++ t :: us) (node left right)

/-- Everything that binds tighter than an assignment: the levels of the operators, the loosest first. -/
inductive Operation : Phrase Expr
  | levels {ts e}
      (h : Chain .disjunction (Chain .conjunction (Chain .equality (Chain .comparison (Chain .sum
        (Chain .product (Signed expression)))))) ts e) : Operation ts e

/-- An operation, or an assignment to a name or to a property. -/
inductive Assignment : Phrase Expr
  | operation {ts e} (h : Operation expression ts e) : Assignment ts e
  | assign {name n equals ts value} (hname : name.kind = .identifier)
      (hequals : equals.kind = .equal) (hvalue : expression ts value) :
      Assignment (name :: equals :: ts) (.assign n name value)
  | set {ts object dot name equals us value} (hobject : Suffixed expression ts object)
      (hdot : dot.kind = .dot) (hname : name.kind = .identifier) (hequals : equals.kind = .equal)
      (hvalue : expression us value) :
      Assignment (ts ++ dot :: name :: equals :: us) (.set object name value)

end Expressions

/-- An expression. -/
inductive Expression : Phrase Expr
  | assignment {ts e} (h : Assignment Expression ts e) : Expression ts e

/-- The kinds of token that an expression may start with. -/
def startsExpression : TokenKind → Bool
  | .impossibleKey | .surelyKey | .emptinessKey | .number _ | .string _ | .meKey | .identifier
  | .leftParen | .bang | .minus => true
  | _ => false

/-- A run of tokens that starts as an expression does. -/
def Starts (ts : List Token) : Prop := ∃ t us, ts = t :: us ∧ startsExpression t.kind = true

section Starts

variable {phrase : Phrase Expr} {ts us : List Token} {e : Expr}

theorem Starts.cons {t : Token} {kind : TokenKind} (h : t.kind = kind)
    (hkind : startsExpression kind = true) : Starts (t :: us) := ⟨t, us, rfl, by rw [h, hkind]⟩

theorem Starts.append (h : Starts ts) : Starts (ts ++ us) := by
  obtain ⟨t, ts, rfl, ht⟩ := h
  exact ⟨t, ts ++ us, rfl, ht⟩

theorem Primary.starts (h : Primary phrase ts e) : Starts ts := by
  cases h with
  | impossible h | surely h | emptiness h | number h | string h | me h | name h => exact .cons h rfl
  | group h _ _ => exact .cons h rfl

theorem Suffixed.starts (h : Suffixed phrase ts e) : Starts ts := by
  induction h with
  | primary h => exact h.starts
  | call _ _ _ _ ih => exact ih.append
  | get _ _ _ ih => exact ih.append

theorem Signed.starts (h : Signed phrase ts e) : Starts ts := by
  cases h with
  | suffixed h => exact h.starts
  | not h _ => exact .cons h rfl
  | negate h _ => exact .cons h rfl

theorem Chain.starts {level : Level} (hoperand : ∀ {ts e}, phrase ts e → Starts ts)
    (h : Chain level phrase ts e) : Starts ts := by
  induction h with
  | operand h => exact hoperand h
  | operator _ _ _ ih => exact ih.append

theorem Operation.starts (h : Operation phrase ts e) : Starts ts := by
  obtain ⟨h⟩ := h
  exact h.starts (Chain.starts (Chain.starts (Chain.starts (Chain.starts (Chain.starts
    Signed.starts)))))

/-- An expression has a first token, and of few kinds. -/
theorem Expression.starts (h : Expression ts e) : Starts ts := by
  obtain ⟨h⟩ := h
  cases h with
  | operation h => exact h.starts
  | assign h _ _ => exact .cons h rfl
  | set h _ _ _ _ => exact h.starts.append

end Starts

/-! ## Statements -/

/-- A variable behind its first word. -/
inductive Variable : Phrase Stmt
  | bare {name semicolon} (hname : name.kind = .identifier) (hend : semicolon.kind = .semicolon) :
      Variable [name, semicolon] (.declare name none)
  | initialized {name equals ts e semicolon} (hname : name.kind = .identifier)
      (hequals : equals.kind = .equal) (h : Expression ts e) (hend : semicolon.kind = .semicolon) :
      Variable (name :: equals :: (ts ++ [semicolon])) (.declare name (some e))

/-- The first clause of a counting loop, with its semicolon. -/
inductive Initializer : Phrase (Option Stmt)
  | none {semicolon} (hend : semicolon.kind = .semicolon) : Initializer [semicolon] none
  | variable {word ts s} (hword : word.kind = .isKey) (h : Variable ts s) :
      Initializer (word :: ts) (some s)
  | expression {ts e semicolon} (h : Expression ts e) (hend : semicolon.kind = .semicolon) :
      Initializer (ts ++ [semicolon]) (some (.expression e))

/-- The body of a counting loop: what is repeated, and the increment behind it. -/
def roundOf (body : Stmt) : Option Expr → Stmt
  | none => body
  | some increment => .block [body, .expression increment]

/-- What a counting loop stands for: a loop as long as its condition holds, for ever without one, inside
of a block with the initializer. -/
def loopOf (initializer : Option Stmt) (condition increment : Option Expr) (body : Stmt) : Stmt :=
  let loop := Stmt.loop (condition.getD (.literal (.truth true))) (roundOf body increment)
  match initializer with
  | none => loop
  | some s => .block [s, loop]

theorem countingLoop_eq_loopOf (s? : Option Stmt) (condition increment : Option Expr)
    (body : Stmt) : countingLoop s? condition increment body = loopOf s? condition increment body := by
  cases s? <;> cases increment <;> rfl

mutual

/-- A declaration or a statement. -/
inductive Declaration (strict : Bool) : Phrase Stmt
  | youth {word name left ts methods right} (hword : word.kind = .youthKey)
      (hname : name.kind = .identifier) (hleft : left.kind = .leftParen)
      (h : Repeated (Method strict) ts methods) (hright : right.kind = .rightParen) :
      Declaration strict (word :: name :: left :: (ts ++ [right])) (.youth name methods)
  | function {word ts f} (hword : word.kind = .listenKey) (h : Callable strict ts f) :
      Declaration strict (word :: ts) (.function f)
  | variable {word ts s} (hword : word.kind = .isKey) (h : Variable ts s) :
      Declaration strict (word :: ts) s
  | statement {open? ts s} (h : Statement strict open? ts s) : Declaration strict ts s

/-- A method with its first word. -/
inductive Method (strict : Bool) : Phrase Function
  | mk {word ts f} (hword : word.kind = .listenKey) (h : Callable strict ts f) :
      Method strict (word :: ts) f

/-- A function or a method behind its first word. -/
inductive Callable (strict : Bool) : Phrase Function
  | mk {name left ps parameters right left' ts body right'} (hname : name.kind = .identifier)
      (hleft : left.kind = .leftParen) (hparameters : Listed Name ps parameters)
      (hright : right.kind = .rightParen) (hleft' : left'.kind = .leftParen)
      (hbody : Repeated (Declaration strict) ts body) (hright' : right'.kind = .rightParen) :
      Callable strict (name :: left :: (ps ++ right :: left' :: (ts ++ [right'])))
        (.mk name parameters body)

/-- A statement, and whether it ends in a branch that could take a second part. -/
inductive Statement (strict : Bool) : Bool → Phrase Stmt
  | counting {word left is initializer cs condition semicolon ns increment right open? ts body}
      (hword : word.kind = .forKey) (hleft : left.kind = .leftParen)
      (hinitializer : Initializer is initializer) (hcondition : Optional Expression cs condition)
      (hend : semicolon.kind = .semicolon) (hincrement : Optional Expression ns increment)
      (hright : right.kind = .rightParen) (h : Statement strict open? ts body) :
      Statement strict open?
        (word :: left :: (is ++ (cs ++ semicolon :: (ns ++ right :: ts))))
        (loopOf initializer condition increment body)
  | branch {word left cs condition right open? ts yes} (hword : word.kind = .ifKey)
      (hleft : left.kind = .leftParen) (hcondition : Expression cs condition)
      (hright : right.kind = .rightParen) (hyes : Statement strict open? ts yes) :
      Statement strict true (word :: left :: (cs ++ right :: ts)) (.branch condition yes none)
  | branches {word left cs condition right open? ts yes word' open?' us no}
      (hword : word.kind = .ifKey) (hleft : left.kind = .leftParen)
      (hcondition : Expression cs condition) (hright : right.kind = .rightParen)
      (hyes : Statement strict open? ts yes) (hnearest : strict = true → open? = false)
      (hword' : word'.kind = .elseKey) (hno : Statement strict open?' us no) :
      Statement strict open?' (word :: left :: (cs ++ right :: (ts ++ word' :: us)))
        (.branch condition yes (some no))
  | loop {word left cs condition right open? ts body} (hword : word.kind = .whileKey)
      (hleft : left.kind = .leftParen) (hcondition : Expression cs condition)
      (hright : right.kind = .rightParen) (hbody : Statement strict open? ts body) :
      Statement strict open? (word :: left :: (cs ++ right :: ts)) (.loop condition body)
  | tell {word ts e semicolon} (hword : word.kind = .tellKey) (h : Expression ts e)
      (hend : semicolon.kind = .semicolon) :
      Statement strict false (word :: (ts ++ [semicolon])) (.tell e)
  | give {word ts e semicolon} (hword : word.kind = .giveKey) (h : Optional Expression ts e)
      (hend : semicolon.kind = .semicolon) :
      Statement strict false (word :: (ts ++ [semicolon])) (.give word e)
  | block {left ts body right} (hleft : left.kind = .leftParen)
      (h : Repeated (Declaration strict) ts body) (hright : right.kind = .rightParen) :
      Statement strict false (left :: (ts ++ [right])) (.block body)
  | expression {t ts e semicolon} (hfirst : t.kind ≠ .leftParen) (h : Expression (t :: ts) e)
      (hend : semicolon.kind = .semicolon) :
      Statement strict false (t :: (ts ++ [semicolon])) (.expression e)

end

/-- The kinds of token that no declaration starts with. -/
def startsNothing : TokenKind → Bool
  | .rightParen | .elseKey | .endOfSource => true
  | _ => false

/-- The kinds of token that a declaration which is no statement starts with. -/
def startsDeclaration : TokenKind → Bool
  | .youthKey | .listenKey | .isKey => true
  | _ => false

theorem Statement.first {strict open? : Bool} {ts : List Token} {s : Stmt}
    (h : Statement strict open? ts s) : ∃ t us, ts = t :: us ∧ startsNothing t.kind = false
      ∧ startsDeclaration t.kind = false := by
  cases h with
  | counting h _ _ _ _ _ _ _ | branch h _ _ _ _ | branches h _ _ _ _ _ _ _ | loop h _ _ _ _
  | tell h _ _ | give h _ _ | block h _ _ => exact ⟨_, _, rfl, by rw [h]; exact ⟨rfl, rfl⟩⟩
  | @expression t ts _ _ _ h _ =>
    obtain ⟨t', us, heq, ht'⟩ := h.starts
    obtain ⟨rfl, rfl⟩ := List.cons.inj heq
    refine ⟨_, _, rfl, ?_⟩
    revert ht'
    cases t.kind <;> simp [startsExpression, startsNothing, startsDeclaration]

/-- A declaration has a first token, and not of every kind. -/
theorem Declaration.first {strict : Bool} {ts : List Token} {s : Stmt}
    (h : Declaration strict ts s) : ∃ t us, ts = t :: us ∧ startsNothing t.kind = false := by
  cases h with
  | youth h _ _ _ _ | function h _ | «variable» h _ => exact ⟨_, _, rfl, by rw [h]; rfl⟩
  | statement h =>
    obtain ⟨t, us, hts, ht, -⟩ := h.first
    exact ⟨t, us, hts, ht⟩

/-- A program: declarations one after the other. -/
def Program (strict : Bool) : Phrase (List Stmt) := Repeated (Declaration strict)

end YouthLang.Grammar

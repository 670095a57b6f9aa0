import Mathlib.Data.List.ReduceOption
import YouthLang.Proofs.Rendered.Lexed

/-!
# Proofs/Rendered/Forms — written trees, read

What a list in parentheses stands for is told by its first word: that of a form (`Form`), or else of an
operator, and no form starts with an operator (`Form.ofWord?_of_operator`).  A word by itself is a
literal, a variable or `me`.  So a sheet is read from its words up, as an expression (`Sheet.expr?`) or
as a statement (`Sheet.stmt?`).
-/

namespace YouthLang

/-! ## Tokens without places -/

/-- A token at no place in particular. -/
def Token.spelling (kind : TokenKind) (t : Text) : Token := ⟨kind, t, .start⟩

/-- The closing parenthesis of a call, which only tells a place. -/
def Token.paren : Token := .spelling .rightParen ")"

/-- The word in front of what a function gives, which only tells a place. -/
def Token.giving : Token := .spelling .giveKey "give"

/-! ## Forms -/

/-- The lists in parentheses that start with a word of their own. -/
inductive Form where
  | group | call | assign | get
  | expression | tell | declare | give | block | branch | loop | function | youth | failed
deriving DecidableEq

namespace Form

/-- The first word of a list. -/
def word : Form → Text
  | .group => "group"
  | .call => "call"
  | .assign => "="
  | .get => "."
  | .expression => ";"
  | .tell => "tell"
  | .declare => "is"
  | .give => "give"
  | .block => "block"
  | .branch => "if"
  | .loop => "while"
  | .function => "listen"
  | .youth => "youth"
  | .failed => "error"

/-- The kind of token that the first word of a list is in a source. -/
def kind : Form → TokenKind
  | .group | .call | .block | .failed => .identifier
  | .assign => .equal
  | .get => .dot
  | .expression => .semicolon
  | .tell => .tellKey
  | .declare => .isKey
  | .give => .giveKey
  | .branch => .ifKey
  | .loop => .whileKey
  | .function => .listenKey
  | .youth => .youthKey

/-- The word of a form is a lexeme of its kind. -/
theorem isLexeme_word (f : Form) : f.word.IsLexeme f.kind := by
  cases f <;> exact ⟨_, _, rfl, by decide⟩

/-- So it is one word. -/
theorem isWord_word (f : Form) : f.word.IsWord := f.isLexeme_word.isWord (by cases f <;> rfl)

/-- All forms. -/
def all : List Form :=
  [.group, .call, .assign, .get, .expression, .tell, .declare, .give, .block, .branch, .loop,
    .function, .youth, .failed]

/-- The form that a word stands for. -/
def ofWord? (t : Text) : Option Form := all.find? fun f => f.word = t

/-- A form is known by its word. -/
theorem ofWord?_word (f : Form) : ofWord? f.word = some f := by cases f <;> decide

/-- No other word is taken for it. -/
theorem word_of_ofWord? {t : Text} {f : Form} (h : ofWord? t = some f) : f.word = t := by
  unfold ofWord? at h
  have hfound := List.find?_some h
  exact of_decide_eq_true hfound

end Form

/-! ## Operators -/

/-- The kinds of operators. -/
def TokenKind.isOperator : TokenKind → Bool
  | .minus | .bang | .plus | .star | .slash | .equalEqual | .bangEqual | .less | .lessEqual
  | .greater | .greaterEqual | .andKey | .orKey => true
  | _ => false

/-- A text is a token of one kind only. -/
theorem Text.IsLexeme.kind_unique {kind kind' : TokenKind} {t : Text} (h : t.IsLexeme kind)
    (h' : t.IsLexeme kind') : kind = kind' := by
  obtain ⟨first, rest, hglyphs, hfront⟩ := h
  obtain ⟨first', rest', hglyphs', hfront'⟩ := h'
  obtain ⟨rfl, rfl⟩ := List.cons.inj (hglyphs.symm.trans hglyphs')
  exact Content.token.inj (Prod.mk.inj (hfront.symm.trans hfront')).1

/-- No form starts with an operator. -/
theorem Form.ofWord?_of_operator {kind : TokenKind} {t : Text} (h : t.IsLexeme kind)
    (hkind : kind.isOperator = true) : Form.ofWord? t = none := by
  cases hform : Form.ofWord? t with
  | none => rfl
  | some f =>
    obtain rfl := Form.word_of_ofWord? hform
    rw [h.kind_unique f.isLexeme_word] at hkind
    cases f <;> exact absurd hkind Bool.false_ne_true

/-- The operation with one operand that a kind of token stands for. -/
def UnaryOp.ofKind? : TokenKind → Option UnaryOp
  | .minus => some .negate
  | .bang => some .not
  | _ => none

/-- The node with two operands that a token makes. -/
def Token.node? (t : Token) : Option (Expr → Expr → Expr) :=
  [Level.disjunction, .conjunction, .equality, .comparison, .sum, .product].findSome? (·.node? t)

/-- An operator in front of its operands, read. -/
def Expr.ofOperator? (kind : TokenKind) (t : Text) : List (Option Expr) → Option Expr
  | [some e] => (UnaryOp.ofKind? kind).map fun op => .unary op (.spelling kind t) e
  | [some left, some right] => (Token.spelling kind t).node?.map fun node => node left right
  | _ => none

section

variable {t : Text} {e left right : Expr}

/-- A sign in front of one operand is read as that. -/
theorem Expr.ofOperator?_unary (op : UnaryOp) :
    ofOperator? op.kind t [some e] = some (.unary op (.spelling op.kind t) e) := by
  cases op <;> rfl

/-- An operator in front of two is read as that. -/
theorem Expr.ofOperator?_binary (op : BinaryOp) : ofOperator? op.kind t [some left, some right]
    = some (.binary op (.spelling op.kind t) left right) := by
  cases op <;> rfl

/-- So is a logical one, which has lexemes of its own. -/
theorem Expr.ofOperator?_logical (op : LogicalOp) : ofOperator? op.kind t [some left, some right]
    = some (.logical op (.spelling op.kind t) left right) := by
  cases op <;> rfl

end

/-! ## Words -/

/-- The kind of the token that a text starts with. -/
def Text.kind? (t : Text) : Option TokenKind := (scan t).tokens.head?.map Token.kind

/-- A lexeme tells its kind. -/
theorem Text.IsLexeme.kind?_eq {kind : TokenKind} {t : Text} (h : t.IsLexeme kind) :
    t.kind? = some kind := by
  have hreads := ReadsAs.lexeme h stops_nil .nil
  rw [List.append_nil] at hreads
  have hhead := congrArg List.head? (scan_of_readsAs hreads).2
  rw [List.head?_map] at hhead
  obtain ⟨token, htoken, hreading⟩ := Option.map_eq_some_iff.mp hhead
  rw [Text.kind?, htoken, Option.map_some]
  exact congrArg (some ∘ Prod.fst) hreading

/-- The expression that a lexeme of a kind is by itself. -/
def Expr.ofKind? (kind : TokenKind) (t : Text) : Option Expr :=
  match kind with
  | .identifier => some (.variable 0 (.spelling .identifier t))
  | .meKey => some (.me 0 (.spelling .meKey t))
  | kind => kind.literal?.map .literal

/-- A word, read as an expression: between quotes a text, otherwise a lexeme. -/
def Expr.ofWord? (t : Text) : Option Expr :=
  if t.head? = some Text.quote then some (.literal (.text t.unquoted))
  else t.kind?.bind fun kind => Expr.ofKind? kind t

/-- A text in quotes is read as that text. -/
theorem Expr.ofWord?_quoted (t : Text) : ofWord? t.quoted = some (.literal (.text t)) := by
  have hhead : t.quoted.head? = some Text.quote := rfl
  rw [ofWord?, if_pos hhead, Text.unquoted_quoted]

/-- Every other single word is read by its kind. -/
theorem Expr.ofWord?_lexeme {kind : TokenKind} {t : Text} (h : t.IsLexeme kind)
    (hkind : kind.isSingle = true) : ofWord? t = ofKind? kind t := by
  obtain ⟨hne, hplain⟩ := h.plain hkind
  have hhead : t.head? ≠ some Text.quote := fun heq =>
    (hplain _ (List.mem_of_mem_head? heq)).2 rfl
  rw [ofWord?, if_neg hhead, h.kind?_eq, Option.bind_some]

/-! ## Lists -/

/-- A form, read as an expression from the sheets behind its first word and from the expressions that
those are. -/
def Expr.ofForm? (f : Form) (items : List Sheet) (parts : List (Option Expr)) : Option Expr :=
  match f, items, parts with
  | .group, _, [some e] => some (.group e)
  | .call, _, some e :: arguments => some (.call e .paren arguments.reduceOption)
  | .assign, [.word t, _], [_, some e] => some (.assign 0 (.spelling .identifier t) e)
  | .assign, [_, .word t, _, _], [_, _, some e, some value] =>
    some (.set e (.spelling .identifier t) value)
  | .get, [.word t, _], [_, some e] => some (.get e (.spelling .identifier t))
  | _, _, _ => none

/-- A list in parentheses, read as an expression. -/
def Expr.ofItems? (items : List Sheet) (parts : List (Option Expr)) : Option Expr :=
  match items, parts with
  | .word t :: items, _ :: parts =>
    match Form.ofWord? t with
    | some f => Expr.ofForm? f items parts
    | none => t.kind?.bind fun kind => Expr.ofOperator? kind t parts
  | _, _ => none

mutual

/-- A sheet, read as an expression. -/
def Sheet.expr? : Sheet → Option Expr
  | .word t => Expr.ofWord? t
  | .list items => Expr.ofItems? items (exprsOf items)

/-- Sheets, each read as an expression. -/
def exprsOf : List Sheet → List (Option Expr)
  | [] => []
  | s :: rest => s.expr? :: exprsOf rest

end

/-- The function that a statement declares. -/
def Stmt.function? : Stmt → Option Function
  | .function f => some f
  | _ => none

/-- The texts of sheets that are words. -/
def wordsIn (items : List Sheet) : List Text :=
  items.filterMap fun
    | .word t => some t
    | .list _ => none

/-- Methods are read back from their statements. -/
theorem filterMap_function? (ms : List Function) :
    (ms.map Stmt.function).filterMap Stmt.function? = ms := by
  rw [List.filterMap_map]
  exact List.filterMap_some

/-- Words are read back from their sheets. -/
theorem wordsIn_map_word (ts : List Text) : wordsIn (ts.map .word) = ts := by
  rw [wordsIn, List.filterMap_map]
  exact List.filterMap_some

/-- A form, read as a statement from the sheets behind its first word and from the statements that
those are. -/
def Stmt.ofForm? (f : Form) (items : List Sheet) (parts : List (Option Stmt)) : Option Stmt :=
  match f, items, parts with
  | .failed, [], _ => some .failed
  | .expression, [e], _ => e.expr?.map .expression
  | .tell, [e], _ => e.expr?.map .tell
  | .declare, [.word t], _ => some (.declare (.spelling .identifier t) none)
  | .declare, [.word t, e], _ =>
    e.expr?.map fun e => .declare (.spelling .identifier t) (some e)
  | .give, [], _ => some (.give .giving none)
  | .give, [e], _ => e.expr?.map fun e => .give .giving (some e)
  | .block, _, body => some (.block body.reduceOption)
  | .branch, [e, _], [_, some yes] => e.expr?.map fun e => .branch e yes none
  | .branch, [e, _, _], [_, some yes, some no] => e.expr?.map fun e => .branch e yes (some no)
  | .loop, [e, _], [_, some body] => e.expr?.map fun e => .loop e body
  | .function, .word t :: .list ps :: _, _ :: _ :: body =>
    some (.function (.mk (.spelling .identifier t) ((wordsIn ps).map (.spelling .identifier))
      body.reduceOption))
  | .youth, .word t :: _, _ :: methods =>
    some (.youth (.spelling .identifier t) (methods.reduceOption.filterMap Stmt.function?))
  | _, _, _ => none

/-- A list in parentheses, read as a statement. -/
def Stmt.ofItems? (items : List Sheet) (parts : List (Option Stmt)) : Option Stmt :=
  match items, parts with
  | .word t :: items, _ :: parts => (Form.ofWord? t).bind fun f => Stmt.ofForm? f items parts
  | _, _ => none

mutual

/-- A sheet, read as a statement. -/
def Sheet.stmt? : Sheet → Option Stmt
  | .word _ => none
  | .list items => Stmt.ofItems? items (stmtsOf items)

/-- Sheets, each read as a statement. -/
def stmtsOf : List Sheet → List (Option Stmt)
  | [] => []
  | s :: rest => s.stmt? :: stmtsOf rest

end

/-- The statements that a text of parentheses stands for. -/
def readProgram (t : Text) : List Stmt := ((sheetsOf t.signs).map Sheet.stmt?).reduceOption

/-- Nothing is dropped where nothing is missing. -/
theorem reduceOption_map_some {α : Type} (as : List α) : (as.map some).reduceOption = as := by
  rw [List.reduceOption, List.filterMap_map]
  exact List.filterMap_some

section

variable {items : List Sheet}

/-- Sheets are read as expressions one by one. -/
theorem exprsOf_eq_map : exprsOf items = items.map Sheet.expr? := by
  induction items with
  | nil => rfl
  | cons s items ih => rw [exprsOf, ih, List.map_cons]

/-- They are read as statements one by one. -/
theorem stmtsOf_eq_map : stmtsOf items = items.map Sheet.stmt? := by
  induction items with
  | nil => rfl
  | cons s items ih => rw [stmtsOf, ih, List.map_cons]

/-- A list with a form in front is an expression of that form. -/
theorem expr?_form (f : Form) : Sheet.expr? (.list (.word f.word :: items))
    = Expr.ofForm? f items (items.map Sheet.expr?) := by
  rw [Sheet.expr?, exprsOf, exprsOf_eq_map, Expr.ofItems?, Form.ofWord?_word]

/-- One with an operator in front applies it. -/
theorem expr?_operator {kind : TokenKind} {t : Text} (h : t.IsLexeme kind)
    (hkind : kind.isOperator = true) : Sheet.expr? (.list (.word t :: items))
      = Expr.ofOperator? kind t (items.map Sheet.expr?) := by
  rw [Sheet.expr?, exprsOf, exprsOf_eq_map, Expr.ofItems?, Form.ofWord?_of_operator h hkind]
  rw [h.kind?_eq, Option.bind_some]

/-- One with a form of statements in front is a statement of that form. -/
theorem stmt?_form (f : Form) : Sheet.stmt? (.list (.word f.word :: items))
    = Stmt.ofForm? f items (items.map Sheet.stmt?) := by
  rw [Sheet.stmt?, stmtsOf, stmtsOf_eq_map, Stmt.ofItems?, Form.ofWord?_word, Option.bind_some]

end

end YouthLang

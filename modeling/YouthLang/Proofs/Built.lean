import YouthLang.Proofs.Carried
import YouthLang.Proofs.Reading

/-!
# Proofs/Built — what every parsed tree is built like

A property of trees that each rule of the language keeps holds of every tree that a parser makes
(`Building.parse`), also where it left out what it could not parse.  A `Building` is such a property,
with one law for each kind of node: what the rule knows of the tokens that it has read may be used.
Mistakes are reported at tokens in front of a parser (`Parser.Writes`).
-/

namespace YouthLang

variable {A : Token → Prop}

/-! ## Parsers and the tokens in front of them -/

/-- The tokens in front of a cursor are allowed, and every mistake so far is at one that was. -/
structure Cursor.Offers (A : Token → Prop) (c : Cursor) : Prop where
  tokens : ∀ t ∈ c.tokens, A t
  mistakes : ∀ d ∈ c.mistakes, ∃ t, A t ∧ d.IsAt t

namespace Cursor.Offers

variable {c : Cursor}

/-- The next token is one of those ahead. -/
theorem current (hc : c.Offers A) : A c.current := hc.tokens _ List.mem_cons_self

/-- A report at such a token is one more of the kind. -/
theorem report (hc : c.Offers A) {t : Token} (ht : A t) (cause : GrammarCause) :
    (c.report t cause).Offers A where
  tokens := hc.tokens
  mistakes := List.forall_mem_cons.mpr
    ⟨⟨t, ht, rfl, rfl, rfl, of_decide_eq_true, rfl, nofun⟩, hc.mistakes⟩

/-- Behind a token the others are still ahead. -/
theorem advance (hc : c.Offers A) : c.advance.Offers A := by
  unfold Cursor.advance
  split
  · exact hc
  · split
    · exact hc
    · next t ts hfollowing =>
      exact ⟨fun u hu => hc.tokens u (by
        rw [Cursor.tokens, hfollowing]
        exact List.mem_cons_of_mem _ hu), hc.mistakes⟩

/-- Skipping leaves some of them. -/
theorem settle : ∀ (n : Nat) {c : Cursor}, c.Offers A → (Cursor.settle n c).Offers A
  | 0, _, hc => hc
  | n + 1, c, hc => by
      unfold Cursor.settle
      split
      · exact hc
      · exact settle n hc.advance

/-- So does recovery. -/
theorem recover (hc : c.Offers A) : c.recover.Offers A := by
  unfold Cursor.recover
  split
  · exact hc
  · exact settle c.size hc.advance

end Cursor.Offers

/-- Among allowed tokens a parser reports mistakes at such tokens only, and something holds of its
result. -/
def Parser.Writes {α : Type} (A : Token → Prop) (p : Parser α) (post : α → Prop) : Prop :=
  ∀ c : Cursor, c.Offers A → match p c with
    | .done a c' => c'.Offers A ∧ post a
    | .unwound c' => c'.Offers A

/-- An allowed token of a kind. -/
def Token.Fits (A : Token → Prop) (kind : TokenKind) (t : Token) : Prop := t.kind = kind ∧ A t

namespace Parser.Writes

variable {α β : Type} {kind : TokenKind} {post : β → Prop}

/-- A result at hand is written from no token. -/
theorem pure {b : β} (h : post b) : Writes A (Pure.pure b) post := fun _ hc => ⟨hc, h⟩

/-- The second part goes on with what the first one has written. -/
theorem bind {p : Parser α} {f : α → Parser β} {pre : α → Prop} (hp : Writes A p pre)
    (hf : ∀ a, pre a → Writes A (f a) post) : Writes A (p >>= f) post := by
  intro c hc
  have := hp c hc
  split at this
  · next a c' heq =>
    rw [Parser.bind_of_done heq]
    exact hf a this.2 c' this.1
  · next c' heq =>
    rw [Parser.bind_of_unwound heq]
    exact this

/-- The result may be changed on the way. -/
theorem map {p : Parser α} {g : α → β} {pre : α → Prop} (hp : Writes A p pre)
    (h : ∀ a, pre a → post (g a)) : Writes A (g <$> p) post := bind hp fun a ha => pure (h a ha)

/-- Either branch writes. -/
theorem ite {P : Prop} [Decidable P] {yes no : Parser β} (hyes : Writes A yes post)
    (hno : Writes A no post) : Writes A (if P then yes else no) post := by
  split
  · exact hyes
  · exact hno

/-- A look at the next token sees one of those ahead. -/
theorem peek : Writes A Parser.peek A := fun _ hc => ⟨hc, hc.current⟩

/-- So does taking it. -/
theorem next : Writes A Parser.next A := fun _ hc => ⟨hc.advance, hc.current⟩

/-- Counting what is left writes nothing. -/
theorem remaining : Writes A Parser.remaining fun _ => True := fun _ hc => ⟨hc, trivial⟩

/-- Neither does a new number. -/
theorem freshNode : Writes A Parser.freshNode fun _ => True :=
  fun _ hc => ⟨⟨hc.tokens, hc.mistakes⟩, trivial⟩

/-- Neither does a report. -/
theorem report {t : Token} (ht : A t) (cause : GrammarCause) :
    Writes A (Parser.report t cause) fun _ => True := fun _ hc => ⟨hc.report ht cause, trivial⟩

/-- A complaint has no result. -/
theorem missing {what : Wanted} : Writes A (Parser.missing what) post :=
  fun _ hc => hc.report hc.current _

/-- Neither has a bound that is reached. -/
theorem exhausted : Writes A Parser.exhausted post := fun _ hc => hc

/-- A look for a kind writes nothing. -/
theorem sees : Writes A (Parser.sees kind) fun _ => True := fun _ hc => ⟨hc, trivial⟩

/-- Neither does a word that may come. -/
theorem accept : Writes A (Parser.accept kind) fun _ => True :=
  bind sees fun _ _ => ite (bind next fun _ _ => pure trivial) (pure trivial)

/-- A word that has to come is of its kind. -/
theorem expect {what : Wanted} : Writes A (Parser.expect kind what) (Token.Fits A kind) := by
  intro c hc
  by_cases hkind : c.current.kind = kind
  · have hread : Parser.expect kind what c = .done c.current c.advance := by
      simp [Parser.expect, Parser.sees, Parser.next, Bind.bind, hkind]
    rw [hread]
    exact ⟨hc.advance, hkind, hc.current⟩
  · have hmissing : Parser.expect kind what c = Parser.missing what c := by
      simp [Parser.expect, Parser.sees, Bind.bind, hkind]
    rw [hmissing]
    exact hc.report hc.current _

end Parser.Writes

/-! ## Rules -/

/-- The value of a token that is a literal. -/
def TokenKind.literal? : TokenKind → Option Literal
  | .impossibleKey => some (.truth false)
  | .surelyKey => some (.truth true)
  | .emptinessKey => some .emptiness
  | .number x => some (.number x)
  | .string t => some (.text t)
  | _ => none

/-- The kind of the token that a sign in front of an expression is written with. -/
def UnaryOp.kind : UnaryOp → TokenKind
  | .negate => .minus
  | .not => .bang

/-- The kind of the token that an operation is written with. -/
def BinaryOp.kind : BinaryOp → TokenKind
  | .add => .plus
  | .subtract => .minus
  | .multiply => .star
  | .divide => .slash
  | .equal => .equalEqual
  | .notEqual => .bangEqual
  | .less => .less
  | .lessEqual => .lessEqual
  | .greater => .greater
  | .greaterEqual => .greaterEqual

/-- The kind of the token that a logical operation is written with. -/
def LogicalOp.kind : LogicalOp → TokenKind
  | .and => .andKey
  | .or => .orKey

/-- A property of trees, kept by every rule that builds one from its parts and from allowed tokens. -/
structure Building (A : Token → Prop) where
  expr : Expr → Prop
  stmt : Stmt → Prop
  routine : Function → Prop
  literal {t v} : A t → t.kind.literal? = some v → expr (.literal v)
  /-- The condition of a counting loop that has none. -/
  endless : expr (.literal (.truth true))
  mention {n t} : Token.Fits A .identifier t → expr (.variable n t)
  me {n t} : Token.Fits A .meKey t → expr (.me n t)
  group {e} : expr e → expr (.group e)
  unary {op t e} : Token.Fits A op.kind t → expr e → expr (.unary op t e)
  binary {op t left right} : Token.Fits A op.kind t → expr left → expr right →
    expr (.binary op t left right)
  logical {op t left right} : Token.Fits A op.kind t → expr left → expr right →
    expr (.logical op t left right)
  assign {n m t e} : expr (.variable n t) → expr e → expr (.assign m t e)
  get {e t} : expr e → Token.Fits A .identifier t → expr (.get e t)
  set {e t value} : expr (.get e t) → expr value → expr (.set e t value)
  call {e t es} : expr e → Token.Fits A .rightParen t → (∀ e ∈ es, expr e) → expr (.call e t es)
  failed : stmt .failed
  expression {e} : expr e → stmt (.expression e)
  tell {e} : expr e → stmt (.tell e)
  declare {t e?} : Token.Fits A .identifier t → (∀ e ∈ e?, expr e) → stmt (.declare t e?)
  give {t e?} : Token.Fits A .giveKey t → (∀ e ∈ e?, expr e) → stmt (.give t e?)
  block {body} : (∀ s ∈ body, stmt s) → stmt (.block body)
  branch {e yes no?} : expr e → stmt yes → (∀ s ∈ no?, stmt s) → stmt (.branch e yes no?)
  loop {e body} : expr e → stmt body → stmt (.loop e body)
  function {f} : routine f → stmt (.function f)
  youth {t methods} : Token.Fits A .identifier t → (∀ m ∈ methods, routine m) →
    stmt (.youth t methods)
  define {t ps body} : Token.Fits A .identifier t → (∀ p ∈ ps, Token.Fits A .identifier p) →
    (∀ s ∈ body, stmt s) → routine (.mk t ps body)

namespace Building

variable (P : Building A)

open Parser.Writes YouthLang.Parser

/-! ## Expressions -/

section Expressions

variable {expression operand : Parser Expr} (hex : expression.Writes A P.expr)

/-- An operator with its operands on both sides is built of built parts. -/
theorem node {level : Level} {t : Token} {node : Expr → Expr → Expr}
    (h : level.node? t = some node) (ht : A t) {left right : Expr} (hleft : P.expr left)
    (hright : P.expr right) : P.expr (node left right) := by
  unfold Level.node? at h
  split at h
  case h_1 hkind | h_2 hkind =>
    obtain rfl := Option.some.inj h
    exact P.logical ⟨hkind, ht⟩ hleft hright
  case h_13 => exact absurd h (by simp)
  all_goals
    next hkind =>
    obtain rfl := Option.some.inj h
    exact P.binary ⟨hkind, ht⟩ hleft hright

/-- Round by round a chain is built. -/
theorem writes_chainFrom {level : Level} (hop : operand.Writes A P.expr) :
    ∀ (n : Nat) {left : Expr}, P.expr left → (chainFrom level operand n left).Writes A P.expr
  | 0, _, hleft => .pure hleft
  | n + 1, _, hleft => by
      refine .bind .peek fun t ht => ?_
      split
      · exact .pure hleft
      · next node hnode =>
        exact .bind .next fun _ _ => .bind hop fun right hright =>
          writes_chainFrom hop n (P.node hnode ht hleft hright)

/-- A chain is built of operands. -/
theorem writes_chain {level : Level} (hop : operand.Writes A P.expr) :
    (chain level operand).Writes A P.expr :=
  .bind hop fun _ hleft => .bind .remaining fun n _ => P.writes_chainFrom hop n hleft

include hex

/-- Every argument is built. -/
theorem writes_argumentsFrom : ∀ (n : Nat) {read : List Expr}, (∀ e ∈ read, P.expr e) →
    (argumentsFrom expression n read).Writes A fun es => ∀ e ∈ es, P.expr e
  | 0, _, hread => .pure (by simpa using hread)
  | n + 1, read, hread => by
      have hmore : Writes A (do
          let argument ← expression
          if ← accept .comma then argumentsFrom expression n (argument :: read)
          else pure (argument :: read).reverse) fun es => ∀ e ∈ es, P.expr e := by
        refine .bind hex fun e he => .bind .accept fun _ _ => ?_
        have hread' : ∀ e' ∈ e :: read, P.expr e' := List.forall_mem_cons.mpr ⟨he, hread⟩
        exact .ite (writes_argumentsFrom n hread')
          (.pure fun e' h => hread' e' (List.mem_reverse.mp h))
      exact .ite (.bind .peek fun _ ht => .bind (.report ht _) fun _ _ => hmore) hmore

/-- So is every argument between two parentheses. -/
theorem writes_callArguments :
    (callArguments expression).Writes A fun es => ∀ e ∈ es, P.expr e :=
  .bind .sees fun _ _ => .ite (.pure nofun)
    (.bind .remaining fun n _ => P.writes_argumentsFrom hex n nofun)

/-- Round by round the suffixes are built onto an operand. -/
theorem writes_suffixesFrom : ∀ (n : Nat) {e : Expr}, P.expr e →
    (suffixesFrom expression n e).Writes A P.expr
  | 0, _, he => .pure he
  | n + 1, _, he => by
      refine .bind .accept fun _ _ => .ite ?_ (.bind .accept fun _ _ => .ite ?_ (.pure he))
      · exact .bind (P.writes_callArguments hex) fun _ hes => .bind .expect fun _ hparen =>
          writes_suffixesFrom n (P.call he hparen hes)
      · exact .bind .expect fun _ hname => writes_suffixesFrom n (P.get he hname)

/-- Each of the operands is built. -/
theorem writes_primary : (primary expression).Writes A P.expr := by
  refine .bind .peek fun t ht => ?_
  have hliteral : ∀ {value}, t.kind.literal? = some value → Writes A (do
      let _ ← next
      return Expr.literal value) P.expr := fun hvalue =>
    .bind .next fun _ _ => .pure (P.literal ht hvalue)
  split
  case h_6 hkind =>
    exact .bind .next fun _ _ => .bind .freshNode fun _ _ => .pure (P.me ⟨hkind, ht⟩)
  case h_7 hkind =>
    exact .bind .next fun _ _ => .bind .freshNode fun _ _ => .pure (P.mention ⟨hkind, ht⟩)
  case h_8 =>
    exact .bind .next fun _ _ => .bind hex fun _ he => .bind .expect fun _ _ => .pure (P.group he)
  case h_9 => exact .missing
  all_goals
    next hkind =>
    exact hliteral (by rw [hkind]; rfl)

/-- So is one with suffixes. -/
theorem writes_suffixed : (suffixed expression).Writes A P.expr :=
  .bind (P.writes_primary hex) fun _ he => .bind .remaining fun n _ =>
    P.writes_suffixesFrom hex n he

/-- So is one with signs in front. -/
theorem writes_signedFrom : ∀ n : Nat, (signedFrom expression n).Writes A P.expr
  | 0 => P.writes_suffixed hex
  | n + 1 => by
      refine .bind .peek fun t ht => ?_
      split
      · next hkind =>
        exact .bind .next fun _ _ => .bind (writes_signedFrom n) fun _ he =>
          .pure (P.unary ⟨hkind, ht⟩ he)
      · next hkind =>
        exact .bind .next fun _ _ => .bind (writes_signedFrom n) fun _ he =>
          .pure (P.unary ⟨hkind, ht⟩ he)
      · exact P.writes_suffixed hex

/-- Level by level the operators build on them. -/
theorem writes_operation : (operation expression).Writes A P.expr := by
  have hsigned : (signed expression).Writes A P.expr :=
    .bind .remaining fun n _ => P.writes_signedFrom hex n
  exact P.writes_chain (P.writes_chain (P.writes_chain (P.writes_chain (P.writes_chain
    (P.writes_chain hsigned)))))

/-- An assignment is built of a target and a value. -/
theorem writes_assignment : (assignment expression).Writes A P.expr := by
  refine .bind (P.writes_operation hex) fun target htarget => .bind .peek fun equals hequals =>
    .bind .accept fun _ _ => .ite (.bind hex fun value hvalue => ?_) (.pure htarget)
  split
  · exact .bind .freshNode fun _ _ => .pure (P.assign htarget hvalue)
  · exact .pure (P.set htarget hvalue)
  · exact .bind (.report hequals _) fun _ _ => .pure htarget

omit hex in
/-- At every depth an expression is built, if there is one. -/
theorem writes_expressionAt : ∀ n : Nat, (expressionAt n).Writes A P.expr
  | 0 => .exhausted
  | n + 1 => P.writes_assignment (writes_expressionAt n)

omit hex in
/-- **An expression is built of its parts.** -/
theorem writes_expression : YouthLang.expression.Writes A P.expr :=
  .bind .remaining fun n _ => P.writes_expressionAt n

end Expressions

/-! ## Statements -/

section Statements

variable {statement declaration : Parser Stmt} (hd : declaration.Writes A P.stmt)
  (hst : statement.Writes A P.stmt)

section

include hd

/-- Every declaration inside is built. -/
theorem writes_declarationsFrom : ∀ (n : Nat) {read : List Stmt}, (∀ s ∈ read, P.stmt s) →
    (declarationsFrom declaration n read).Writes A fun body => ∀ s ∈ body, P.stmt s
  | 0, _, hread => .pure (by simpa using hread)
  | n + 1, _, hread => .bind .peek fun _ _ => .ite (.pure (by simpa using hread))
      (.bind hd fun _ hs => writes_declarationsFrom n (List.forall_mem_cons.mpr ⟨hs, hread⟩))

/-- So is every one between two parentheses. -/
theorem writes_block : (YouthLang.block declaration).Writes A fun body => ∀ s ∈ body, P.stmt s :=
  .bind .remaining fun n _ => .bind (P.writes_declarationsFrom hd n nofun) fun _ hbody =>
    .bind .expect fun _ _ => .pure hbody

omit hd P in
/-- Every parameter is a name. -/
theorem writes_parametersFrom : ∀ (n : Nat) {read : List Token},
    (∀ t ∈ read, Token.Fits A .identifier t) →
    (parametersFrom n read).Writes A fun ps => ∀ p ∈ ps, Token.Fits A .identifier p
  | 0, _, hread => .pure (by simpa using hread)
  | n + 1, read, hread => by
      have hmore : Writes A (do
          let name ← expect .identifier (.name .parameter)
          if ← accept .comma then parametersFrom n (name :: read)
          else pure (name :: read).reverse) fun ps => ∀ p ∈ ps, Token.Fits A .identifier p := by
        refine .bind .expect fun t ht => .bind .accept fun _ _ => ?_
        have hread' : ∀ u ∈ t :: read, Token.Fits A .identifier u :=
          List.forall_mem_cons.mpr ⟨ht, hread⟩
        exact .ite (writes_parametersFrom n hread')
          (.pure fun u h => hread' u (List.mem_reverse.mp h))
      exact .ite (.bind .peek fun _ ht => .bind (.report ht _) fun _ _ => hmore) hmore

omit hd P in
/-- So is every one between two parentheses. -/
theorem writes_parameterList :
    parameterList.Writes A fun ps => ∀ p ∈ ps, Token.Fits A .identifier p :=
  .bind .sees fun _ _ => .ite (.pure nofun)
    (.bind .remaining fun n _ => writes_parametersFrom n nofun)

/-- A routine is a name with its parameters and a built body. -/
theorem writes_routine (kind : Routine) : (YouthLang.routine kind declaration).Writes A P.routine :=
  .bind .expect fun _ hname => .bind .expect fun _ _ => .bind writes_parameterList fun _ hps =>
    .bind .expect fun _ _ => .bind .expect fun _ _ => .bind (P.writes_block hd) fun _ hbody =>
      .pure (P.define hname hps hbody)

/-- Every method is such a routine. -/
theorem writes_methodsFrom : ∀ (n : Nat) {read : List Function}, (∀ m ∈ read, P.routine m) →
    (methodsFrom declaration n read).Writes A fun ms => ∀ m ∈ ms, P.routine m
  | 0, _, hread => .pure (by simpa using hread)
  | n + 1, _, hread => .bind .peek fun _ _ => .ite (.pure (by simpa using hread))
      (.bind .expect fun _ _ => .bind (P.writes_routine hd .method) fun _ hm =>
        writes_methodsFrom n (List.forall_mem_cons.mpr ⟨hm, hread⟩))

/-- A class is a name with its methods. -/
theorem writes_youthDeclaration : (youthDeclaration declaration).Writes A P.stmt :=
  .bind .expect fun _ hname => .bind .expect fun _ _ => .bind .remaining fun n _ =>
    .bind (P.writes_methodsFrom hd n nofun) fun _ hms => .bind .expect fun _ _ =>
      .pure (P.youth hname hms)

end

/-- An expression that is there is built. -/
theorem writes_some : Writes A (some <$> YouthLang.expression) fun e? => ∀ e ∈ e?, P.expr e :=
  .map P.writes_expression fun e he => by simpa using he

/-- A variable has a name, and a built value if it has one. -/
theorem writes_variableDeclaration : variableDeclaration.Writes A P.stmt := by
  refine .bind .expect fun t ht => .bind .accept fun _ _ => ?_
  have hend : ∀ e? : Option Expr, (∀ e ∈ e?, P.expr e) → Writes A (do
      let _ ← expect .semicolon (.semicolon .declaration)
      return Stmt.declare t e?) P.stmt :=
    fun e? he => .bind .expect fun _ _ => .pure (P.declare ht he)
  exact .ite (.bind P.writes_some fun e? he => hend e? he) (hend none nofun)

/-- An expression that may be left out is built if it is there. -/
theorem writes_expressionUnless (kind : TokenKind) :
    (expressionUnless kind).Writes A fun e? => ∀ e ∈ e?, P.expr e :=
  .bind .sees fun _ _ => .ite (.pure nofun) P.writes_some

/-- So is the first part of a loop. -/
theorem writes_loopInitializer : loopInitializer.Writes A fun s? => ∀ s ∈ s?, P.stmt s :=
  .bind .accept fun _ _ => .ite (.pure nofun) <| .bind .accept fun _ _ => .ite
    (.bind P.writes_variableDeclaration fun _ hs => .pure (by simpa using hs))
    (.bind P.writes_expression fun _ he => .bind .expect fun _ _ =>
      .pure (by simpa using P.expression he))

/-- A loop that counts is built of simpler statements. -/
theorem countingLoop {s? : Option Stmt} {condition increment : Option Expr} {body : Stmt}
    (hs : ∀ s ∈ s?, P.stmt s) (hcondition : ∀ e ∈ condition, P.expr e)
    (hincrement : ∀ e ∈ increment, P.expr e) (hbody : P.stmt body) :
    P.stmt (YouthLang.countingLoop s? condition increment body) := by
  have htest : P.expr (condition.getD (.literal (.truth true))) := by
    cases condition with
    | none => exact P.endless
    | some e => exact hcondition e rfl
  have hpair : ∀ {s s'}, P.stmt s → P.stmt s' → P.stmt (.block [s, s']) := fun hs hs' =>
    P.block (List.forall_mem_cons.mpr ⟨hs, List.forall_mem_singleton.mpr hs'⟩)
  have hloop : ∀ {rounds}, P.stmt rounds → P.stmt (YouthLang.countingLoop s? condition none rounds) :=
    fun hrounds => by
      cases s? with
      | none => exact P.loop htest hrounds
      | some s => exact hpair (hs s rfl) (P.loop htest hrounds)
  cases increment with
  | none => exact hloop hbody
  | some e => exact hloop (hpair hbody (P.expression (hincrement e rfl)))

section

include hst

/-- Such a loop is written as what it is built of. -/
theorem writes_forStatement : (forStatement statement).Writes A P.stmt :=
  .bind .expect fun _ _ => .bind P.writes_loopInitializer fun _ hs =>
    .bind (P.writes_expressionUnless _) fun _ hcondition => .bind .expect fun _ _ =>
      .bind (P.writes_expressionUnless _) fun _ hincrement => .bind .expect fun _ _ =>
        .bind hst fun _ hbody => .pure (P.countingLoop hs hcondition hincrement hbody)

/-- A choice is built of its condition and its branches. -/
theorem writes_ifStatement : (ifStatement statement).Writes A P.stmt :=
  .bind .expect fun _ _ => .bind P.writes_expression fun _ he => .bind .expect fun _ _ =>
    .bind hst fun _ hyes => .bind .accept fun _ _ =>
      .ite (.bind hst fun _ hno => .pure (P.branch he hyes (by simpa using hno)))
        (.pure (P.branch he hyes nofun))

/-- A loop is built of its condition and its body. -/
theorem writes_whileStatement : (whileStatement statement).Writes A P.stmt :=
  .bind .expect fun _ _ => .bind P.writes_expression fun _ he => .bind .expect fun _ _ =>
    .bind hst fun _ hbody => .pure (P.loop he hbody)

end

variable {parse : Rule → Parser Stmt} (hp : ∀ rule, (parse rule).Writes A P.stmt)

include hp

/-- Each kind of statement is built, if what stands inside it is. -/
theorem writes_statement : (YouthLang.statement parse).Writes A P.stmt := by
  refine .bind .peek fun t ht => ?_
  split
  · exact .bind .next fun _ _ => P.writes_forStatement (hp _)
  · exact .bind .next fun _ _ => P.writes_ifStatement (hp _)
  · exact .bind .next fun _ _ => .bind P.writes_expression fun _ he =>
      .bind .expect fun _ _ => .pure (P.tell he)
  · next hkind =>
    exact .bind .next fun _ _ => .bind (P.writes_expressionUnless _) fun e? he =>
      .bind .expect fun _ _ => .pure (P.give ⟨hkind, ht⟩ he)
  · exact .bind .next fun _ _ => P.writes_whileStatement (hp _)
  · exact .bind .next fun _ _ => .bind (P.writes_block (hp _)) fun _ hbody =>
      .pure (P.block hbody)
  · exact .bind P.writes_expression fun _ he => .bind .expect fun _ _ => .pure (P.expression he)

/-- So is each kind of declaration. -/
theorem writes_declarationBody : (declarationBody parse).Writes A P.stmt := by
  refine .bind .peek fun t _ => ?_
  split
  · exact .bind .next fun _ _ => P.writes_youthDeclaration (hp _)
  · exact .bind .next fun _ _ => .bind (P.writes_routine (hp _) _) fun _ hf =>
      .pure (P.function hf)
  · exact .bind .next fun _ _ => P.writes_variableDeclaration
  · exact hp _

omit hp in
/-- A declaration that could not be read leaves a mark, which is built of nothing. -/
theorem writes_recovering {p : Parser Stmt} (hp : p.Writes A P.stmt) :
    (recovering p).Writes A P.stmt := by
  intro c hc
  have := hp c hc
  unfold recovering
  split at this
  · next s c' heq => simpa only [heq] using this
  · next c' heq =>
    simp only [heq]
    exact ⟨this.recover, P.failed⟩

omit hp in
/-- At every depth a statement is built, if there is one. -/
theorem writes_statementAt : ∀ (n : Nat) (rule : Rule), (statementAt n rule).Writes A P.stmt
  | 0, _ => .exhausted
  | n + 1, .declaration => P.writes_recovering (P.writes_declarationBody (writes_statementAt n))
  | n + 1, .statement => P.writes_statement (writes_statementAt n)

omit hp in
/-- **A declaration is built of its parts.** -/
theorem writes_declaration : YouthLang.declaration.Writes A P.stmt :=
  .bind .remaining fun n _ => P.writes_statementAt (2 * n) _

end Statements

/-! ## Programs -/

/-- Round by round a program is built. -/
theorem offers_programFrom : ∀ (n : Nat) {read : List Stmt} {c : Cursor}, c.Offers A →
    (∀ s ∈ read, P.stmt s) →
      (programFrom n read c).2.Offers A ∧ ∀ s ∈ (programFrom n read c).1, P.stmt s
  | 0, _, _, hc, hread => ⟨hc, by simpa [programFrom] using hread⟩
  | n + 1, read, c, hc, hread => by
      have hdone : ∀ s ∈ read.reverse, P.stmt s := fun s hs => hread s (List.mem_reverse.mp hs)
      unfold programFrom
      have hd := P.writes_declaration c hc
      split
      · exact ⟨hc, hdone⟩
      · split at hd
        · next s c' heq =>
          simp only [heq]
          exact offers_programFrom n hd.1 (List.forall_mem_cons.mpr ⟨hd.2, hread⟩)
        · next c' heq =>
          simp only [heq]
          exact ⟨hd, hdone⟩

/-- **What every rule keeps holds of a parsed program**, and every mistake is at a token that it was
parsed from. -/
theorem parse (node : Nat) {tokens : List Token} (h : ∀ t ∈ tokens, A t) (others : List Nat := []) :
    (∀ s ∈ (YouthLang.parse node tokens others).statements, P.stmt s)
      ∧ ∀ d ∈ (YouthLang.parse node tokens others).diagnostics, ∃ t, A t ∧ d.IsAt t := by
  cases tokens with
  | nil => exact ⟨List.forall_mem_nil _, List.forall_mem_nil _⟩
  | cons t ts =>
    have hstart : Cursor.Offers A (.start node t ts others) := ⟨h, List.forall_mem_nil _⟩
    obtain ⟨hc, hbody⟩ := P.offers_programFrom (ts.length + 1) hstart (List.forall_mem_nil _)
    exact ⟨hbody, fun d hd => hc.mistakes d (List.mem_reverse.mp hd)⟩

end Building

end YouthLang

import YouthLang.Proofs.Parallel
import YouthLang.Proofs.Grammar.Sound

/-!
# Proofs/Unbounded — the rules without their bounds

The parser bounds how deep its rules are nested and how often they are repeated by the number of tokens
left.  That is always enough: before a sealed end, each rule is what the grammar says, with itself in
the place of the bounded rule.  `expression_eq`, `nested_statement` and `nested_declaration` say so for
the rules that contain themselves, and there is one equation for each loop (`Parser.Loops`).

An equation alone would also hold of a loop that goes round for ever.  So with each goes that a round
reads: what is behind a round matters only where fewer tokens are left (`Parser.Guarded`).
`Parser.unbounded` has both for all rules.
-/

namespace YouthLang

open YouthLang.Parser

variable {α β : Type} {c : Cursor}

/-! ## Trees that are alike in everything -/

mutual

/-- Trees with equal tokens and equal numbers everywhere are equal. -/
theorem Expr.Alike.eq {e e' : Expr} (h : Expr.Alike Eq Eq e e') : e = e' := by
  match h with
  | .literal _ => rfl
  | .variable hn ht => rw [hn, ht]
  | .me hn ht => rw [hn, ht]
  | .group h => rw [h.eq]
  | .unary ht h => rw [ht, h.eq]
  | .binary ht hl hr => rw [ht, hl.eq, hr.eq]
  | .logical ht hl hr => rw [ht, hl.eq, hr.eq]
  | .assign hn ht h => rw [hn, ht, h.eq]
  | .get h ht => rw [h.eq, ht]
  | .set ho ht h => rw [ho.eq, ht, h.eq]
  | .call h ht hes => rw [h.eq, ht, hes.eq]

/-- So are lists of arguments. -/
theorem ArgumentsAlike.eq {es es' : List Expr} (h : ArgumentsAlike Eq Eq es es') : es = es' := by
  match h with
  | .nil => rfl
  | .cons h hes => rw [h.eq, hes.eq]

end

mutual

/-- So are statements, part by part. -/
theorem Stmt.Alike.eq {s s' : Stmt} (h : Stmt.Alike Eq Eq s s') : s = s' := by
  match h with
  | .failed => rfl
  | .expression h => rw [h.eq]
  | .tell h => rw [h.eq]
  | .bare ht => rw [ht]
  | .declare ht h => rw [ht, h.eq]
  | .giveNothing ht => rw [ht]
  | .give ht h => rw [ht, h.eq]
  | .block h => rw [h.eq]
  | .branch hc hyes => rw [hc.eq, hyes.eq]
  | .branches hc hyes hno => rw [hc.eq, hyes.eq, hno.eq]
  | .loop hc h => rw [hc.eq, h.eq]
  | .function h => rw [h.eq]
  | .youth ht h => rw [ht, h.eq]

/-- So are functions. -/
theorem Function.Alike.eq {f f' : Function} (h : Function.Alike Eq Eq f f') : f = f' := by
  match h with
  | .mk ht hps h =>
    obtain rfl := List.forall₂_eq_eq_eq ▸ hps
    rw [ht, h.eq]

/-- So are bodies. -/
theorem BodyAlike.eq {body body' : List Stmt} (h : BodyAlike Eq Eq body body') : body = body' := by
  match h with
  | .nil => rfl
  | .cons h hbody => rw [h.eq, hbody.eq]

/-- So are the methods of a class. -/
theorem MethodsAlike.eq {ms ms' : List Function} (h : MethodsAlike Eq Eq ms ms') : ms = ms' := by
  match h with
  | .nil => rfl
  | .cons h hms => rw [h.eq, hms.eq]

end

/-! ## Sequences that go on alike

Two sequences with the same beginning are the same where they are the same behind it.  Behind a
token that was taken, fewer tokens are left; there a bound may be smaller. -/

/-- Wherever it starts, the parser ends further on, and if it unwinds, behind a mistake. -/
def Parser.Steady (p : Parser α) : Prop := ∀ c, p.Derives c fun _ _ _ => True

/-- A rule that always derives something keeps what is sealed sealed. -/
theorem Parser.Derives.steady {p : Parser α} {post : Cursor → List Token → α → Cursor → Prop}
    (h : ∀ c, p.Derives c (post c)) : p.Steady := fun c => .mono (h c) fun _ _ _ _ _ => trivial

section Sequences

variable {p : Parser α} {R : α → α → Prop}

/-- Parsers beside each other that number their nodes alike do the same. -/
theorem Parser.Beside.eq {q : Parser α} (h : p.Beside Eq R q c) (hR : ∀ a b, R a b → a = b)
    (hs : c.Sealed (fun _ => True)) : p c = q c := (h hs c (.refl c)).eq hR

/-- Sequences that go on alike from wherever their first part leads. -/
theorem Parser.Steady.bind_congr {f g : α → Parser β} (hp : p.Steady)
    (hs : c.Sealed (fun _ => True)) (h : ∀ a c₁, p c = .done a c₁ → c₁.Sealed (fun _ => True) →
      c₁.size ≤ c.size → f a c₁ = g a c₁) : (p >>= f) c = (p >>= g) c := by
  have hp := hp c hs
  cases hx : p c with
  | done a c₁ =>
    rw [hx] at hp
    obtain ⟨read, hr, -⟩ := hp
    rw [Parser.bind_of_done hx, Parser.bind_of_done hx, h a c₁ hx (hr.sealed hs) hr.size_le]
  | unwound c₁ => rw [Parser.bind_of_unwound hx, Parser.bind_of_unwound hx]

/-- Behind a token that is taken, only the cursor after it matters. -/
theorem Parser.next_congr {f g : Token → Parser α} (hk : c.current.kind ≠ .endOfSource)
    (hs : c.Sealed (fun _ => True)) (h : c.advance.Sealed (fun _ => True) →
      c.advance.size + 1 = c.size → f c.current c.advance = g c.current c.advance) :
    (next >>= f) c = (next >>= g) c :=
  h ((Cursor.Reaches.advance hs hk).sealed hs) (hs.size_advance hk)

/-- Behind a word that may come, both branches may be compared apart, the first one token
further. -/
theorem Parser.accept_congr {yes yes' no no' : Parser α} {kind : TokenKind}
    (hend : kind ≠ .endOfSource) (hs : c.Sealed (fun _ => True))
    (hyes : c.advance.Sealed (fun _ => True) → c.advance.size + 1 = c.size →
      yes c.advance = yes' c.advance) (hno : no c = no' c) :
    (accept kind >>= fun b => if b = true then yes else no) c
      = (accept kind >>= fun b => if b = true then yes' else no') c := by
  by_cases hk : c.current.kind = kind
  · have hyes := next_congr (f := fun _ => yes) (g := fun _ => yes') (hk ▸ hend) hs hyes
    simpa [accept, sees, next, Bind.bind, Pure.pure, hk] using hyes
  · simpa [accept, sees, Bind.bind, Pure.pure, hk] using hno

/-- Behind a word that has to come there is one branch, one token further. -/
theorem Parser.expect_congr {f g : Token → Parser α} {kind : TokenKind} {what : Wanted}
    (hend : kind ≠ .endOfSource) (hs : c.Sealed (fun _ => True))
    (h : c.advance.Sealed (fun _ => True) → c.advance.size + 1 = c.size →
      f c.current c.advance = g c.current c.advance) :
    (expect kind what >>= f) c = (expect kind what >>= g) c := by
  by_cases hk : c.current.kind = kind
  · have hnext := next_congr (hk ▸ hend) hs h
    simpa [expect, sees, next, Bind.bind, hk] using hnext
  · simp [expect, sees, Bind.bind, hk, missing]

end Sequences

section Loops

variable {σ : Type} {L : Nat → σ → Parser α} {body : (σ → Parser α) → σ → Parser α}

/-- A loop with as many rounds as there are tokens left. -/
def Parser.looped (L : Nat → σ → Parser α) (s : σ) : Parser α := do L (← remaining) s

/-- The rest of a loop matters only behind the token that its first round reads. -/
def Parser.Guarded (body : (σ → Parser α) → σ → Parser α) : Prop :=
  ∀ (r r' : σ → Parser α) (s : σ) (c : Cursor), c.Sealed (fun _ => True) →
    (∀ s' c₁, c₁.Sealed (fun _ => True) → c₁.size < c.size → r s' c₁ = r' s' c₁) →
    body r s c = body r' s c

/-- **Bounds that cover the tokens at hand give the same result.** A guarded body calls itself only
where a token is gone, so the induction on both bounds never meets a zero. -/
theorem Parser.Guarded.congr (hbody : Guarded body) (hL : ∀ n s, L (n + 1) s = body (L n) s) :
    ∀ (n m : Nat) (s : σ) (c : Cursor), c.Sealed (fun _ => True) → c.size ≤ n → c.size ≤ m →
      L n s c = L m s c
  | 0, _, _, c, _, hn, _ | _, 0, _, c, _, _, hn => absurd c.size_pos (by omega)
  | n + 1, m + 1, s, c, hs, hn, hm => by
      rw [hL, hL]
      refine hbody _ _ s c hs fun s' c₁ hs hlt => ?_
      exact hbody.congr hL n m s' c₁ hs (by omega) (by omega)

/-- **A loop is its first round with itself behind it.** -/
theorem Parser.Guarded.looped_eq (hbody : Guarded body) (hL : ∀ n s, L (n + 1) s = body (L n) s)
    (s : σ) (hs : c.Sealed (fun _ => True)) : looped L s c = body (looped L) s c := by
  have hfirst : looped L s c = L (c.following.length + 1) s c := rfl
  rw [hfirst, hL]
  refine hbody _ _ s c hs fun s' c₁ hs hlt => ?_
  exact hbody.congr hL _ c₁.size s' c₁ hs (Nat.le_of_lt_succ hlt) (Nat.le_refl _)

/-- A loop that ends: it is its first round with itself behind it, and no round leads to another one
without having read a token. -/
structure Parser.Loops (body : (σ → Parser α) → σ → Parser α) (loop : σ → Parser α) : Prop where
  round : ∀ (s : σ) (c : Cursor), c.Sealed (fun _ => True) → loop s c = body loop s c
  reads : Guarded body

/-- Bounding a loop by the tokens that are left does not cut it off. -/
theorem Parser.Guarded.loops (hbody : Guarded body) (hL : ∀ n s, L (n + 1) s = body (L n) s) :
    Loops body (looped L) :=
  ⟨fun s _ hs => hbody.looped_eq hL s hs, hbody⟩

end Loops

/-! ## Expressions -/

section Expressions

variable {operand : Parser Expr} {level : Level} {n : Nat}

/-- An expression leaves the sealing token where it was. -/
theorem steady_expression : expression.Steady := Parser.Derives.steady Grammar.sound_expression

/-- A depth of as many tokens as there are is deep enough. -/
theorem expressionAt_eq (hs : c.Sealed (fun _ => True)) (hn : c.size ≤ n) :
    expressionAt n c = expression c :=
  Parser.Beside.eq (q := expressionAt c.size)
    (beside_expressionAt n c.size c.size hn (Nat.le_refl _) c (Nat.le_refl _))
    (fun _ _ h => h.eq) hs

/-- So the bounded rule and the one without a depth may stand for each other. -/
theorem expressionsBeside_expressionAt (k : Nat) :
    ExpressionsBeside Eq k (expressionAt k) expression := fun c hc hs c' hbeside => by
  obtain rfl := hbeside.eq
  rw [expressionAt_eq hs hc]
  exact beside_expression c hs c (.refl c)

/-- **An expression is an assignment of expressions.** -/
theorem expression_eq (hs : c.Sealed (fun _ => True)) : expression c = assignment expression c := by
  obtain ⟨k, hk⟩ := Nat.exists_eq_succ_of_ne_zero (Nat.ne_of_gt c.size_pos)
  have hexpression : expression c = expressionAt (k + 1) c := by
    rw [expressionAt_eq hs (by omega)]
  rw [hexpression]
  exact Parser.Beside.eq (beside_assignment (expressionsBeside_expressionAt k) c (by omega))
    (fun _ _ h => h.eq) hs

/-- One operator of a level and its right operand, and the rest of the chain. -/
def chainStep (level : Level) (operand : Parser Expr) (rest : Expr → Parser Expr) (left : Expr) :
    Parser Expr := do
  match level.node? (← peek) with
  | none => return left
  | some node =>
    let _ ← next
    let right ← operand
    rest (node left right)

/-- A round of a chain takes its operator before it goes round again. -/
theorem guarded_chainStep (level : Level) (hop : operand.Steady) :
    Guarded (chainStep level operand) := by
  intro r r' left c hs h
  change (match level.node? c.current with | none => _ | some node => _ : Parser Expr) c
    = (match level.node? c.current with | none => _ | some node => _ : Parser Expr) c
  cases hnode : level.node? c.current with
  | none => rfl
  | some node =>
    refine next_congr (Level.kind_ne_endOfSource hnode) hs fun hs hsize => ?_
    exact hop.bind_congr hs fun right c₁ _ hs hle => h _ c₁ hs (by omega)

/-- The levels that bind tighter than one, the tightest first. -/
def Level.tighter : Level → List Level
  | .product => []
  | .sum => [.product]
  | .comparison => [.product, .sum]
  | .equality => [.product, .sum, .comparison]
  | .conjunction => [.product, .sum, .comparison, .equality]
  | .disjunction => [.product, .sum, .comparison, .equality, .conjunction]

/-- What the operators of a level stand between. -/
def Level.inner (level : Level) : Parser Expr :=
  level.tighter.foldl (fun operand level => chain level operand) (signed expression)

/-- The loosest level is all that binds tighter than an assignment. -/
theorem operation_eq : operation expression = chain .disjunction (Level.inner .disjunction) := rfl

/-- Operators between steady operands are steady. -/
theorem Parser.Steady.chain (level : Level) (h : operand.Steady) : (chain level operand).Steady :=
  Parser.Derives.steady fun c => by
    have hsound : Grammar.Sound c.size operand fun _ _ => True := fun c _ => h c
    exact Grammar.sound_chain hsound c (Nat.le_refl _)

/-- Every level leaves the sealing token where it was, by induction from the tightest. -/
theorem steady_inner (level : Level) : level.inner.Steady := by
  have hsigned : (signed expression).Steady := Parser.Derives.steady fun c => by
    unfold signed
    exact .remaining (Grammar.sound_signedFrom (fun c _ => Grammar.sound_expression c) _ c
      (Nat.le_succ _))
  have hfold (levels : List Level) : ∀ {operand : Parser Expr}, operand.Steady →
      (levels.foldl (fun operand level => YouthLang.chain level operand) operand).Steady := by
    induction levels with
    | nil => exact fun h => h
    | cons level levels ih => exact fun h => ih (h.chain level)
  exact hfold _ hsigned

/-- One argument of a call, and the arguments behind it. -/
def argumentsStep (rest : List Expr → Parser (List Expr)) (read : List Expr) :
    Parser (List Expr) := do
  if maxArguments ≤ read.length then report (← peek) .tooManyArguments
  let argument ← expression
  if ← accept .comma then rest (argument :: read)
  else return (argument :: read).reverse

/-- A round of arguments takes its comma before it goes round again. -/
theorem guarded_argumentsStep : Guarded argumentsStep := by
  intro r r' read c hs h
  have hmore : ∀ c₁ : Cursor, c₁.Sealed (fun _ => True) → c₁.size ≤ c.size → (do
        let argument ← expression
        if ← accept .comma then r (argument :: read) else return (argument :: read).reverse) c₁
      = (do
        let argument ← expression
        if ← accept .comma then r' (argument :: read) else return (argument :: read).reverse) c₁ := by
    intro c₁ hs hle
    refine steady_expression.bind_congr hs fun argument c₂ _ hs hle' => ?_
    exact accept_congr (by decide) hs (fun hs hsize => h _ _ hs (by omega)) rfl
  unfold argumentsStep
  split
  · exact hmore (c.report c.current .tooManyArguments) ((Cursor.Reaches.report _ _).sealed hs)
      (Nat.le_refl _)
  · exact hmore c hs (Nat.le_refl _)

/-- One call or property access, and those behind it. -/
def suffixesStep (rest : Expr → Parser Expr) (e : Expr) : Parser Expr := do
  if ← accept .leftParen then
    let arguments ← callArguments expression
    let paren ← expect .rightParen (.closing .arguments)
    rest (.call e paren arguments)
  else if ← accept .dot then
    let name ← expect .identifier (.name .property)
    rest (.get e name)
  else return e

/-- Arguments leave the sealing token where it was. -/
theorem steady_callArguments : (callArguments expression).Steady :=
  Parser.Derives.steady fun c =>
    Grammar.sound_callArguments (fun c _ => Grammar.sound_expression c) c (Nat.le_refl _)

/-- A round of suffixes takes its parenthesis or its dot first. -/
theorem guarded_suffixesStep : Guarded suffixesStep := by
  intro r r' e c hs h
  refine accept_congr (by decide) hs (fun hs hsize => ?_) ?_
  · refine steady_callArguments.bind_congr hs fun arguments c₁ _ hs hle => ?_
    exact expect_congr (by decide) hs fun hs hsize' => h _ _ hs (by omega)
  · refine accept_congr (by decide) hs (fun hs hsize => ?_) rfl
    exact expect_congr (by decide) hs fun hs hsize' => h _ _ hs (by omega)

/-- A sign and what stands behind it, or a suffixed expression. -/
def signedStep (rest : Unit → Parser Expr) (_ : Unit) : Parser Expr := do
  let t ← peek
  match t.kind with
  | .bang => let _ ← next; return .unary .not t (← rest ())
  | .minus => let _ ← next; return .unary .negate t (← rest ())
  | _ => suffixed expression

/-- A round of signs takes its sign first. -/
theorem guarded_signedStep : Guarded signedStep := by
  intro r r' _ c hs h
  change (match c.current.kind with | .bang => _ | .minus => _ | _ => _ : Parser Expr) c
    = (match c.current.kind with | .bang => _ | .minus => _ | _ => _ : Parser Expr) c
  cases hk : c.current.kind with
  | bang | minus =>
    refine next_congr (by simp [hk]) hs fun hs hsize => ?_
    simp only [Bind.bind, h () c.advance hs (by omega)]
  | _ => rfl

end Expressions

/-! ## Statements -/

section Statements

/-- One parameter, and those behind it. -/
def parametersStep (rest : List Token → Parser (List Token)) (read : List Token) :
    Parser (List Token) := do
  if maxArguments ≤ read.length then report (← peek) .tooManyParameters
  let name ← expect .identifier (.name .parameter)
  if ← accept .comma then rest (name :: read)
  else return (name :: read).reverse

/-- A round of parameters takes its comma first. -/
theorem guarded_parametersStep : Guarded parametersStep := by
  intro r r' read c hs h
  have hmore : ∀ c₁ : Cursor, c₁.Sealed (fun _ => True) → c₁.size ≤ c.size → (do
        let name ← expect .identifier (.name .parameter)
        if ← accept .comma then r (name :: read) else return (name :: read).reverse) c₁
      = (do
        let name ← expect .identifier (.name .parameter)
        if ← accept .comma then r' (name :: read) else return (name :: read).reverse) c₁ := by
    intro c₁ hs hle
    refine expect_congr (by decide) hs fun hs hsize => ?_
    exact accept_congr (by decide) hs (fun hs hsize' => h _ _ hs (by omega)) rfl
  unfold parametersStep
  split
  · exact hmore (c.report c.current .tooManyParameters) ((Cursor.Reaches.report _ _).sealed hs)
      (Nat.le_refl _)
  · exact hmore c hs (Nat.le_refl _)

/-- A declaration or a statement, with as much nesting as there are tokens left. -/
def nested (rule : Rule) : Parser Stmt := do statementAt (2 * (← remaining)) rule

/-- A rule without a depth does not depend on how numbers are drawn. -/
theorem beside_nested (rule : Rule) (c : Cursor) :
    (nested rule).Beside Eq (Stmt.Alike Eq Eq) (nested rule) c := by
  cases rule with
  | declaration => exact beside_declaration c
  | statement =>
    exact .remaining ((beside_statementAt _ _ _).2 (Nat.le_succ _) (Nat.le_succ _) c (Nat.le_refl _))

/-- Twice as many levels as there are tokens are deep enough: a statement and a declaration take one
each. -/
theorem statementAt_eq {n : Nat} (rule : Rule) (hs : c.Sealed (fun _ => True))
    (hn : 2 * c.size ≤ n) : statementAt n rule c = nested rule c := by
  have hbeside :
      (statementAt n rule).Beside Eq (Stmt.Alike Eq Eq) (statementAt (2 * c.size) rule) c := by
    cases rule with
    | declaration => exact (beside_statementAt _ _ c.size).1 hn (Nat.le_refl _) c (Nat.le_refl _)
    | statement =>
      exact (beside_statementAt _ _ c.size).2 (Nat.le_succ_of_le hn) (Nat.le_succ _) c (Nat.le_refl _)
  exact hbeside.eq (fun _ _ h => h.eq) hs

/-- So the bounded rules and those without a depth may stand for each other. -/
theorem statementsBeside_nested {n k : Nat} (rule : Rule) (hn : 2 * k ≤ n) :
    StatementsBeside Eq k (statementAt n rule) (nested rule) := fun c hc hs c' hbeside => by
  obtain rfl := hbeside.eq
  rw [statementAt_eq rule hs (by omega)]
  exact beside_nested rule c hs c (.refl c)

/-- **A statement is made of declarations and statements.** -/
theorem nested_statement (hs : c.Sealed (fun _ => True)) :
    nested .statement c = statement nested c := by
  obtain ⟨k, hk⟩ := Nat.exists_eq_succ_of_ne_zero (Nat.ne_of_gt c.size_pos)
  rw [← statementAt_eq (n := 2 * k + 1 + 1) .statement hs (by omega)]
  refine Parser.Beside.eq (beside_statement (k := k) ?_ ?_ ?_ c (by omega)) (fun _ _ h => h.eq) hs
  · exact statementsBeside_nested .declaration (by omega)
  · exact consumes_statementAt (by omega)
  · exact statementsBeside_nested .statement (by omega)

/-- **A declaration is made of declarations and statements.** -/
theorem nested_declaration (hs : c.Sealed (fun _ => True)) :
    nested .declaration c = recovering (declarationBody nested) c := by
  obtain ⟨k, hk⟩ := Nat.exists_eq_succ_of_ne_zero (Nat.ne_of_gt c.size_pos)
  rw [← statementAt_eq (n := 2 * (k + 1) + 1) .declaration hs (by omega)]
  refine Parser.Beside.eq (beside_recovering (beside_declarationBody (k := k) ?_ ?_ ?_) c (by omega))
    (fun _ _ h => h.eq) hs
  · exact statementsBeside_nested .declaration (by omega)
  · exact consumes_statementAt (by omega)
  · exact statementsBeside_nested .statement (by omega)

/-- Statements and declarations leave the sealing token where it was. -/
theorem steady_nested (rule : Rule) : (nested rule).Steady := by
  cases rule with
  | declaration => exact Parser.Derives.steady Grammar.sound_declaration
  | statement =>
    exact Parser.Derives.steady fun c =>
      .remaining ((Grammar.sound_statementAt _ c.size).2 (Nat.le_succ _) c (Nat.le_refl _))

/-- A declaration reads something, unless it is at the end. -/
theorem size_nested_declaration {c₁ : Cursor} {s : Stmt} (hs : c.Sealed (fun _ => True))
    (hk : c.current.kind ≠ .endOfSource) (h : nested .declaration c = .done s c₁) :
    c₁.size < c.size :=
  consumes_statementAt (n := 2 * c.size) (Nat.le_refl _) (Nat.le_refl _) hs hk h

/-- One declaration, and those behind it. -/
def declarationsStep (rest : List Stmt → Parser (List Stmt)) (read : List Stmt) :
    Parser (List Stmt) := do
  let t ← peek
  if t.kind = .rightParen || t.kind = .endOfSource then return read.reverse
  let s ← nested .declaration
  rest (s :: read)

/-- A round of declarations consumes a token even where its declaration fails, as recovery then
does. -/
theorem guarded_declarationsStep : Guarded declarationsStep := by
  intro r r' read c hs h
  change (if c.current.kind = .rightParen || c.current.kind = .endOfSource then _ else _
      : Parser (List Stmt)) c
    = (if c.current.kind = .rightParen || c.current.kind = .endOfSource then _ else _
      : Parser (List Stmt)) c
  split
  · rfl
  · next hgo =>
    have hk : c.current.kind ≠ .endOfSource := fun hk => hgo (by simp [hk])
    refine (steady_nested .declaration).bind_congr hs fun s c₁ hdone hs' _ => ?_
    exact h _ c₁ hs' (size_nested_declaration hs hk hdone)

/-- One method, and those behind it. -/
def methodsStep (rest : List Function → Parser (List Function)) (read : List Function) :
    Parser (List Function) := do
  let t ← peek
  if t.kind = .rightParen || t.kind = .endOfSource then return read.reverse
  let _ ← expect .listenKey .listen
  let m ← routine .method (nested .declaration)
  rest (m :: read)

/-- What a rule without a depth accepts is in the grammar. -/
theorem sound_nested (k : Nat) :
    Grammar.Sound k (nested .declaration) (Grammar.Declaration true) := fun c _ =>
  Grammar.sound_declaration c

/-- A round of methods takes the method's keyword first, or unwinds. -/
theorem guarded_methodsStep : Guarded methodsStep := by
  intro r r' read c hs h
  change (if c.current.kind = .rightParen || c.current.kind = .endOfSource then _ else _
      : Parser (List Function)) c
    = (if c.current.kind = .rightParen || c.current.kind = .endOfSource then _ else _
      : Parser (List Function)) c
  split
  · rfl
  · refine expect_congr (by decide) hs fun hs hsize => ?_
    have hroutine : (routine .method (nested .declaration)).Steady :=
      Parser.Derives.steady fun c =>
        Grammar.sound_routine .method (sound_nested c.size) c (Nat.le_refl _)
    exact hroutine.bind_congr hs fun m c₁ _ hs hle => h _ c₁ hs (by omega)

/-- One declaration of a program, and those behind it. -/
def programStep (rest : List Stmt → Parser (List Stmt)) (read : List Stmt) :
    Parser (List Stmt) := do
  let t ← peek
  if t.kind = .endOfSource then return read.reverse
  let s ← nested .declaration
  rest (s :: read)

/-- A round of the program consumes a token, as a declaration inside a block does. -/
theorem guarded_programStep : Guarded programStep := by
  intro r r' read c hs h
  change (if c.current.kind = .endOfSource then _ else _ : Parser (List Stmt)) c
    = (if c.current.kind = .endOfSource then _ else _ : Parser (List Stmt)) c
  split
  · rfl
  · next hk =>
    refine (steady_nested .declaration).bind_congr hs fun s c₁ hdone hs' _ => ?_
    exact h _ c₁ hs' (size_nested_declaration hs hk hdone)

/-- The declarations of a program, as a parser. -/
def programAt (n : Nat) (read : List Stmt) : Parser (List Stmt) := fun c =>
  .done (programFrom n read c).1 (programFrom n read c).2

/-- The program's loop with one more round is one step before the rest. -/
theorem programAt_succ (n : Nat) (read : List Stmt) :
    programAt (n + 1) read = programStep (programAt n) read := by
  funext c
  by_cases hk : c.current.kind = .endOfSource
  · simp [programAt, programFrom, programStep, Cursor.atEnd, hk, Bind.bind, peek, Pure.pure]
  -- A declaration recovers from its mistakes, so it does not unwind.
  · obtain ⟨s, c₁, hdone⟩ : ∃ s c₁, declaration c = .done s c₁ := by
      change ∃ s c₁, recovering _ c = .done s c₁
      unfold recovering
      split
      · exact ⟨_, _, rfl⟩
      · exact ⟨_, _, rfl⟩
    have hstep : programStep (programAt n) read c = programAt n (s :: read) c₁ := by
      have hnested : nested .declaration c = .done s c₁ := hdone
      simp [programStep, hk, Bind.bind, peek, hnested]
    rw [hstep]
    simp [programAt, programFrom, Cursor.atEnd, hk, hdone]

end Statements

/-! ## All rules -/

/-- **No bound cuts a rule off.**  Every loop is its first round with itself behind it, every rule that
contains itself is what the grammar says of it, and none of them comes back to itself before it has
read a token. -/
structure Parser.Unbounded : Prop where
  chain (level : Level) :
    Loops (chainStep level level.inner) (looped (chainFrom level level.inner))
  arguments : Loops argumentsStep (looped (argumentsFrom expression))
  suffixes : Loops suffixesStep (looped (suffixesFrom expression))
  signs : Loops signedStep (looped fun n (_ : Unit) => signedFrom expression n)
  parameters : Loops parametersStep (looped parametersFrom)
  declarations : Loops declarationsStep (looped (declarationsFrom declaration))
  methods : Loops methodsStep (looped (methodsFrom declaration))
  program : Loops programStep (looped programAt)
  expression_round (c : Cursor) (hs : c.Sealed fun _ => True) : expression c = assignment expression c
  /-- An expression in another one has a token in front of it. -/
  expression_reads {p q : Parser Expr} {k : Nat} (h : ExpressionsBeside Eq k p q) (c : Cursor)
    (hs : c.Sealed fun _ => True) (hc : c.size ≤ k + 1) : assignment p c = assignment q c
  statement_round (c : Cursor) (hs : c.Sealed fun _ => True) :
    nested .statement c = statement nested c
  /-- Declarations and statements in a statement have a token in front of them. -/
  statement_reads {p q : Rule → Parser Stmt} {k : Nat}
    (h : ∀ rule, StatementsBeside Eq k (p rule) (q rule)) (hreads : (p .declaration).Consumes k)
    (c : Cursor) (hs : c.Sealed fun _ => True) (hc : c.size ≤ k + 1) : statement p c = statement q c
  declaration_round (c : Cursor) (hs : c.Sealed fun _ => True) :
    declaration c = recovering (declarationBody nested) c
  /-- Declarations in a declaration have a token in front of them; a statement may be all of it. -/
  declaration_reads {p q : Rule → Parser Stmt} {k : Nat}
    (h : StatementsBeside Eq k (p .declaration) (q .declaration))
    (hreads : (p .declaration).Consumes k)
    (hst : StatementsBeside Eq (k + 1) (p .statement) (q .statement))
    (c : Cursor) (hs : c.Sealed fun _ => True) (hc : c.size ≤ k + 1) :
    recovering (declarationBody p) c = recovering (declarationBody q) c

/-- **Every loop of the parser goes on without a bound**, as each round of it either stops or
consumes a token. -/
theorem Parser.unbounded : Parser.Unbounded where
  chain level := (guarded_chainStep level (steady_inner level)).loops fun _ _ => rfl
  arguments := guarded_argumentsStep.loops fun _ _ => rfl
  suffixes := guarded_suffixesStep.loops fun _ _ => rfl
  signs := guarded_signedStep.loops fun _ _ => rfl
  parameters := guarded_parametersStep.loops fun _ _ => rfl
  declarations := guarded_declarationsStep.loops fun _ _ => rfl
  methods := guarded_methodsStep.loops fun _ _ => rfl
  program := guarded_programStep.loops programAt_succ
  expression_round _ hs := expression_eq hs
  expression_reads h c hs hc := (beside_assignment h c hc).eq (fun _ _ h => h.eq) hs
  statement_round _ hs := nested_statement hs
  statement_reads h hreads c hs hc :=
    (beside_statement (h .declaration) hreads (h .statement) c hc).eq (fun _ _ h => h.eq) hs
  declaration_round _ hs := nested_declaration hs
  declaration_reads h hreads hst c hs hc :=
    (beside_recovering (beside_declarationBody h hreads hst) c hc).eq (fun _ _ h => h.eq) hs

end YouthLang

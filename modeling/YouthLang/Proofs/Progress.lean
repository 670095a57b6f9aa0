import YouthLang.Proofs.Unbounded

/-!
# Proofs/Progress — the parser comes to the end, and accounts for what it skips

Whatever the tokens are, as long as the last one marks an end:

* the parser moves from token to token inside of the list and never past an end (`Cursor.Within`);
* a declaration always ends, and behind at least one token it has read or skipped, so the declarations
  of a program and of a block come to their stop (`Declares`);
* every other loop reads a token with each round, so it ends too (`Parser.Unbounded`);
* each place that recovery leaves in the tree has a mistake of its own (`accounts_declaration`).

`parse_progresses` puts them together.
-/

namespace YouthLang

open YouthLang.Parser

variable {tokens read : List Token} {c c' c₁ : Cursor} {t : Token} {ts : List Token}

/-! ## Places in a list of tokens

A cursor within a list has read some of its tokens and none behind the first end. -/

/-- A cursor in a list of tokens, behind no end. -/
def Cursor.Within (tokens : List Token) (c : Cursor) : Prop :=
  ∃ read, tokens = read ++ c.tokens ∧ ∀ t ∈ read, t.kind ≠ .endOfSource

namespace Cursor.Within

/-- A parser starts at the first token. -/
theorem start (node : Nat) (others : List Nat) : (Cursor.start node t ts others).Within (t :: ts) :=
  ⟨[], rfl, by simp⟩

/-- What is read from a list of tokens leaves one of its ends. -/
theorem reaches (h : c.Within tokens) (hr : c.Reaches read c') : c'.Within tokens := by
  obtain ⟨before, rfl, hbefore⟩ := h
  refine ⟨before ++ read, by rw [hr.tokens, List.append_assoc], fun t ht => ?_⟩
  exact (List.mem_append.mp ht).elim (hbefore t) (hr.words t)

/-- From a cursor in a list that ends in an end, an end comes. -/
theorem isSealed (h : c.Within (t :: ts))
    (hlast : ((t :: ts).getLast (by simp)).kind = .endOfSource) : c.Sealed (fun _ => True) := by
  obtain ⟨before, htokens, -⟩ := h
  refine ⟨⟨_, ?_, hlast⟩, fun _ _ => trivial⟩
  rw [← List.getLast?_eq_some_getLast]
  simp [htokens, Cursor.tokens, List.getLast?_append, List.getLast?_cons]

end Cursor.Within

/-- A cursor that is not at the end looks at another token. -/
theorem Cursor.current_ne_of_atEnd (h : c.atEnd = false) : c.current.kind ≠ .endOfSource := by
  simpa [Cursor.atEnd] using h

/-! ## Declarations in a row

The loops for a program and for a block read one declaration after the other up to their stop. -/

/-- Declarations one after the other from a cursor to where they stop, with what they make.  Behind each
of them the cursor is further on. -/
inductive Declares (stop : Cursor → Bool) : Cursor → List Stmt → Cursor → Prop
  | stop {c : Cursor} (h : stop c = true) : Declares stop c [] c
  | declaration {c c₁ c₂ : Cursor} {s : Stmt} {read : List Token} {body : List Stmt}
      (h : stop c = false) (hd : declaration c = .done s c₁) (hr : c.Reaches read c₁)
      (hprogress : read ≠ []) (hrest : Declares stop c₁ body c₂) : Declares stop c (s :: body) c₂

/-- A row of declarations ends where it should. -/
theorem Declares.stops {stop : Cursor → Bool} {body : List Stmt} (h : Declares stop c body c') :
    stop c' = true := by
  induction h with
  | stop h => exact h
  | declaration _ _ _ _ _ ih => exact ih

/-- A row of declarations stays within the tokens. -/
theorem Declares.within {stop : Cursor → Bool} {body : List Stmt} (h : Declares stop c body c')
    (hc : c.Within tokens) : c'.Within tokens := by
  induction h with
  | stop _ => exact hc
  | declaration _ _ hr _ _ ih => exact ih (hc.reaches hr)

/-- **A declaration ends, behind a token at least.** -/
theorem declaration_progresses (hs : c.Sealed (fun _ => True)) (hk : c.atEnd = false) :
    ∃ s c₁ read, declaration c = .done s c₁ ∧ c.Reaches read c₁ ∧ read ≠ [] := by
  obtain ⟨s, c₁, hdone⟩ : ∃ s c₁, nested .declaration c = .done s c₁ := by
    rw [nested_declaration hs]
    unfold recovering
    split
    · exact ⟨_, _, rfl⟩
    · exact ⟨_, _, rfl⟩
  have hsteady := steady_nested .declaration c hs
  rw [hdone] at hsteady
  obtain ⟨read, hr, -⟩ := hsteady
  refine ⟨s, c₁, read, hdone, hr, ?_⟩
  rintro rfl
  have hlt := size_nested_declaration hs (Cursor.current_ne_of_atEnd hk) hdone
  have hsize := hr.size
  simp only [List.length_nil] at hsize
  omega

/-- The declarations of a program stop at an end. -/
theorem declares_programFrom : ∀ (n : Nat) (prior : List Stmt) {c : Cursor},
    c.Sealed (fun _ => True) → c.size ≤ n → ∃ body, Declares Cursor.atEnd c body
      (programFrom n prior c).2 ∧ (programFrom n prior c).1 = prior.reverse ++ body
  | 0, _, c, _, hn => absurd c.size_pos (by omega)
  | n + 1, prior, c, hs, hn => by
      unfold programFrom
      cases hend : c.atEnd with
      | true => exact ⟨[], .stop hend, by simp⟩
      | false =>
        obtain ⟨s, c₁, read, hdone, hr, hprogress⟩ := declaration_progresses hs hend
        have hsize := hr.size
        have hpos := List.length_pos_iff.mpr hprogress
        obtain ⟨body, hbody, heq⟩ :=
          declares_programFrom n (s :: prior) (hr.sealed hs) (by omega)
        simp only [Bool.false_eq_true, if_false, hdone]
        exact ⟨s :: body, .declaration hend hdone hr hprogress hbody, by simp [heq]⟩

/-- Where the declarations of a block stop: before a closing parenthesis, or at an end. -/
def Cursor.endsBlock (c : Cursor) : Bool := c.current.kind = .rightParen || c.atEnd

/-- The loop of a block reads a row, declaration by declaration, by induction on its bound. -/
theorem declares_declarationsFrom : ∀ (n : Nat) (prior : List Stmt) {c : Cursor},
    c.Sealed (fun _ => True) → c.size ≤ n → ∃ body c₁, Declares Cursor.endsBlock c body c₁
      ∧ declarationsFrom declaration n prior c = .done (prior.reverse ++ body) c₁
  | 0, _, c, _, hn => absurd c.size_pos (by omega)
  | n + 1, prior, c, hs, hn => by
      have hstep : declarationsFrom declaration (n + 1) prior c = (if c.endsBlock then
          Pure.pure prior.reverse else declaration >>= fun s =>
            declarationsFrom declaration n (s :: prior) : Parser (List Stmt)) c := rfl
      cases hend : c.endsBlock with
      | true => exact ⟨[], c, .stop hend, by simp [hstep, hend, Pure.pure]⟩
      | false =>
        have hopen : c.atEnd = false := (Bool.or_eq_false_iff.mp hend).2
        obtain ⟨s, c₁, read, hdone, hr, hprogress⟩ := declaration_progresses hs hopen
        have hsize := hr.size
        have hpos := List.length_pos_iff.mpr hprogress
        obtain ⟨body, c₂, hbody, heq⟩ :=
          declares_declarationsFrom n (s :: prior) (hr.sealed hs) (by omega)
        refine ⟨s :: body, c₂, .declaration hend hdone hr hprogress hbody, ?_⟩
        simp [hstep, hend, Parser.bind_of_done hdone, heq]

/-- How a block ends where its declarations stop: behind its closing parenthesis, or with the mistake
that it is missing. -/
def closeBlock (body : List Stmt) (c : Cursor) : Parsing (List Stmt) :=
  if c.current.kind = .rightParen then .done body c.advance
  else .unwound (c.report c.current (.missing (.closing .block)))

/-- **A block comes to its stop.** -/
theorem block_declares (hs : c.Sealed (fun _ => True)) : ∃ body c₁,
    Declares Cursor.endsBlock c body c₁ ∧ block declaration c = closeBlock body c₁ := by
  obtain ⟨body, c₁, hbody, heq⟩ := declares_declarationsFrom c.size [] hs (Nat.le_refl _)
  refine ⟨body, c₁, hbody, ?_⟩
  have hblock : block declaration c = (expect .rightParen (.closing .block) >>= fun _ =>
      Pure.pure body : Parser (List Stmt)) c₁ := Parser.bind_of_done heq
  rw [hblock]
  by_cases hk : c₁.current.kind = .rightParen
  · simp [expect, sees, next, Bind.bind, Pure.pure, closeBlock, hk]
  · simp [expect, sees, Bind.bind, missing, closeBlock, hk]

/-! ## Places that recovery leaves -/

mutual

/-- The number of places in a statement where a declaration could not be parsed. -/
def Stmt.failures : Stmt → Nat
  | .failed => 1
  | .block body => bodyFailures body
  | .branch _ yes none => yes.failures
  | .branch _ yes (some no) => yes.failures + no.failures
  | .loop _ body => body.failures
  | .function f => f.failures
  | .youth _ methods => methodFailures methods
  | .expression _ | .tell _ | .declare _ _ | .give _ _ => 0

/-- The number of such places in a function. -/
def Function.failures : Function → Nat
  | .mk _ _ body => bodyFailures body

/-- The number of such places in a list of statements. -/
def bodyFailures : List Stmt → Nat
  | [] => 0
  | s :: rest => s.failures + bodyFailures rest

/-- The number of such places in a list of methods. -/
def methodFailures : List Function → Nat
  | [] => 0
  | m :: rest => m.failures + methodFailures rest

end

/-- Failures are counted over both parts of a body. -/
@[simp] theorem bodyFailures_append (body body' : List Stmt) :
    bodyFailures (body ++ body') = bodyFailures body + bodyFailures body' := by
  induction body with
  | nil => simp [bodyFailures]
  | cons s body ih => simp [bodyFailures, ih, Nat.add_assoc]

/-- And over both parts of a class. -/
@[simp] theorem methodFailures_append (ms ms' : List Function) :
    methodFailures (ms ++ ms') = methodFailures ms + methodFailures ms' := by
  induction ms with
  | nil => simp [methodFailures]
  | cons m ms ih => simp [methodFailures, ih, Nat.add_assoc]

/-- A counting loop has the places of its first clause and of its body. -/
theorem failures_countingLoop (s? : Option Stmt) (condition increment : Option Expr) (body : Stmt) :
    (countingLoop s? condition increment body).failures
      = s?.elim 0 Stmt.failures + body.failures := by
  cases s? <;> cases increment <;> simp [countingLoop, Stmt.failures, bodyFailures]

/-- The mistakes that a cursor has reported. -/
def Cursor.faults (c : Cursor) : Nat := c.mistakes.length

/-- To read a token is no fault. -/
@[simp] theorem Cursor.faults_advance : c.advance.faults = c.faults := by simp [faults]

/-- Faults are never taken back. -/
theorem Cursor.Reaches.faults_le (h : c.Reaches read c') : c.faults ≤ c'.faults :=
  h.mistakes.length_le

/-- From a cursor the parser ends further on, with a result that has no more places than mistakes were
reported on the way. -/
def Parser.Accounts {α : Type} (p : Parser α) (c : Cursor) (failures : α → Nat) : Prop :=
  p.Reads (fun _ => True) c fun _ a c' => failures a + c.faults ≤ c'.faults

section Accounts

variable {declaration statement : Parser Stmt} {k : Nat}

/-- A parser that, with at most `k` tokens left, accounts for the places in its statements. -/
def Parser.AccountsUpTo (k : Nat) (p : Parser Stmt) : Prop :=
  ∀ c : Cursor, c.size ≤ k → p.Accounts c Stmt.failures

/-- What is steady reports at least nothing. -/
theorem Parser.Steady.accounts {α : Type} {p : Parser α} (hp : p.Steady) (c : Cursor) :
    p.Accounts c fun _ => 0 :=
  .mono (hp c) fun _ _ _ hr _ => by simpa using hr.faults_le

/-- **Every placeholder in a row is paid for by a fault**, each declaration paying for its own. -/
theorem accounts_declarationsFrom (hd : declaration.AccountsUpTo k) (first : Nat) :
    ∀ (n : Nat) (prior : List Stmt) (c : Cursor), c.size ≤ k →
      bodyFailures prior.reverse + first ≤ c.faults →
      (declarationsFrom declaration n prior).Reads (fun _ => True) c fun _ body c' =>
        bodyFailures body + first ≤ c'.faults
  | 0, prior, c, _, hprior => .pure hprior
  | n + 1, prior, c, hc, hprior => by
      unfold declarationsFrom
      refine .peek ?_
      split
      · exact .pure hprior
      · refine .bind (hd c hc) fun _ s c' hr hs => ?_
        refine accounts_declarationsFrom hd first n _ c' (Nat.le_trans hr.size_le hc) ?_
        simp only [List.reverse_cons, bodyFailures_append, bodyFailures]
        omega

/-- So is every one in a block. -/
theorem accounts_block (hd : declaration.AccountsUpTo k) (hc : c.size ≤ k) :
    (block declaration).Accounts c bodyFailures := by
  unfold block
  refine .remaining (.bind (accounts_declarationsFrom hd c.faults _ [] c hc (by simp [bodyFailures]))
    fun _ body c' _ hbody => ?_)
  exact .expect (by decide) fun _ _ _ => .pure (by simpa using hbody)

/-- Parameters keep what is sealed sealed, as they derive a list. -/
theorem steady_parameterList : parameterList.Steady :=
  Parser.Derives.steady Grammar.sound_parameterList

/-- A function has no placeholders but those of its block. -/
theorem accounts_routine (kind : Routine) (hd : declaration.AccountsUpTo k) (hc : c.size ≤ k) :
    (routine kind declaration).Accounts c Function.failures := by
  unfold routine
  refine .expect (by decide) fun _ _ h₁ => .expect (by decide) fun _ _ h₂ => ?_
  refine .bind (steady_parameterList.accounts _) fun _ ps c₁ hr hps => ?_
  refine .expect (by decide) fun _ _ h₃ => .expect (by decide) fun _ _ h₄ => ?_
  have hle := hr.size_le
  refine .bind (accounts_block hd (by omega)) fun _ body c₂ _ hbody => .pure ?_
  simp only [Cursor.faults_advance, Nat.zero_add] at hps hbody
  simp only [Function.failures]
  omega

/-- Each method pays for its own. -/
theorem accounts_methodsFrom (hd : declaration.AccountsUpTo k) (first : Nat) :
    ∀ (n : Nat) (prior : List Function) (c : Cursor), c.size ≤ k →
      methodFailures prior.reverse + first ≤ c.faults →
      (methodsFrom declaration n prior).Reads (fun _ => True) c fun _ ms c' =>
        methodFailures ms + first ≤ c'.faults
  | 0, prior, c, _, hprior => .pure hprior
  | n + 1, prior, c, hc, hprior => by
      unfold methodsFrom
      refine .peek ?_
      split
      · exact .pure hprior
      · refine .expect (by decide) fun _ _ hsize => ?_
        refine .bind (accounts_routine .method hd (by omega)) fun _ m c' hr hm => ?_
        have hle := hr.size_le
        refine accounts_methodsFrom hd first n _ c' (by omega) ?_
        simp only [Cursor.faults_advance] at hm
        simp only [List.reverse_cons, methodFailures_append, methodFailures]
        omega

/-- A class has those of its methods. -/
theorem accounts_youthDeclaration (hd : declaration.AccountsUpTo k) (hc : c.size ≤ k) :
    (youthDeclaration declaration).Accounts c Stmt.failures := by
  unfold youthDeclaration
  refine .expect (by decide) fun _ _ h₁ => .expect (by decide) fun _ _ h₂ => .remaining ?_
  refine .bind (accounts_methodsFrom hd c.faults _ [] _ (by omega) (by simp [methodFailures]))
    fun _ ms c' _ hms => .expect (by decide) fun _ _ _ => .pure ?_
  simpa [Stmt.failures] using hms

/-- A variable has no places. -/
theorem accounts_variableDeclaration (c : Cursor) :
    variableDeclaration.Accounts c Stmt.failures := by
  unfold variableDeclaration
  refine .expect (by decide) fun _ _ _ => ?_
  refine .accept (by decide) (fun _ _ _ => ?_) fun _ => ?_
  · have hsome : Parser.Accounts (some <$> expression) c.advance.advance fun _ => 0 :=
      .map (steady_expression.accounts _) fun _ _ _ _ h => h
    refine .bind hsome fun _ e? c' _ h => .expect (by decide) fun _ _ _ => .pure ?_
    simpa [Stmt.failures] using h
  · exact .expect (by decide) fun _ _ _ => .pure (by simp [Stmt.failures])

/-- A part that may be left out keeps what is sealed sealed. -/
theorem steady_expressionUnless (kind : TokenKind) : (expressionUnless kind).Steady :=
  Parser.Derives.steady (Grammar.sound_expressionUnless kind)

/-- The first part of a loop has none. -/
theorem accounts_loopInitializer (c : Cursor) :
    loopInitializer.Accounts c fun s? => s?.elim 0 Stmt.failures := by
  unfold loopInitializer
  refine .accept (by decide) (fun _ _ _ => .pure (by simp)) fun _ => ?_
  refine .accept (by decide) (fun _ _ _ => ?_) fun _ => ?_
  · refine .bind (accounts_variableDeclaration _) fun _ s c' _ hs => .pure ?_
    simpa using hs
  · refine .bind (steady_expression.accounts c) fun _ e c' _ he => .expect (by decide) fun _ _ _ => ?_
    exact .pure (by simpa [Stmt.failures] using he)

/-- A `for` loop has those of its first part and its body. -/
theorem accounts_forStatement (hst : statement.AccountsUpTo k) (hc : c.size ≤ k + 1) :
    (forStatement statement).Accounts c Stmt.failures := by
  unfold forStatement
  refine .expect (by decide) fun _ _ h₁ => ?_
  refine .bind (accounts_loopInitializer _) fun _ s? c₁ hr₁ hs => ?_
  refine .bind ((steady_expressionUnless .semicolon).accounts c₁) fun _ condition c₂ hr₂ h => ?_
  refine .expect (by decide) fun _ _ h₂ => ?_
  refine .bind ((steady_expressionUnless .rightParen).accounts _) fun _ increment c₃ hr₃ h' => ?_
  refine .expect (by decide) fun _ _ h₃ => ?_
  have hle₁ := hr₁.size_le
  have hle₂ := hr₂.size_le
  have hle₃ := hr₃.size_le
  refine .bind (hst _ (by omega)) fun _ body c₄ _ hbody => .pure ?_
  simp only [Cursor.faults_advance] at hs h h' hbody
  rw [failures_countingLoop]
  omega

/-- A choice has those of both branches. -/
theorem accounts_ifStatement (hst : statement.AccountsUpTo k) (hc : c.size ≤ k + 1) :
    (ifStatement statement).Accounts c Stmt.failures := by
  unfold ifStatement
  refine .expect (by decide) fun _ _ h₁ => ?_
  refine .bind (steady_expression.accounts _) fun _ condition c₁ hr₁ h => ?_
  refine .expect (by decide) fun _ _ h₂ => ?_
  have hle₁ := hr₁.size_le
  refine .bind (hst _ (by omega)) fun _ yes c₂ hr₂ hyes => ?_
  have hle₂ := hr₂.size_le
  simp only [Cursor.faults_advance] at h hyes
  refine .accept (by decide) (fun _ _ h₃ => ?_) fun _ => .pure ?_
  · refine .bind (hst _ (by omega)) fun _ no c₃ _ hno => .pure ?_
    simp only [Cursor.faults_advance] at hno
    simp only [Stmt.failures]
    omega
  · simp only [Stmt.failures]
    omega

/-- The other loop has those of its body. -/
theorem accounts_whileStatement (hst : statement.AccountsUpTo k) (hc : c.size ≤ k + 1) :
    (whileStatement statement).Accounts c Stmt.failures := by
  unfold whileStatement
  refine .expect (by decide) fun _ _ h₁ => ?_
  refine .bind (steady_expression.accounts _) fun _ condition c₁ hr₁ h => ?_
  refine .expect (by decide) fun _ _ h₂ => ?_
  have hle₁ := hr₁.size_le
  refine .bind (hst _ (by omega)) fun _ body c₂ _ hbody => .pure ?_
  simp only [Cursor.faults_advance] at h hbody
  simp only [Stmt.failures]
  omega

/-- Every kind of statement pays for the placeholders inside it. -/
theorem accounts_statement {parse : Rule → Parser Stmt} (hp : ∀ rule, (parse rule).AccountsUpTo k) :
    (YouthLang.statement parse).AccountsUpTo (k + 1) := fun c hc => by
  unfold YouthLang.statement
  refine .peek ?_
  split
  · next h =>
    refine .next (h ▸ by decide) fun _ hsize => ?_
    simpa [Parser.Accounts] using accounts_forStatement (c := c.advance) (hp .statement) (by omega)
  · next h =>
    refine .next (h ▸ by decide) fun _ hsize => ?_
    simpa [Parser.Accounts] using accounts_ifStatement (c := c.advance) (hp .statement) (by omega)
  · next h =>
    refine .next (h ▸ by decide) fun _ _ => .bind (steady_expression.accounts _) fun _ e c' _ he => ?_
    exact .expect (by decide) fun _ _ _ => .pure (by simpa [Stmt.failures] using he)
  · next h =>
    refine .next (h ▸ by decide) fun _ _ => ?_
    refine .bind ((steady_expressionUnless .semicolon).accounts _) fun _ e? c' _ he => ?_
    exact .expect (by decide) fun _ _ _ => .pure (by simpa [Stmt.failures] using he)
  · next h =>
    refine .next (h ▸ by decide) fun _ hsize => ?_
    simpa [Parser.Accounts] using accounts_whileStatement (c := c.advance) (hp .statement) (by omega)
  · next h =>
    refine .next (h ▸ by decide) fun _ hsize => ?_
    refine .bind (accounts_block (hp .declaration) (by omega)) fun _ body c' _ hbody => .pure ?_
    simpa [Stmt.failures] using hbody
  · refine .bind (steady_expression.accounts c) fun _ e c' _ he => .expect (by decide) fun _ _ _ => ?_
    exact .pure (by simpa [Stmt.failures] using he)

/-- So does every kind of declaration. -/
theorem accounts_declarationBody {parse : Rule → Parser Stmt}
    (hd : (parse .declaration).AccountsUpTo k) (hst : (parse .statement).AccountsUpTo (k + 1)) :
    (declarationBody parse).AccountsUpTo (k + 1) := fun c hc => by
  unfold declarationBody
  refine .peek ?_
  split
  · next h =>
    refine .next (h ▸ by decide) fun _ hsize => ?_
    simpa [Parser.Accounts] using accounts_youthDeclaration (c := c.advance) hd (by omega)
  · next h =>
    refine .next (h ▸ by decide) fun _ hsize => ?_
    refine .bind (accounts_routine .function hd (by omega)) fun _ f c' _ hf => .pure ?_
    simpa [Stmt.failures] using hf
  · next h =>
    refine .next (h ▸ by decide) fun _ _ => ?_
    simpa [Parser.Accounts] using accounts_variableDeclaration c.advance
  · exact hst c hc

/-- The place that recovery leaves has the mistake that led to it; the places that were in what it
throws away are gone. -/
theorem accounts_recovering {p : Parser Stmt} (hp : p.AccountsUpTo k) :
    (recovering p).AccountsUpTo k := fun c hc hs => by
  have := hp c hc hs
  unfold recovering
  split at this
  · next s c' heq =>
    simpa only [heq] using this
  · next c' heq =>
    obtain ⟨read, hr, hmistake⟩ := this
    obtain ⟨skipped, hr'⟩ := Cursor.Reaches.recover (hr.sealed hs)
    simp only [heq]
    refine ⟨_, hr.trans hr', ?_⟩
    have hlt : c.faults ≠ c'.faults := fun h => hmistake (hr.mistakes.eq_of_length h).symm
    have hle := hr.faults_le
    have hle' := hr'.faults_le
    simp only [Stmt.failures]
    omega

/-- Declarations and statements together, by induction on the depth. -/
theorem accounts_statementAt : ∀ n k : Nat,
    (2 * k ≤ n → (statementAt n .declaration).AccountsUpTo k)
      ∧ (2 * k ≤ n + 1 → (statementAt n .statement).AccountsUpTo k)
  | 0, k => by
      refine ⟨fun hk c hc => absurd c.size_pos (by omega), fun hk c hc => ?_⟩
      exact absurd c.size_pos (by omega)
  | n + 1, 0 =>
      ⟨fun _ c hc => absurd c.size_pos (by omega), fun _ c hc => absurd c.size_pos (by omega)⟩
  | n + 1, k + 1 => by
      refine ⟨fun hk => accounts_recovering (accounts_declarationBody ?_ ?_), fun hk => ?_⟩
      · exact (accounts_statementAt n k).1 (by omega)
      · exact (accounts_statementAt n (k + 1)).2 (by omega)
      · refine accounts_statement fun rule => ?_
        cases rule with
        | declaration => exact (accounts_statementAt n k).1 (by omega)
        | statement => exact (accounts_statementAt n k).2 (by omega)

/-- **A declaration has no more places than mistakes.** -/
theorem accounts_declaration (c : Cursor) : YouthLang.declaration.Accounts c Stmt.failures :=
  .remaining ((accounts_statementAt (2 * c.size) c.size).1 (Nat.le_refl _) c (Nat.le_refl _))

end Accounts

/-- Declarations in a row have no more places than mistakes. -/
theorem Declares.failures_le {stop : Cursor → Bool} {body : List Stmt} (h : Declares stop c body c')
    (hs : c.Sealed (fun _ => True)) : bodyFailures body + c.faults ≤ c'.faults := by
  induction h with
  | stop _ => simp [bodyFailures]
  | @declaration c c₁ _ s _ body _ hd hr _ _ ih =>
    have haccounts := accounts_declaration c hs
    rw [hd] at haccounts
    obtain ⟨_, _, hfailures⟩ := haccounts
    have hrest := ih (hr.sealed hs)
    simp only [bodyFailures]
    omega

/-! ## The parser -/

/-- **The parser comes to the end of every list of tokens.**  At a place in the list, up to its first end:

* there is a token to move on to, unless the place is the end;
* a declaration ends, at a place further on, also when it fails and recovery skips nothing;
* a block is its declarations one after the other, up to its closing parenthesis or an end.

No bound cuts a rule off (`Parser.Unbounded`): the loops over operators, arguments, suffixes, signs,
parameters, declarations and methods, and the rules that contain themselves, go on as long as the grammar
wants them to, and each of their rounds reads a token.

The program is its declarations one after the other, from the first token to the first end, and the
places without a tree in it are no more than the mistakes. -/
theorem parse_progresses (node : Nat) (others : List Nat) (t : Token) (ts : List Token)
    (hlast : ((t :: ts).getLast (by simp)).kind = .endOfSource) :
    (∀ c : Cursor, c.Within (t :: ts) → c.atEnd = false →
      (∃ u us, c.following = u :: us ∧ c.advance.tokens = u :: us) ∧ c.advance.Within (t :: ts)
      ∧ ∃ s c₁ read, declaration c = .done s c₁ ∧ c.Reaches read c₁ ∧ read ≠ []
        ∧ c₁.Within (t :: ts))
    ∧ (∀ c : Cursor, c.Within (t :: ts) →
      declaration c = recovering (declarationBody nested) c
      ∧ nested .declaration = declaration ∧ nested .statement c = statement nested c
      ∧ ∃ body c₁, Declares Cursor.endsBlock c body c₁ ∧ c₁.Within (t :: ts)
        ∧ block declaration c = closeBlock body c₁)
    ∧ Parser.Unbounded
    ∧ (∃ c₁, Declares Cursor.atEnd (.start node t ts others) (parse node (t :: ts) others).statements c₁
      ∧ c₁.Within (t :: ts) ∧ c₁.atEnd = true
      ∧ (parse node (t :: ts) others).diagnostics = c₁.mistakes.reverse)
    ∧ bodyFailures (parse node (t :: ts) others).statements
      ≤ (parse node (t :: ts) others).diagnostics.length := by
  have hstart : (Cursor.start node t ts others).Within (t :: ts) := .start node others
  -- The program is one row of declarations, read from the first token to the end.
  obtain ⟨body, hbody, heq⟩ :=
    declares_programFrom (ts.length + 1) [] (hstart.isSealed hlast) (Nat.le_refl _)
  rw [List.reverse_nil, List.nil_append] at heq
  have hparse : parse node (t :: ts) others =
      ⟨body, (programFrom (ts.length + 1) [] (.start node t ts others)).2.node,
      (programFrom (ts.length + 1) [] (.start node t ts others)).2.mistakes.reverse⟩ := by
    rw [← heq]
    rfl
  refine ⟨fun c hc hopen => ?_, fun c hc => ?_, Parser.unbounded, ?_, ?_⟩
  · have hs := hc.isSealed hlast
    have hr := Cursor.Reaches.advance hs (Cursor.current_ne_of_atEnd hopen)
    obtain ⟨s, c₁, read, hdone, hr', hprogress⟩ := declaration_progresses hs hopen
    refine ⟨⟨c.advance.current, c.advance.following, ?_, rfl⟩, hc.reaches hr, s, c₁, read, hdone, hr',
      hprogress, hc.reaches hr'⟩
    exact (List.cons.inj hr.tokens).2
  · have hs := hc.isSealed hlast
    obtain ⟨body, c₁, hbody, heq⟩ := block_declares hs
    exact ⟨nested_declaration hs, rfl, nested_statement hs, body, c₁, hbody, hbody.within hc, heq⟩
  · rw [hparse]
    exact ⟨_, hbody, hbody.within hstart, hbody.stops, rfl⟩
  -- Each placeholder was paid for by a mistake of its own.
  · have hle := hbody.failures_le (hstart.isSealed hlast)
    rw [hparse]
    simpa [Cursor.faults] using hle

/-- The word `tell` at the start of a source. -/
def tellWord : Token := ⟨.tellKey, "tell", ⟨1, 1⟩⟩

/-- An end, a parenthesis and another end behind it. -/
def twoEnds : List Token :=
  [⟨.endOfSource, [], ⟨1, 5⟩⟩, ⟨.rightParen, ")", ⟨1, 5⟩⟩, ⟨.endOfSource, [], ⟨1, 6⟩⟩]

/-- The parser stops at the first end, with one mistake and one place for it. -/
theorem parse_progresses_twoEnds :
    ((tellWord :: twoEnds).getLast (by simp)).kind = .endOfSource
    ∧ (∃ c₁, Declares Cursor.atEnd (.start 0 tellWord twoEnds)
        (parse 0 (tellWord :: twoEnds)).statements c₁
      ∧ c₁.Within (tellWord :: twoEnds) ∧ c₁.atEnd = true
      ∧ (parse 0 (tellWord :: twoEnds)).diagnostics = c₁.mistakes.reverse)
    ∧ bodyFailures (parse 0 (tellWord :: twoEnds)).statements = 1
    ∧ (parse 0 (tellWord :: twoEnds)).diagnostics.length = 1 := by
  obtain ⟨-, -, -, hrun, -⟩ := parse_progresses 0 [] tellWord twoEnds rfl
  exact ⟨rfl, hrun, rfl, rfl⟩

end YouthLang

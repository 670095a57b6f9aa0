import YouthLang.Proofs.Grammar
import YouthLang.Proofs.Formed

/-!
# Proofs/Grammar/Sound — what is parsed without a mistake is a phrase

One lemma for each rule of the parser: if it reports nothing, the tokens that it reads are a phrase of
the grammar's rule, and stand for the tree that it makes.  A branch that is left open is never followed
by a second part, so the phrases are those of the strict grammar.
-/

namespace YouthLang.Grammar

open YouthLang.Parser

/-- A parser that, with at most `k` tokens left, reads phrases of a rule. -/
def Sound {α : Type} (k : Nat) (p : Parser α) (phrase : Phrase α) : Prop :=
  ∀ c : Cursor, c.size ≤ k → p.Derives c fun read a _ => phrase read a

/-! ## Expressions

What a rule reads without a mistake is a phrase of its kind.  The rules for the loops say what a
round adds to what was read before it. -/

section Expressions

variable {expression operand : Parser Expr} {phrase : Phrase Expr} {k : Nat}

/-- A round of a chain adds an operator and an operand at its right end. -/
theorem sound_chainFrom {level : Level} (hop : Sound k operand phrase) (before : List Token) :
    ∀ (n : Nat) (left : Expr) (c : Cursor), c.size ≤ k →
      (chainFrom level operand n left).Derives c fun read e _ =>
        Chain level phrase before left → Chain level phrase (before ++ read) e
  | 0, left, c, _ => .pure fun h => by simpa using h
  | n + 1, left, c, hc => by
      unfold chainFrom
      refine .peek ?_
      split
      · exact .pure fun h => by simpa using h
      · next node hnode =>
        refine .next (Level.kind_ne_endOfSource hnode) fun hsize => ?_
        refine .bind (hop c.advance (by omega)) fun read right c' hr => ?_
        have hle := hr.size_le
        refine .mono (sound_chainFrom hop (before ++ c.current :: read) n _ c' (by omega)) ?_
        intro read' e c'' _ hchain hright hleft
        simpa using hchain (.operator hleft hnode hright)

/-- So what a chain reads is a chain. -/
theorem sound_chain {level : Level} (hop : Sound k operand phrase) :
    Sound k (chain level operand) (Chain level phrase) := fun c hc => by
  unfold chain
  refine .bind (hop c hc) fun read left c' hr => .remaining ?_
  refine .mono (sound_chainFrom hop read _ left c' (Nat.le_trans hr.size_le hc)) ?_
  exact fun read' e c'' _ hchain hleft => hchain (.operand hleft)

/-- Arguments are read with commas between them, and past the limit only with a mistake. -/
theorem sound_argumentsFrom (hex : Sound k expression phrase) :
    ∀ (n : Nat) (prior : List Expr) (c : Cursor), c.size ≤ k → c.size ≤ n →
      (argumentsFrom expression n prior).Derives c fun read es _ =>
        ∃ more, es = prior.reverse ++ more ∧ Separated phrase read more ∧ es.length ≤ maxArguments
  | 0, _, c, _, hn => absurd c.size_pos (by omega)
  | n + 1, prior, c, hc, hn => by
      unfold argumentsFrom
      have hmore : ∀ c : Cursor, c.size ≤ k → c.size ≤ n + 1 →
          Parser.Derives (do
            let argument ← expression
            if ← accept .comma then argumentsFrom expression n (argument :: prior)
            else pure (argument :: prior).reverse) c fun read es _ => prior.length < maxArguments →
              ∃ more, es = prior.reverse ++ more ∧ Separated phrase read more
                ∧ es.length ≤ maxArguments := by
        intro c hc hn
        refine .bind (hex c hc) fun read e c' hr => ?_
        have hle := hr.size_le
        refine .accept (by decide) (fun hcomma hsize => ?_) fun _ => .pure fun he hlt => ?_
        · refine .mono (sound_argumentsFrom hex n _ c'.advance (by omega) (by omega)) ?_
          rintro read' es c'' - ⟨more, rfl, hseparated, hmax⟩ he -
          exact ⟨e :: more, by simp, .more he hcomma hseparated, hmax⟩
        · exact ⟨[e], by simp, by simpa using .one he,
            by rw [List.length_reverse, List.length_cons]; exact hlt⟩
      split
      · exact .peek (.report (hmore _ hc hn))
      · next hlt => exact .mono (hmore c hc hn) fun _ _ _ _ h => h (Nat.lt_of_not_le hlt)

/-- A list of arguments is empty or as above. -/
theorem sound_callArguments (hex : Sound k expression phrase) :
    Sound k (callArguments expression) (Listed phrase) := fun c hc => by
  unfold callArguments
  refine .sees (fun _ => .pure .none) fun _ => .remaining ?_
  refine .mono (sound_argumentsFrom hex _ [] c hc (Nat.le_refl _)) ?_
  rintro read es c' - ⟨more, rfl, hseparated, hmax⟩
  exact .some (by simpa using hseparated) hmax

/-- Each suffix read makes a suffixed operand of the one before it. -/
theorem sound_suffixesFrom (hex : Sound k expression phrase) (before : List Token) :
    ∀ (n : Nat) (e : Expr) (c : Cursor), c.size ≤ k + 1 →
      (suffixesFrom expression n e).Derives c fun read e' _ =>
        Suffixed phrase before e → Suffixed phrase (before ++ read) e'
  | 0, e, c, _ => .pure fun h => by simpa using h
  | n + 1, e, c, hc => by
      unfold suffixesFrom
      refine .accept (by decide) (fun hleft hsize => ?_) fun _ => .accept (by decide)
        (fun hdot hsize => ?_) fun _ => .pure fun h => by simpa using h
      · refine .bind (sound_callArguments hex c.advance (by omega)) fun read es c' hr => ?_
        refine .expect (by decide) fun hright hsize' => ?_
        have hle := hr.size_le
        refine .mono (sound_suffixesFrom hex (before ++ c.current :: (read ++ [c'.current])) n _
          c'.advance (by omega)) fun read' e' c'' _ hsuffixed harguments h => ?_
        simpa using hsuffixed (.call h hleft harguments hright)
      · refine .expect (by decide) fun hname hsize' => ?_
        refine .mono (sound_suffixesFrom hex (before ++ [c.current, c.advance.current]) n _ _
          (by omega)) fun read' e' c'' _ hsuffixed h => ?_
        simpa using hsuffixed (.get h hdot hname)

/-- An operand is a single token or an expression between parentheses. -/
theorem sound_primary (hex : Sound k expression phrase) :
    Sound (k + 1) (primary expression) (Primary phrase) := fun c hc => by
  unfold primary
  refine .peek ?_
  split
  · next h => exact .next (h ▸ by decide) fun _ => .pure (.impossible h)
  · next h => exact .next (h ▸ by decide) fun _ => .pure (.surely h)
  · next h => exact .next (h ▸ by decide) fun _ => .pure (.emptiness h)
  · next h => exact .next (by simp [h]) fun _ => .pure (.number h)
  · next h => exact .next (by simp [h]) fun _ => .pure (.string h)
  · next h => exact .next (h ▸ by decide) fun _ => .freshNode (.pure (.me h))
  · next h => exact .next (h ▸ by decide) fun _ => .freshNode (.pure (.name h))
  · next h =>
    refine .next (h ▸ by decide) fun hsize => ?_
    refine .bind (hex c.advance (by omega)) fun read e c' hr => ?_
    exact .expect (by decide) fun hright _ => .pure fun he => .group h he hright
  · exact .missing

/-- So an operand with suffixes is a phrase of its kind. -/
theorem sound_suffixed (hex : Sound k expression phrase) :
    Sound (k + 1) (suffixed expression) (Suffixed phrase) := fun c hc => by
  unfold suffixed
  refine .bind (sound_primary hex c hc) fun read e c' hr => .remaining ?_
  refine .mono (sound_suffixesFrom hex read _ e c' (Nat.le_trans hr.size_le hc)) ?_
  exact fun read' e' c'' _ hsuffixed he => hsuffixed (.primary he)

/-- A sign before a signed operand makes another; the induction is on how many may come. -/
theorem sound_signedFrom (hex : Sound k expression phrase) : ∀ n : Nat,
    Sound (k + 1) (signedFrom expression n) (Signed phrase)
  | 0 => fun c hc => .mono (sound_suffixed hex c hc) fun _ _ _ _ h => .suffixed h
  | n + 1 => fun c hc => by
      unfold signedFrom
      refine .peek ?_
      split
      · next h =>
        refine .next (h ▸ by decide) fun hsize => ?_
        refine .bind (sound_signedFrom hex n c.advance (by omega)) fun read e c' _ => .pure fun he => ?_
        simpa using .not h he
      · next h =>
        refine .next (h ▸ by decide) fun hsize => ?_
        refine .bind (sound_signedFrom hex n c.advance (by omega)) fun read e c' _ => .pure fun he => ?_
        simpa using .negate h he
      · exact .mono (sound_suffixed hex c hc) fun _ _ _ _ h => .suffixed h

/-- Level by level, from the tightest. -/
theorem sound_operation (hex : Sound k expression phrase) :
    Sound (k + 1) (operation expression) (Operation phrase) := fun c hc => by
  have hsigned : Sound (k + 1) (signed expression) (Signed phrase) := fun c hc => by
    unfold signed
    exact .remaining (sound_signedFrom hex _ c hc)
  exact .mono (sound_chain (sound_chain (sound_chain (sound_chain (sound_chain
    (sound_chain hsigned))))) c hc) fun _ _ _ _ h => .levels h

/-- An expression with an operator between two operands. -/
def isBinary : Expr → Bool
  | .binary _ _ _ _ | .logical _ _ _ _ => true
  | _ => false

/-- What a level makes is a tree with two operands, so it is no target of an assignment. -/
theorem isBinary_node {level : Level} {t : Token} {node : Expr → Expr → Expr}
    (h : level.node? t = some node) (left right : Expr) : isBinary (node left right) = true := by
  unfold Level.node? at h
  split at h <;> first | (obtain rfl := Option.some.inj h; rfl) | exact absurd h (by simp)

/-- A chain whose tree has no operator on top is a single operand. -/
theorem Chain.operand_of {level : Level} {ts : List Token} {e : Expr}
    (h : Chain level phrase ts e) (he : isBinary e = false) : phrase ts e := by
  cases h with
  | operand h => exact h
  | operator _ hnode _ =>
    rw [isBinary_node hnode] at he
    exact absurd he (by simp)

/-- An operation that is no operator's is a signed expression. -/
theorem Operation.signed {ts : List Token} {e : Expr} (h : Operation phrase ts e)
    (he : isBinary e = false) : Signed phrase ts e := by
  obtain ⟨h⟩ := h
  exact (((((h.operand_of he).operand_of he).operand_of he).operand_of he).operand_of he).operand_of he

/-- Only an identifier is an operation that is a name. -/
theorem Operation.name {ts : List Token} {n : Nat} {name : Token}
    (h : Operation phrase ts (.variable n name)) : ts = [name] ∧ name.kind = .identifier := by
  cases h.signed rfl with
  | suffixed hsuffixed =>
    cases hsuffixed with
    | primary hprimary =>
      cases hprimary with
      | name hname => exact ⟨rfl, hname⟩

/-- An operation that is a property ends in it. -/
theorem Operation.get {ts : List Token} {object : Expr} {name : Token}
    (h : Operation phrase ts (.get object name)) : ∃ (us : List Token) (dot : Token),
      ts = us ++ [dot, name] ∧ Suffixed phrase us object ∧ dot.kind = .dot ∧ name.kind = .identifier := by
  cases h.signed rfl with
  | suffixed hsuffixed =>
    cases hsuffixed with
    | primary hprimary => cases hprimary
    | get hobject hdot hname => exact ⟨_, _, rfl, hobject, hdot, hname⟩

/-- **The tree of a target tells its phrase**: a name is a single token and a field a suffixed
operand. -/
theorem sound_assignment (hex : Sound k expression phrase) :
    Sound (k + 1) (assignment expression) (Assignment phrase) := fun c hc => by
  unfold assignment
  refine .bind (sound_operation hex c hc) fun read target c' hr => .peek ?_
  refine .accept (by decide) (fun hequals hsize => ?_) fun _ => .pure fun h => ?_
  · have hle := hr.size_le
    refine .bind (hex c'.advance (by omega)) fun read' value c'' _ => ?_
    split
    · refine .freshNode (.pure fun hvalue htarget => ?_)
      obtain ⟨rfl, hname⟩ := htarget.name
      simpa using .assign hname hequals hvalue
    · refine .pure fun hvalue htarget => ?_
      obtain ⟨us, dot, rfl, hobject, hdot, hname⟩ := htarget.get
      simpa using .set hobject hdot hname hequals hvalue
    · exact .report (@Parser.Derives.pure _ _ (fun _ _ _ => True) target trivial)
  · simpa using .operation h

/-- By induction on the depth, the expression inside being a phrase already. -/
theorem sound_expressionAt : ∀ n : Nat, Sound n (expressionAt n) Expression
  | 0 => fun c hc => absurd c.size_pos (by omega)
  | n + 1 => fun c hc => .mono (sound_assignment (sound_expressionAt n) c hc)
      fun _ _ _ _ h => .assignment h

/-- What is read as an expression without a mistake is one. -/
theorem sound_expression (c : Cursor) :
    YouthLang.expression.Derives c fun read e _ => Expression read e :=
  .remaining (sound_expressionAt _ c (Nat.le_refl _))

end Expressions

/-! ## Statements

A statement is read together with how open it is to an `else`: a choice without one leaves it open,
and a statement that ends with another one is as open as that. -/

section Statements

variable {declaration : Parser Stmt} {k : Nat}

/-- A part that may be left out is there or is not. -/
theorem sound_expressionUnless (kind : TokenKind) (c : Cursor) :
    (expressionUnless kind).Derives c fun read e? _ => Optional Expression read e? := by
  unfold expressionUnless
  refine .sees (fun _ => .pure .none) fun _ => ?_
  exact .map (sound_expression c) fun _ _ _ _ h => .some h

/-- A declaration has its value between sign and semicolon, or only the semicolon. -/
theorem sound_variableDeclaration (c : Cursor) :
    variableDeclaration.Derives c fun read s _ => Variable read s := by
  unfold variableDeclaration
  refine .expect (by decide) fun hname _ => ?_
  refine .accept (by decide) (fun hequals _ => ?_) fun _ => ?_
  · have hsome : Parser.Derives (some <$> YouthLang.expression) c.advance.advance
        fun read e? _ => ∃ e, e? = some e ∧ Expression read e :=
      .map (sound_expression _) fun _ e _ _ he => ⟨e, rfl, he⟩
    refine .bind hsome fun read e? c' _ => .expect (by decide) fun hend _ => .pure ?_
    rintro ⟨e, rfl, he⟩
    exact .initialized hname hequals he hend
  · exact .expect (by decide) fun hend _ => .pure (.bare hname hend)

/-- The first part of a loop is one of three kinds. -/
theorem sound_loopInitializer (c : Cursor) :
    loopInitializer.Derives c fun read s? _ => Initializer read s? := by
  unfold loopInitializer
  refine .accept (by decide) (fun hend _ => .pure (.none hend)) fun _ => ?_
  refine .accept (by decide) (fun hword _ => ?_) fun _ => ?_
  · refine .bind (sound_variableDeclaration _) fun read s c' _ => .pure fun hs => ?_
    simpa using .variable hword hs
  · refine .bind (sound_expression c) fun read e c' _ => ?_
    exact .expect (by decide) fun hend _ => .pure fun he => .expression he hend

/-- Parameters are read with commas between them, and past the limit only with a mistake. -/
theorem sound_parametersFrom : ∀ (n : Nat) (prior : List Token) (c : Cursor), c.size ≤ n →
    (parametersFrom n prior).Derives c fun read ps _ =>
      ∃ more, ps = prior.reverse ++ more ∧ Separated Name read more ∧ ps.length ≤ maxArguments
  | 0, _, c, hn => absurd c.size_pos (by omega)
  | n + 1, prior, c, hn => by
      unfold parametersFrom
      have hmore : ∀ c : Cursor, c.size ≤ n + 1 → Parser.Derives (do
            let name ← expect .identifier (.name .parameter)
            if ← accept .comma then parametersFrom n (name :: prior)
            else pure (name :: prior).reverse) c fun read ps _ => prior.length < maxArguments →
              ∃ more, ps = prior.reverse ++ more ∧ Separated Name read more
                ∧ ps.length ≤ maxArguments := by
        intro c hn
        refine .expect (by decide) fun hname hsize => ?_
        refine .accept (by decide) (fun hcomma hsize' => ?_) fun _ => .pure fun hlt => ?_
        · refine .mono (sound_parametersFrom n _ _ (by omega)) ?_
          rintro read' ps c'' - ⟨more, rfl, hseparated, hmax⟩ -
          exact ⟨c.current :: more, by simp, .more (.mk hname) hcomma hseparated, hmax⟩
        · exact ⟨[c.current], by simp, .one (.mk hname),
            by rw [List.length_reverse, List.length_cons]; exact hlt⟩
      split
      · exact .peek (.report (hmore _ hn))
      · next hlt => exact .mono (hmore c hn) fun _ _ _ _ h => h (Nat.lt_of_not_le hlt)

/-- A list of parameters is empty or as above. -/
theorem sound_parameterList (c : Cursor) :
    parameterList.Derives c fun read ps _ => Listed Name read ps := by
  unfold parameterList
  refine .sees (fun _ => .pure .none) fun _ => .remaining ?_
  refine .mono (sound_parametersFrom _ [] c (Nat.le_refl _)) ?_
  rintro read ps c' - ⟨more, rfl, hseparated, hmax⟩
  exact .some (by simpa using hseparated) hmax

/-- Declarations are read one behind the other, and none of them is left half read. -/
theorem sound_declarationsFrom (hd : Sound k declaration (Declaration true)) :
    ∀ (n : Nat) (prior : List Stmt) (c : Cursor), c.size ≤ k →
      (declarationsFrom declaration n prior).Derives c fun read body _ =>
        ∃ more, body = prior.reverse ++ more ∧ Repeated (Declaration true) read more
  | 0, prior, c, _ => .pure ⟨[], by simp, .nil⟩
  | n + 1, prior, c, hc => by
      unfold declarationsFrom
      refine .peek ?_
      split
      · exact .pure ⟨[], by simp, .nil⟩
      · refine .bind (hd c hc) fun read s c' hr => ?_
        refine .mono (sound_declarationsFrom hd n _ c' (Nat.le_trans hr.size_le hc)) ?_
        rintro read' body c'' - ⟨more, rfl, hrepeated⟩ hs
        exact ⟨s :: more, by simp, .cons hs hrepeated⟩

/-- A block behind its opening parenthesis. -/
theorem sound_block (hd : Sound k declaration (Declaration true)) (c : Cursor) (hc : c.size ≤ k) :
    (block declaration).Derives c fun read body _ => ∃ (ts : List Token) (right : Token),
      read = ts ++ [right] ∧ Repeated (Declaration true) ts body ∧ right.kind = .rightParen := by
  unfold block
  refine .remaining (.bind (sound_declarationsFrom hd _ [] c hc) fun read body c' _ => ?_)
  refine .expect (by decide) fun hright _ => .pure ?_
  rintro ⟨more, rfl, hrepeated⟩
  exact ⟨read, c'.current, rfl, by simpa using hrepeated, hright⟩

/-- A routine is a name, its parameters and its block. -/
theorem sound_routine (kind : Routine) (hd : Sound k declaration (Declaration true)) :
    Sound k (routine kind declaration) (Callable true) := fun c hc => by
  unfold routine
  refine .expect (by decide) fun hname h₁ => .expect (by decide) fun hleft h₂ => ?_
  refine .bind (sound_parameterList _) fun ps parameters c₁ hr => ?_
  refine .expect (by decide) fun hright h₃ => .expect (by decide) fun hleft' h₄ => ?_
  have hle := hr.size_le
  refine .bind (sound_block hd _ (by omega)) fun read body c₂ _ => .pure ?_
  rintro ⟨ts, right', rfl, hbody, hright'⟩ hparameters
  simpa using .mk hname hleft hparameters hright hleft' hbody hright'

/-- Methods are read one behind the other. -/
theorem sound_methodsFrom (hd : Sound k declaration (Declaration true)) :
    ∀ (n : Nat) (prior : List Function) (c : Cursor), c.size ≤ k →
      (methodsFrom declaration n prior).Derives c fun read ms _ =>
        ∃ more, ms = prior.reverse ++ more ∧ Repeated (Method true) read more
  | 0, prior, c, _ => .pure ⟨[], by simp, .nil⟩
  | n + 1, prior, c, hc => by
      unfold methodsFrom
      refine .peek ?_
      split
      · exact .pure ⟨[], by simp, .nil⟩
      · refine .expect (by decide) fun hword hsize => ?_
        refine .bind (sound_routine .method hd c.advance (by omega)) fun read f c' hr => ?_
        have hle := hr.size_le
        refine .mono (sound_methodsFrom hd n _ c' (by omega)) ?_
        rintro read' ms c'' - ⟨more, rfl, hrepeated⟩ hf
        exact ⟨f :: more, by simp, .cons (.mk hword hf) hrepeated⟩

/-- A class is its keyword, a name and methods between parentheses. -/
theorem sound_youthDeclaration (hd : Sound k declaration (Declaration true)) (word : Token)
    (hword : word.kind = .youthKey) (c : Cursor) (hc : c.size ≤ k) :
    (youthDeclaration declaration).Derives c fun read s _ => Declaration true (word :: read) s := by
  unfold youthDeclaration
  refine .expect (by decide) fun hname h₁ => .expect (by decide) fun hleft h₂ => .remaining ?_
  refine .bind (sound_methodsFrom hd _ [] _ (by omega)) fun read ms c' _ => ?_
  refine .expect (by decide) fun hright _ => .pure ?_
  rintro ⟨more, rfl, hrepeated⟩
  exact .youth hword hname hleft (by simpa using hrepeated) hright

/-- A phrase that is a statement; if it is left open, no second part follows it. -/
def Closed (read : List Token) (s : Stmt) (c' : Cursor) : Prop :=
  ∃ open?, Statement true open? read s ∧ (open? = true → c'.current.kind ≠ .elseKey)

/-- A parser that, with at most `k` tokens left, reads statements. -/
def SoundStatement (k : Nat) (p : Parser Stmt) : Prop :=
  ∀ c : Cursor, c.size ≤ k → p.Derives c Closed

variable {statement : Parser Stmt}

/-- What a `for` loop reads is closed by its body, with an `else` open in it or none. -/
theorem sound_forStatement (hst : SoundStatement k statement) (word : Token)
    (hword : word.kind = .forKey) (c : Cursor) (hc : c.size ≤ k + 1) :
    (forStatement statement).Derives c fun read => Closed (word :: read) := by
  unfold forStatement
  refine .expect (by decide) fun hleft h₁ => ?_
  refine .bind (sound_loopInitializer _) fun is s? c₁ hr₁ => ?_
  refine .bind (sound_expressionUnless .semicolon c₁) fun cs condition c₂ hr₂ => ?_
  refine .expect (by decide) fun hend h₂ => ?_
  refine .bind (sound_expressionUnless .rightParen _) fun ns increment c₃ hr₃ => ?_
  refine .expect (by decide) fun hright h₃ => ?_
  have hle₁ := hr₁.size_le
  have hle₂ := hr₂.size_le
  have hle₃ := hr₃.size_le
  refine .bind (hst _ (by omega)) fun ts body c₄ _ => .pure ?_
  rintro ⟨open?, hbody, hclosed⟩ hincrement hcondition hinitializer
  rw [countingLoop_eq_loopOf]
  refine ⟨open?, ?_, hclosed⟩
  simpa using .counting hword hleft hinitializer hcondition hend hincrement hright hbody

/-- A choice without an `else` leaves one open, and with one is as open as its last branch. -/
theorem sound_ifStatement (hst : SoundStatement k statement) (word : Token)
    (hword : word.kind = .ifKey) (c : Cursor) (hc : c.size ≤ k + 1) :
    (ifStatement statement).Derives c fun read => Closed (word :: read) := by
  unfold ifStatement
  refine .expect (by decide) fun hleft h₁ => ?_
  refine .bind (sound_expression _) fun cs condition c₁ hr₁ => ?_
  refine .expect (by decide) fun hright h₂ => ?_
  have hle₁ := hr₁.size_le
  refine .bind (hst _ (by omega)) fun ts yes c₂ hr₂ => ?_
  have hle₂ := hr₂.size_le
  refine .accept (by decide) (fun hword' h₃ => ?_) fun hword' => .pure ?_
  · refine .bind (hst _ (by omega)) fun us no c₃ _ => .pure ?_
    rintro ⟨open?', hno, hclosed'⟩ ⟨open?, hyes, hclosed⟩ hcondition
    -- the second part was not taken by the first one, so the first one is not open
    have hnearest : open? = false := by
      cases open? with
      | false => rfl
      | true => exact absurd hword' (hclosed rfl)
    refine ⟨open?', ?_, hclosed'⟩
    simpa using .branches hword hleft hcondition hright hyes (fun _ => hnearest) hword' hno
  · rintro ⟨open?, hyes, -⟩ hcondition
    refine ⟨true, ?_, fun _ => hword'⟩
    simpa using .branch hword hleft hcondition hright hyes

/-- The other loop is closed by its body as well. -/
theorem sound_whileStatement (hst : SoundStatement k statement) (word : Token)
    (hword : word.kind = .whileKey) (c : Cursor) (hc : c.size ≤ k + 1) :
    (whileStatement statement).Derives c fun read => Closed (word :: read) := by
  unfold whileStatement
  refine .expect (by decide) fun hleft h₁ => ?_
  refine .bind (sound_expression _) fun cs condition c₁ hr₁ => ?_
  refine .expect (by decide) fun hright h₂ => ?_
  have hle₁ := hr₁.size_le
  refine .bind (hst _ (by omega)) fun ts body c₂ _ => .pure ?_
  rintro ⟨open?, hbody, hclosed⟩ hcondition
  refine ⟨open?, ?_, hclosed⟩
  simpa using .loop hword hleft hcondition hright hbody

/-- A statement that is not left open. -/
theorem Closed.of_statement {read : List Token} {s : Stmt} {c' : Cursor}
    (h : Statement true false read s) : Closed read s c' := ⟨false, h, by simp⟩

/-- Every kind of statement is a phrase, told by its first token. -/
theorem sound_statement {parse : Rule → Parser Stmt}
    (hd : Sound k (parse .declaration) (Declaration true))
    (hst : SoundStatement k (parse .statement)) :
    SoundStatement (k + 1) (YouthLang.statement parse) := fun c hc => by
  unfold YouthLang.statement
  refine .peek ?_
  split
  · next h =>
    refine .next (h ▸ by decide) fun hsize => ?_
    exact sound_forStatement hst c.current h c.advance (by omega)
  · next h =>
    refine .next (h ▸ by decide) fun hsize => ?_
    exact sound_ifStatement hst c.current h c.advance (by omega)
  · next h =>
    refine .next (h ▸ by decide) fun _ => ?_
    refine .bind (sound_expression _) fun read e c' _ => .expect (by decide) fun hend _ => .pure ?_
    exact fun he => .of_statement (by simpa using .tell h he hend)
  · next h =>
    refine .next (h ▸ by decide) fun _ => ?_
    refine .bind (sound_expressionUnless .semicolon _) fun read e? c' _ => ?_
    refine .expect (by decide) fun hend _ => .pure fun he => ?_
    exact .of_statement (by simpa using .give h he hend)
  · next h =>
    refine .next (h ▸ by decide) fun hsize => ?_
    exact sound_whileStatement hst c.current h c.advance (by omega)
  · next h =>
    refine .next (h ▸ by decide) fun hsize => ?_
    refine .bind (sound_block hd c.advance (by omega)) fun read body c' _ => .pure ?_
    rintro ⟨ts, right, rfl, hbody, hright⟩
    exact .of_statement (by simpa using .block h hbody hright)
  · next hparen =>
    refine .bind (sound_expression _) fun read e c' hr => .expect (by decide) fun hend _ => .pure ?_
    intro he
    obtain ⟨t, ts, rfl, -⟩ := he.starts
    obtain rfl : c.current = t := (List.cons.inj hr.tokens).1
    exact .of_statement (by simpa using .expression hparen he hend)

/-- So is every kind of declaration. -/
theorem sound_declarationBody {parse : Rule → Parser Stmt}
    (hd : Sound k (parse .declaration) (Declaration true))
    (hst : SoundStatement (k + 1) (parse .statement)) :
    Sound (k + 1) (declarationBody parse) (Declaration true) := fun c hc => by
  unfold declarationBody
  refine .peek ?_
  split
  · next h =>
    refine .next (h ▸ by decide) fun hsize => ?_
    exact sound_youthDeclaration hd c.current h c.advance (by omega)
  · next h =>
    refine .next (h ▸ by decide) fun hsize => ?_
    refine .bind (sound_routine .function hd c.advance (by omega)) fun read f c' _ => .pure ?_
    exact fun hf => by simpa using .function h hf
  · next h =>
    refine .next (h ▸ by decide) fun _ => ?_
    exact .mono (sound_variableDeclaration c.advance) fun _ _ _ _ hs => .variable h hs
  · refine .mono (hst c hc) ?_
    rintro read s c' - ⟨open?, hs, -⟩
    exact .statement hs

/-- What recovery makes good was a mistake. -/
theorem sound_recovering {p : Parser Stmt} (hp : Sound k p (Declaration true)) :
    Sound k (recovering p) (Declaration true) := fun c hc hs => by
  have := hp c hc hs
  unfold recovering
  split at this
  · next s c' heq =>
    simpa only [heq] using this
  · next c' heq =>
    obtain ⟨read, hr, hmistake⟩ := this
    obtain ⟨skipped, hr'⟩ := Cursor.Reaches.recover (hr.sealed hs)
    simp only [heq]
    exact ⟨_, hr.trans hr', fun hclean => absurd (hr.clean hr' hclean).1 hmistake⟩

/-- Declarations and statements together, by induction on the depth. -/
theorem sound_statementAt : ∀ n k : Nat,
    (2 * k ≤ n → Sound k (statementAt n .declaration) (Declaration true))
      ∧ (2 * k ≤ n + 1 → SoundStatement k (statementAt n .statement))
  | 0, k => by
      refine ⟨fun hk c hc => absurd c.size_pos (by omega), fun hk c hc => ?_⟩
      exact absurd c.size_pos (by omega)
  | n + 1, 0 =>
      ⟨fun _ c hc => absurd c.size_pos (by omega), fun _ c hc => absurd c.size_pos (by omega)⟩
  | n + 1, k + 1 => by
      refine ⟨fun hk => sound_recovering (sound_declarationBody ?_ ?_), fun hk => ?_⟩
      · exact (sound_statementAt n k).1 (by omega)
      · exact (sound_statementAt n (k + 1)).2 (by omega)
      · exact sound_statement ((sound_statementAt n k).1 (by omega))
          ((sound_statementAt n k).2 (by omega))

/-- What is read as a declaration without a mistake is one. -/
theorem sound_declaration (c : Cursor) :
    YouthLang.declaration.Derives c fun read s _ => Declaration true read s :=
  .remaining ((sound_statementAt (2 * c.size) c.size).1 (Nat.le_refl _) c (Nat.le_refl _))

end Statements

/-! ## Programs -/

/-- Parsing a program ends further on. -/
theorem reaches_programFrom : ∀ (n : Nat) (prior : List Stmt) {c : Cursor},
    c.Sealed (fun _ => True) → ∃ read, c.Reaches read (programFrom n prior c).2
  | 0, _, c, _ => ⟨[], .refl c⟩
  | n + 1, prior, c, hs => by
      have hd := sound_declaration c hs
      unfold programFrom
      split
      · exact ⟨[], .refl c⟩
      · split at hd
        · next s c' heq =>
          obtain ⟨read, hr, -⟩ := hd
          obtain ⟨read', hr'⟩ := reaches_programFrom n (s :: prior) (hr.sealed hs)
          simp only [heq]
          exact ⟨read ++ read', hr.trans hr'⟩
        · next c' heq =>
          obtain ⟨read, hr, -⟩ := hd
          simp only [heq]
          exact ⟨read, hr⟩

/-- Without a mistake, a program is parsed up to the end.  A declaration has a token, so as many of them
are allowed for as there are. -/
theorem sound_programFrom : ∀ (n : Nat) (prior : List Stmt) {c : Cursor},
    c.Sealed (fun _ => True) → c.size ≤ n → (programFrom n prior c).2.mistakes = c.mistakes →
      ∃ read more, c.Reaches read (programFrom n prior c).2
        ∧ (programFrom n prior c).2.atEnd = true
        ∧ (programFrom n prior c).1 = prior.reverse ++ more ∧ Program true read more
  | 0, _, c, _, hn, _ => absurd c.size_pos (by omega)
  | n + 1, prior, c, hs, hn, hclean => by
      have hd := sound_declaration c hs
      unfold programFrom at hclean ⊢
      split
      · next hend => exact ⟨[], [], .refl c, hend, by simp, .nil⟩
      · next hend =>
        rw [if_neg hend] at hclean
        split at hd
        · next s c' heq =>
          obtain ⟨read, hr, hdeclaration⟩ := hd
          simp only [heq] at hclean ⊢
          obtain ⟨rest, hr'⟩ := reaches_programFrom n (s :: prior) (hr.sealed hs)
          -- Mistakes are never taken back, so none was made in either part.
          obtain ⟨hclean', hclean''⟩ := hr.clean hr' hclean
          have hs' := hdeclaration hclean'
          have hsize : c'.size ≤ n := by
            obtain ⟨t, us, rfl, -⟩ := hs'.first
            have := hr.size
            simp only [List.length_cons] at this
            omega
          obtain ⟨read', more, hr'', hend', hmore, hprogram⟩ :=
            sound_programFrom n (s :: prior) (hr.sealed hs) hsize hclean''
          exact ⟨read ++ read', s :: more, hr.trans hr'', hend', by simp [hmore],
            .cons hs' hprogram⟩
        · next c' heq =>
          obtain ⟨read, hr, hmistake⟩ := hd
          simp only [heq] at hclean
          exact absurd hclean hmistake

end YouthLang.Grammar

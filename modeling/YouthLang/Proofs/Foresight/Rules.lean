import YouthLang.Proofs.Foresight

/-!
# Proofs/Foresight/Rules — the rules of the parser have foresight

One lemma for each rule.  An expression is finished by a name, a statement by a name and a semicolon, and
what is open around them by the parentheses that close it.
-/

namespace YouthLang

open YouthLang.Parser

variable {α : Type} {F : TokenKind → Prop} {ks ks' : List Filler} {kind : TokenKind} {k : Nat}

/-! ## Choices -/

section Choices

variable {yes no : Parser α}

/-- A choice by a word that what follows does not start with is as tame as the branch without it. -/
theorem Parser.Tame.accept (hend : kind ≠ .endOfSource) (hyes : yes.Steady) (hno : no.Tame F ks)
    (hhead : ∀ kind', F kind' → (ks.map Filler.kind).headD kind' ≠ kind) :
    (Parser.accept kind >>= fun b => if b = true then yes else no).Tame F ks where
  steady c := .accept hend (fun _ _ => .mono (hyes _) fun _ _ _ _ _ => trivial) fun _ => hno.steady c
  idles := .accept hend hno.idles
  finishes {us t rest} hus ht := by
    refine .congr (fun c _ hc => ?_) (hno.finishes hus ht)
    have hk : c.current.kind ≠ kind := by
      have hhead := hhead _ ht
      rw [← hus] at hhead
      cases us with
      | nil => rwa [(List.cons.inj hc).1]
      | cons u us => rwa [(List.cons.inj hc).1]
    simp [Parser.accept, Parser.sees, Bind.bind, Pure.pure, hk]

/-- A choice that is finished without the word it looks for. -/
theorem Parser.Viable.accept (hend : kind ≠ .endOfSource) (hyes : yes.Viable (k - 1) F ks')
    (hno : no.Viable k F ks) (hhead : ∀ kind', F kind' → (ks.map Filler.kind).headD kind' ≠ kind) :
    (Parser.accept kind >>= fun b => if b = true then yes else no).Viable k F ks :=
  Tame.viable (.accept hend hyes.steady hno.toTame hhead) fun hc hk =>
    .accept hc (fun _ => hyes.foresees hc.advance (Nat.le_sub_one_of_lt hk)) fun _ =>
      hno.foresees hc hk

/-- A part that may be left out before a word of some kind. -/
theorem Parser.Tame.unless {a : α} (hend : kind ≠ .endOfSource) (hno : no.Tame (· = kind) ks) :
    (Parser.sees kind >>= fun b => if b = true then Pure.pure a else no).Tame (· = kind) [] where
  steady c := .sees (fun _ => .pure trivial) fun _ => hno.steady c
  idles := .sees hend hno.idles
  finishes hus ht := by
    obtain rfl := List.map_eq_nil_iff.mp hus
    exact .of_accepts (.sees_yes ht (.pure trivial))

/-- A part that may be left out is finished by leaving it out. -/
theorem Parser.Viable.unless {a : α} (hend : kind ≠ .endOfSource) (hno : no.Viable k (· = kind) ks) :
    (Parser.sees kind >>= fun b => if b = true then Pure.pure a else no).Viable k (· = kind) [] :=
  Tame.viable (.unless hend hno.toTame) fun hc hk =>
    .sees hc (fun _ => .pure) fun _ => hno.foresees hc hk

/-- A parser that first reports something if a limit is reached. -/
def Parser.limited (isFull : Prop) [Decidable isFull] (cause : GrammarCause) (p : Parser α) : Parser α :=
  if isFull then (do report (← peek) cause; p) else p

variable {isFull : Prop} [Decidable isFull] {cause : GrammarCause} {p : Parser α}

/-- A report of a full list does not count as one at the end, so it leaves a part tame. -/
theorem Parser.Tame.limited (hcause : ∀ what, cause ≠ .missing what) (hp : p.Tame F ks) :
    (Parser.limited isFull cause p).Tame F ks := by
  unfold Parser.limited
  split
  · refine ⟨fun c => .peek (.report (hp.steady _)), .peek fun t ht => .report ht hp.idles, ?_⟩
    intro us t rest hus ht
    cases us with
    | nil => exact .peek (.report hcause (hp.finishes hus ht))
    | cons u us => exact .peek (.report hcause (hp.finishes hus ht))
  · exact hp

/-- The limit is a mistake wherever it is reached, except at the end. -/
theorem Parser.Viable.limited (hcause : ∀ what, cause ≠ .missing what) (hp : p.Viable k F ks) :
    (Parser.limited isFull cause p).Viable k F ks := by
  refine (Tame.limited hcause hp.toTame).viable fun {c t ts} hc hk => ?_
  unfold Parser.limited
  split
  · exact .peek hc (.report hc.current.2 hc hp.steady)
  · exact hp.foresees hc hk

end Choices

/-! ## Expressions -/

section Expressions

variable {operand ex : Parser Expr} {level : Level}

/-- The kinds of token that end an expression. -/
def closesExpression (kind : TokenKind) : Prop :=
  kind = .rightParen ∨ kind = .comma ∨ kind = .semicolon

/-- Nothing at all is no operand, so the end is complained about there. -/
theorem balks_primary : (primary ex).Balks := .peek fun t ht => by
  rw [ht]
  exact .missing

/-- An operand with suffixes starts with the operand. -/
theorem balks_suffixed : (suffixed ex).Balks := balks_primary.bind

/-- A sign needs an operand behind it, however many signs there are. -/
theorem balks_signed : (signed ex).Balks := .remaining fun n => by
  cases n with
  | zero => exact balks_suffixed
  | succ n =>
    refine .peek fun t ht => ?_
    rw [ht]
    exact balks_suffixed

/-- A chain of operators starts with an operand, on every level. -/
theorem balks_operation : (operation ex).Balks :=
  balks_signed.bind.bind.bind.bind.bind.bind

/-- There is no empty expression. -/
theorem balks_expression : expression.Balks := fun c hc => by
  have hassignment : (assignment (expressionAt c.following.length)).Balks := balks_operation.bind
  exact hassignment c hc

/-- An expression takes its turn and is finished by a name. -/
theorem tame_expression : expression.Tame closesExpression [.name] where
  steady := steady_expression
  idles := balks_expression.idles
  finishes {us t rest} hus ht := by
    obtain ⟨u, rfl, hu⟩ := List.map_eq_singleton_iff.mp hus
    have hname : Grammar.Expression [u] (.variable 0 u) :=
      .assignment (.operation (.ofSuffixed (.primary (.name hu))))
    have haccepts := Grammar.complete_expression (f := id) (fun _ => rfl) hname ht rest
    simpa using Finishes.of_accepts (haccepts.mono fun _ _ => trivial)

/-! ### Chains

A chain is finished where its last operand is: the words that are filled in are no operators, so no
level goes on with them. -/

/-- One round of a chain: an operator and its right operand, or nothing more. -/
theorem chainLoop_eq (hop : operand.Steady) (left : Expr) (c : Cursor)
    (hs : c.Sealed (fun _ => True)) : looped (chainFrom level operand) left c
      = chainStep level operand (looped (chainFrom level operand)) left c :=
  (guarded_chainStep level hop).looped_eq (fun _ _ => rfl) left hs

/-- A chain is finished as it stands by whatever closes an expression. -/
theorem tame_chainLoop (hop : operand.Steady) (left : Expr) :
    (looped (chainFrom level operand) left).Tame closesExpression [] where
  steady c := by
    have hsound : Grammar.Sound c.size operand fun _ _ => True := fun c _ => hop c
    exact .remaining (.mono (Grammar.sound_chainFrom hsound [] _ left c (Nat.le_refl _))
      fun _ _ _ _ _ => trivial)
  idles := by
    refine .congr (fun c hc => chainLoop_eq hop left c hc.sealed) (.peek fun t ht => ?_)
    simp only [Level.node?, ht]
    exact .pure
  finishes hus ht := by
    obtain rfl := List.map_eq_nil_iff.mp hus
    refine .congr (fun c hs _ => chainLoop_eq hop left c hs) (.peek ?_)
    have hnode := (Grammar.Closes.ends ht).operator level (by cases level <;> simp [Grammar.allLevels])
    simp only [hnode]
    exact .of_accepts (.pure trivial)

/-- A chain that the end cuts off behind an operator is finished by a name for the operand. -/
theorem viable_chainLoop (hop : operand.Viable k closesExpression [.name]) : ∀ j ≤ k,
    ∀ left, (looped (chainFrom level operand) left).Viable j closesExpression []
  | 0, _, left => (tame_chainLoop hop.steady left).viable_zero
  | j + 1, hj, left => by
      refine (tame_chainLoop hop.steady left).viable_succ fun {c t ts} hc hle => ?_
      refine .congr hc (fun d _ hd => chainLoop_eq hop.steady left d hd.isSealed) (.peek hc ?_)
      cases hnode : level.node? t with
      | none => exact .pure
      | some node =>
        have hrest : (operand >>= fun right =>
            looped (chainFrom level operand) (node left right)).Viable j closesExpression [.name] :=
          .bind_last (hop.mono (by omega)) (fun right => viable_chainLoop hop j (by omega) _)
            fun _ h => h
        exact .next hc (hrest.foresees hc.advance hle)

/-- A chain is finished as its first operand is. -/
theorem viable_chain (level : Level) (hop : operand.Viable k closesExpression [.name]) :
    (chain level operand).Viable k closesExpression [.name] :=
  .bind_last hop (fun left => viable_chainLoop hop k (Nat.le_refl _) left) fun _ h => h

/-! ### Arguments -/

/-- One argument of a call, whatever their number, and the arguments behind it. -/
def argumentStep (rest : List Expr → Parser (List Expr)) (read : List Expr) : Parser (List Expr) := do
  let argument ← expression
  if ← accept .comma then rest (argument :: read)
  else return (argument :: read).reverse

/-- A round of arguments is one more argument, behind a report if there are too many. -/
theorem argumentsStep_eq (rest : List Expr → Parser (List Expr)) (read : List Expr) :
    argumentsStep rest read
      = limited (maxArguments ≤ read.length) .tooManyArguments (argumentStep rest read) := by
  unfold argumentsStep argumentStep limited
  split <;> rfl

/-- The same for the loop, wherever a cursor has tokens left. -/
theorem argumentsLoop_eq (read : List Expr) (c : Cursor) (hs : c.Sealed (fun _ => True)) :
    looped (argumentsFrom expression) read c = limited (maxArguments ≤ read.length) .tooManyArguments
      (argumentStep (looped (argumentsFrom expression)) read) c := by
  rw [← argumentsStep_eq]
  exact guarded_argumentsStep.looped_eq (fun _ _ => rfl) read hs

/-- The loop moves on past what it reads, round by round. -/
theorem steady_argumentsLoop (read : List Expr) :
    (looped (argumentsFrom expression) read).Steady := fun c => by
  have hsound := Grammar.sound_argumentsFrom (fun c _ => Grammar.sound_expression c) _ read c
    (Nat.le_refl _) (Nat.le_refl _)
  exact .remaining (.mono hsound fun _ _ _ _ _ => trivial)

/-- One argument that is a name finishes a list of arguments. -/
theorem tame_argumentsLoop (read : List Expr) :
    (looped (argumentsFrom expression) read).Tame (· = .rightParen) [.name] := by
  refine .congr (argumentsLoop_eq read) (.limited (by simp) ?_)
  refine .bind_last tame_expression (fun argument => ?_) fun _ h => .inl h
  exact .accept (by decide) (steady_argumentsLoop _) .pure fun _ h => by simp [h]

/-- A list cut off behind a comma is finished by a name for the next argument. -/
theorem viable_argumentsLoop (hex : expression.Viable k closesExpression [.name]) : ∀ j ≤ k,
    ∀ read, (looped (argumentsFrom expression) read).Viable j (· = .rightParen) [.name]
  | 0, _, read => (tame_argumentsLoop read).viable_zero
  | j + 1, hj, read => by
      refine .congr (argumentsLoop_eq read) (.limited (by simp) ?_)
      refine .bind_last (hex.mono hj) (fun argument => ?_) fun _ h => .inl h
      exact .accept (by decide) (viable_argumentsLoop hex j (by omega) _) .pure fun _ h => by simp [h]

/-- Nothing is needed to finish a list of arguments that may be empty. -/
theorem viable_callArguments (hex : expression.Viable k closesExpression [.name]) :
    (callArguments expression).Viable k (· = .rightParen) [] :=
  .unless (by decide) (viable_argumentsLoop hex k (Nat.le_refl _) [])

/-! ### Suffixes and signs -/

/-- One round of suffixes: a call, a member, or nothing more. -/
theorem suffixesLoop_eq (e : Expr) (c : Cursor) (hs : c.Sealed (fun _ => True)) :
    looped (suffixesFrom expression) e c = suffixesStep (looped (suffixesFrom expression)) e c :=
  guarded_suffixesStep.looped_eq (fun _ _ => rfl) e hs

/-- The loop moves on past each suffix that it reads. -/
theorem steady_suffixesLoop (e : Expr) : (looped (suffixesFrom expression) e).Steady := fun c =>
  .remaining (.mono (Grammar.sound_suffixesFrom (fun c _ => Grammar.sound_expression c) [] _ e c
    (Nat.le_succ _)) fun _ _ _ _ _ => trivial)

/-- What closes an expression is no call. -/
theorem closesExpression.ne_leftParen {kind : TokenKind} (h : closesExpression kind) :
    kind ≠ .leftParen := by
  obtain rfl | rfl | rfl := h <;> decide

/-- It is no look-up of a member either. -/
theorem closesExpression.ne_dot {kind : TokenKind} (h : closesExpression kind) : kind ≠ .dot := by
  obtain rfl | rfl | rfl := h <;> decide

/-- And it is no assignment. -/
theorem closesExpression.ne_equal {kind : TokenKind} (h : closesExpression kind) : kind ≠ .equal := by
  obtain rfl | rfl | rfl := h <;> decide

/-- Suffixes end in front of whatever closes an expression. -/
theorem tame_suffixesLoop (e : Expr) :
    (looped (suffixesFrom expression) e).Tame closesExpression [] := by
  have hcall : Parser.Steady (do
      let arguments ← callArguments expression
      let paren ← expect .rightParen (.closing .arguments)
      looped (suffixesFrom expression) (.call e paren arguments)) := fun c =>
    .bind (steady_callArguments c) fun _ _ _ _ => .expect (by decide) fun _ _ =>
      .mono (steady_suffixesLoop _ _) fun _ _ _ _ _ _ => trivial
  have hget : Parser.Steady (do
      let name ← expect .identifier (.name .property)
      looped (suffixesFrom expression) (.get e name)) := fun c =>
    .expect (by decide) fun _ _ => .mono (steady_suffixesLoop _ _) fun _ _ _ _ _ => trivial
  refine .congr (suffixesLoop_eq e) (.accept (by decide) hcall ?_ fun _ h => h.ne_leftParen)
  exact .accept (by decide) hget .pure fun _ h => h.ne_dot

/-- Suffixes that the end cuts off inside a call or behind a dot can be finished. -/
theorem viable_suffixesLoop (hex : expression.Viable k closesExpression [.name]) : ∀ j ≤ k + 1,
    ∀ e, (looped (suffixesFrom expression) e).Viable j closesExpression []
  | 0, _, e => (tame_suffixesLoop e).viable_zero
  | j + 1, hj, e => by
      have hrest := viable_suffixesLoop hex j (by omega)
      have hcall : Parser.Viable j closesExpression [.closing] (do
          let arguments ← callArguments expression
          let paren ← expect .rightParen (.closing .arguments)
          looped (suffixesFrom expression) (.call e paren arguments)) :=
        .bind (viable_callArguments (hex.mono (by omega))) (fun arguments =>
          .expect .closing fun paren => hrest _) fun _ _ => rfl
      have hget : Parser.Viable j closesExpression [.name] (do
          let name ← expect .identifier (.name .property)
          looped (suffixesFrom expression) (.get e name)) :=
        .expect .name fun name => hrest _
      refine .congr (suffixesLoop_eq e) (.accept (by decide) hcall ?_ fun _ h => h.ne_leftParen)
      exact .accept (by decide) hget .pure fun _ h => h.ne_dot

/-- A name is an operand, whatever follows it. -/
theorem tame_primary : (primary expression).Tame (fun _ => True) [.name] where
  steady c := .mono (Grammar.sound_primary (fun c _ => Grammar.sound_expression c) c (Nat.le_succ _))
    fun _ _ _ _ _ => trivial
  idles := balks_primary.idles
  finishes hus _ := by
    obtain ⟨u, rfl, hu⟩ := List.map_eq_singleton_iff.mp hus
    refine .of_accepts (.peek ?_)
    rw [hu]
    exact .next (by simp [hu]) (by simp) (.freshNode fun _ => .pure trivial)

/-- An operand is finished by a name; a group that is open is finished by what is inside it. -/
theorem viable_primary (hex : expression.Viable k closesExpression [.name]) :
    (primary expression).Viable (k + 1) (fun _ => True) [.name] := by
  refine tame_primary.viable_succ fun {c t ts} hc hle => .peek hc ?_
  cases hk : t.kind with
  | impossibleKey | surelyKey | emptinessKey | number | string => exact .next hc .pure
  | meKey | identifier => exact .next hc (.freshNode .pure)
  | leftParen =>
    have hgroup : Parser.Viable k (fun _ => True) [.name, .closing] (do
        let e ← expression
        let _ ← expect .rightParen (.closing .group)
        return Expr.group e) :=
      .bind hex (fun e => .expect .closing fun _ => .pure) fun _ _ => .inl rfl
    exact .next hc (hgroup.foresees hc.advance hle)
  | _ => exact .missing hc

/-- An operand with suffixes is finished as either of its two parts is. -/
theorem viable_suffixed (hex : expression.Viable k closesExpression [.name]) :
    (suffixed expression).Viable (k + 1) closesExpression [.name] :=
  .bind_last (viable_primary hex) (fun e => viable_suffixesLoop hex _ (Nat.le_refl _) e)
    fun _ _ => trivial

/-- One round of signs: a sign and what it stands in front of, or an operand. -/
theorem signedLoop_eq (c : Cursor) (hs : c.Sealed (fun _ => True)) :
    signed expression c = signedStep (fun _ => signed expression) () c :=
  guarded_signedStep.looped_eq (L := fun n _ => signedFrom expression n) (fun _ _ => rfl) () hs

/-- A name needs no sign in front of it. -/
theorem tame_signed : (signed expression).Tame closesExpression [.name] where
  steady c := .remaining (.mono (Grammar.sound_signedFrom (k := c.size)
    (fun c _ => Grammar.sound_expression c) _ c (Nat.le_succ _)) fun _ _ _ _ _ => trivial)
  idles := balks_signed.idles
  finishes hus ht := by
    have hsuffixed : (suffixed expression).Tame closesExpression [.name] :=
      .bind_last tame_primary tame_suffixesLoop fun _ _ => trivial
    refine .congr (q := suffixed expression) (fun c hs hc => ?_) (hsuffixed.finishes hus ht)
    obtain ⟨u, rfl, hu⟩ := List.map_eq_singleton_iff.mp hus
    have hcurrent : c.current.kind = .identifier := (congrArg Token.kind (List.cons.inj hc).1).trans hu
    rw [signedLoop_eq c hs]
    simp [signedStep, Bind.bind, peek, hcurrent]

/-- Signs at the end wait for an operand, and a name is one. -/
theorem viable_signed (hex : expression.Viable k closesExpression [.name]) : ∀ j ≤ k + 1,
    (signed expression).Viable j closesExpression [.name]
  | 0, _ => tame_signed.viable_zero
  | j + 1, hj => by
      refine tame_signed.viable_succ fun {c t ts} hc hle => ?_
      refine .congr hc (fun d _ hd => signedLoop_eq d hd.isSealed) (.peek hc ?_)
      have hrest : ∀ op, Parser.Viable j closesExpression [.name] (do
          return Expr.unary op t (← signed expression)) := fun op =>
        .returns (viable_signed hex j (by omega))
      cases hk : t.kind with
      | bang | minus => exact .next hc ((hrest _).foresees hc.advance hle)
      | _ => exact (viable_suffixed hex).foresees hc (Nat.le_trans (Nat.succ_le_succ hle) hj)

/-- Level by level, a chain of operators is finished by a name. -/
theorem viable_operation (hex : expression.Viable k closesExpression [.name]) :
    (operation expression).Viable (k + 1) closesExpression [.name] :=
  viable_chain .disjunction (viable_chain .conjunction (viable_chain .equality
    (viable_chain .comparison (viable_chain .sum (viable_chain .product
      (viable_signed hex _ (Nat.le_refl _)))))))

/-! ### Assignments

Whether an expression is an assignment is only known behind its target, and whether it may be one is
told by the target's tree. -/

/-- A complaint about a word that was read before what a parser reads. -/
def complaining (p : Parser Expr) (t : Token) (cause : GrammarCause) (e : Expr) : Parser Expr := do
  let _ ← p
  report t cause
  return e

section Complaining

variable {p : Parser Expr} {c c' : Cursor} {t : Token} {ts : List Token} {e value : Expr}
  {cause : GrammarCause}

/-- A complaint is reported once the part in front of it has been read. -/
theorem complaining_done (h : p c = .done value c') :
    complaining p t cause e c = .done e (c'.report t cause) := Parser.bind_of_done h

/-- A part that unwinds is not complained about. -/
theorem complaining_unwound (h : p c = .unwound c') : complaining p t cause e c = .unwound c' :=
  Parser.bind_of_unwound h

/-- There is a mistake in any case: the complaint, or what kept the parser from coming to it. -/
theorem mistakes_complaining (hp : p.Steady) (hs : c.Sealed (fun _ => True)) :
    (complaining p t cause e c).cursor.mistakes ≠ c.mistakes := by
  have hread := hp c hs
  cases hx : p c with
  | done value c' =>
    rw [hx] at hread
    obtain ⟨read, hr, -⟩ := hread
    rw [complaining_done hx]
    intro heq
    have hle := hr.mistakes.length_le
    rw [← heq] at hle
    exact absurd hle (by simp [Parsing.cursor, Cursor.report])
  | unwound c' =>
    rw [hx] at hread
    obtain ⟨read, -, hne⟩ := hread
    rwa [complaining_unwound hx]

/-- The complaint comes late: as long as the parser before it asks for more, the end is the only
mistake. -/
theorem foresight_complaining (hp : p.Foresight F c ts) (hsteady : p.Steady)
    (ht : t.kind ≠ .endOfSource) (hcause : ∀ what, cause ≠ .missing what) :
    (complaining p t cause e).Foresight F c ts := by
  cases hx : p c with
  | done value c' =>
    refine .spoiled ?_ fun hd => mistakes_complaining hsteady hd.isSealed
    rw [complaining_done hx]
    exact ⟨_, List.mem_cons_self, by simp [ht]⟩
  | unwound c' =>
    have heq : complaining p t cause e c = .unwound c' := complaining_unwound hx
    cases hp with
    | same hdone => exact absurd (hx.symm.trans hdone) (by simp)
    | ended ks hend hadds hmore =>
      rw [hx] at hend hadds
      refine .ended ks (by rwa [heq]) (by rwa [heq]) fun hus hkind hd => ?_
      obtain ⟨value, d', hdone, htokens, hadds'⟩ := hmore hus hkind hd
      refine ⟨e, _, complaining_done hdone, htokens, hadds'.trans (.report ?_)⟩
      simp only [Cursor.report, List.head?_cons, Option.mem_some_iff, forall_eq']
      exact ⟨cause, rfl, hcause⟩
    | spoiled hmistake _ =>
      rw [hx] at hmistake
      exact .spoiled (by rwa [heq]) fun hd => mistakes_complaining hsteady hd.isSealed

end Complaining

/-- The value of an assignment and the node it makes with its target. -/
def assigned (equals : Token) : Expr → Parser Expr
  | .variable _ name => do
    let value ← expression
    return .assign (← freshNode) name value
  | .get object name => do
    let value ← expression
    return .set object name value
  | target => complaining expression equals .invalidTarget target

/-- An assignment is an operation, and an equals sign with its value if there is one. -/
theorem assignment_eq : assignment expression = (do
    let target ← operation expression
    let equals ← peek
    if ← accept .equal then assigned equals target else return target) := by
  unfold assignment
  congr 1
  funext target
  congr 1
  funext equals
  congr 1
  funext b
  cases b with
  | false => rfl
  | true => cases target <;> rfl

/-- The value of an assignment is read behind the sign, and so is the complaint about its target. -/
theorem steady_assigned (equals : Token) (target : Expr) : (assigned equals target).Steady := by
  intro c
  cases target with
  | «variable» n name =>
    exact .bind (steady_expression c) fun _ _ _ _ => .freshNode (.pure fun _ => trivial)
  | get object name => exact .bind (steady_expression c) fun _ _ _ _ => .pure fun _ => trivial
  | _ =>
    exact .bind (steady_expression c) fun _ _ _ _ =>
      .report (@Parser.Derives.pure _ _ (fun _ _ _ => True) _ trivial)

/-- An assignment cut off behind its sign is finished as its value is. -/
theorem foresight_assigned {c : Cursor} {equals : Token} {ts : List Token}
    (hex : expression.Viable k closesExpression [.name]) (hequals : equals.kind ≠ .endOfSource)
    (target : Expr) (hc : c.Before ts) (hk : ts.length ≤ k) :
    (assigned equals target).Foresight closesExpression c ts := by
  cases target with
  | «variable» n name =>
    have hassign : Parser.Viable k closesExpression [.name] (do
        let value ← expression
        return Expr.assign (← freshNode) name value) :=
      .bind_last hex (fun value => .freshNode fun n => .pure) fun _ h => h
    exact hassign.foresees hc hk
  | get object name =>
    have hset : Parser.Viable k closesExpression [.name] (do
        let value ← expression
        return Expr.set object name value) := .returns hex
    exact hset.foresees hc hk
  | _ => exact foresight_complaining (hex.foresees hc hk) hex.steady hequals (by simp)

/-- Behind an operation an assignment needs no more, and behind its sign it needs a value. -/
theorem viable_assignment (hex : expression.Viable k closesExpression [.name]) :
    (assignment expression).Viable (k + 1) closesExpression [.name] := by
  rw [assignment_eq]
  refine .bind_last (viable_operation hex) (fun target => ?_) fun _ h => h
  have htame : ∀ equals, Parser.Tame closesExpression [] (do
      if ← accept .equal then assigned equals target else return target) := fun equals =>
    .accept (by decide) (steady_assigned equals target) .pure fun _ h => h.ne_equal
  refine (Tame.peek htame).viable_succ fun {c t ts} hc hle => .peek hc ?_
  exact .accept hc (fun _ => foresight_assigned hex hc.current.2 target hc.advance hle) fun _ => .pure

/-- **Expressions have foresight.** -/
theorem viable_expression : ∀ k, expression.Viable k closesExpression [.name]
  | 0 => tame_expression.viable_zero
  | k + 1 => .congr (fun _ hs => expression_eq hs) (viable_assignment (viable_expression k))

end Expressions

/-! ## Statements -/

section Statements

/-- An expression that may be left out is finished by leaving it out. -/
theorem viable_expressionUnless (hkind : closesExpression kind) :
    (expressionUnless kind).Viable k (· = kind) [] := by
  refine .unless ?_ (.returns ((viable_expression k).weaken fun _ h => h ▸ hkind))
  obtain rfl | rfl | rfl := hkind <;> decide

/-- An expression up to its semicolon. -/
theorem viable_ended {after : Ending} {f : Expr → α} : Parser.Viable k F [.name, .semicolon] (do
    let e ← expression
    let _ ← expect .semicolon (.semicolon after)
    return f e) :=
  .bind (viable_expression k) (fun _ => .expect .semicolon fun _ => .pure) fun _ _ => .inr (.inr rfl)

/-- A declaration needs a name and a semicolon; its value may be left out. -/
theorem viable_variableDeclaration :
    variableDeclaration.Viable k F [.name, .semicolon] := by
  have hinitializer : ∀ name, Parser.Viable (k - 1) F [.name, .semicolon] (do
      let initializer ← some <$> expression
      let _ ← expect .semicolon (.semicolon .declaration)
      return Stmt.declare name initializer) := fun name =>
    .bind (.returns (viable_expression _)) (fun e => .expect .semicolon fun _ => .pure)
      fun _ _ => .inr (.inr rfl)
  have hbare : ∀ name, Parser.Viable k F [.semicolon] (do
      let _ ← expect .semicolon (.semicolon .declaration)
      return Stmt.declare name none) := fun name => .expect .semicolon fun _ => .pure
  refine .expect .name fun name => ?_
  exact .accept (by decide) (hinitializer name) (hbare name) fun _ _ => by simp

/-- The first part of a loop is left out by its semicolon. -/
theorem viable_loopInitializer : loopInitializer.Viable k F [.semicolon] := by
  have hvariable : Parser.Viable k F [.name, .semicolon] (do
      return some (← variableDeclaration)) :=
    .returns viable_variableDeclaration
  refine Tame.viable ⟨fun c => ?_, ?_, fun hus _ => ?_⟩ fun {c t ts} hc hk => ?_
  · exact .mono (Grammar.sound_loopInitializer c) fun _ _ _ _ _ => trivial
  · exact (Balks.accept (by decide) (.accept (by decide) balks_expression.bind)).idles
  · obtain ⟨u, rfl, hu⟩ := List.map_eq_singleton_iff.mp hus
    exact .of_accepts
      (.accept_yes hu (by decide) (by simp) (.pure trivial))
  · simp only [List.length_cons] at hk
    refine .accept hc (fun _ => .pure) fun _ => .accept hc (fun _ => ?_) fun _ => ?_
    · exact hvariable.foresees hc.advance (by omega)
    · exact viable_ended.foresees hc hk

/-! ### Parameters -/

/-- One parameter, whatever their number, and those behind it. -/
def parameterStep (rest : List Token → Parser (List Token)) (read : List Token) :
    Parser (List Token) := do
  let name ← expect .identifier (.name .parameter)
  if ← accept .comma then rest (name :: read)
  else return (name :: read).reverse

/-- One round of parameters: a name, behind a report if there are too many. -/
theorem parametersLoop_eq (read : List Token) (c : Cursor) (hs : c.Sealed (fun _ => True)) :
    looped parametersFrom read c = limited (maxArguments ≤ read.length) .tooManyParameters
      (parameterStep (looped parametersFrom) read) c := by
  have hstep : parametersStep (looped parametersFrom) read
      = limited (maxArguments ≤ read.length) .tooManyParameters
        (parameterStep (looped parametersFrom) read) := by
    unfold parametersStep parameterStep limited
    split <;> rfl
  rw [← hstep]
  exact guarded_parametersStep.looped_eq (fun _ _ => rfl) read hs

/-- The loop moves on past each name. -/
theorem steady_parametersLoop (read : List Token) : (looped parametersFrom read).Steady := fun c =>
  .remaining (.mono (Grammar.sound_parametersFrom _ read c (Nat.le_refl _)) fun _ _ _ _ _ => trivial)

/-- A list of parameters cut off behind a comma is finished by a name. -/
theorem viable_parametersLoop : ∀ k read,
    (looped parametersFrom read).Viable k (· = .rightParen) [.name]
  | 0, read => by
      refine Tame.viable_zero (.congr (parametersLoop_eq read) (.limited (by simp) ?_))
      refine .expect .name fun name => ?_
      exact .accept (by decide) (steady_parametersLoop _) .pure fun _ h => by simp [h]
  | k + 1, read => by
      refine .congr (parametersLoop_eq read) (.limited (by simp) ?_)
      refine .expect .name fun name => ?_
      exact .accept (by decide) (viable_parametersLoop k _) .pure fun _ h => by simp [h]

/-- A list of parameters may be empty. -/
theorem viable_parameterList : parameterList.Viable k (· = .rightParen) [] :=
  .unless (by decide) (viable_parametersLoop k [])

/-! ### Bodies

What stands open around a declaration is closed from the inside outwards. -/

/-- The kinds of token that may stand behind a statement which is then not gone on with. -/
def endsStatement (kind : TokenKind) : Prop := kind = .rightParen ∨ kind = .endOfSource

/-- A declaration or a statement has foresight with at most `k` words. -/
def ViableStatement (k : Nat) (p : Parser Stmt) : Prop :=
  p.Viable k endsStatement [.name, .semicolon]

/-- One round inside a block: a declaration, or the end of the block. -/
theorem declarationsLoop_eq (read : List Stmt) (c : Cursor) (hs : c.Sealed (fun _ => True)) :
    looped (declarationsFrom (nested .declaration)) read c
      = declarationsStep (looped (declarationsFrom (nested .declaration))) read c :=
  guarded_declarationsStep.looped_eq (fun _ _ => rfl) read hs

/-- No more declarations are needed in front of a parenthesis. -/
theorem tame_declarationsLoop (read : List Stmt) :
    (looped (declarationsFrom (nested .declaration)) read).Tame (· = .rightParen) [] where
  steady c := .remaining (.mono (Grammar.sound_declarationsFrom (sound_nested c.size) _ read c
    (Nat.le_refl _)) fun _ _ _ _ _ => trivial)
  idles := by
    refine .congr (fun c hc => declarationsLoop_eq read c hc.sealed) (.peek fun t ht => ?_)
    simp only [ht, decide_true, Bool.or_true, if_true]
    exact .pure
  finishes hus ht := by
    obtain rfl := List.map_eq_nil_iff.mp hus
    refine .congr (fun c hs _ => declarationsLoop_eq read c hs) (.peek ?_)
    simp only [ht, decide_true, Bool.true_or, if_true]
    exact .of_accepts (.pure trivial)

/-- A block is finished as the declaration is that the end cuts off. -/
theorem viable_declarationsLoop (hd : ViableStatement k (nested .declaration)) : ∀ j ≤ k, ∀ read,
    (looped (declarationsFrom (nested .declaration)) read).Viable j (· = .rightParen) []
  | 0, _, read => (tame_declarationsLoop read).viable_zero
  | j + 1, hj, read => by
      refine (tame_declarationsLoop read).viable_succ fun {c t ts} hc hle => ?_
      refine .congr hc (fun d _ hd => declarationsLoop_eq read d hd.isSealed) (.peek hc ?_)
      split
      · exact .pure
      · have hfirst := hd.foresees hc (Nat.le_trans (Nat.succ_le_succ hle) hj)
        refine hfirst.bind hd.steady hc (fun s => tame_declarationsLoop _) (fun _ h => .inl h) ?_
        intro s c' ts' hdone hc' hsuffix
        -- A declaration reads a word, so fewer are left.
        have hlt := size_nested_declaration hc.sealed (hc.current.1 ▸ hc.current.2) hdone
        rw [hc.size, hc'.size, List.length_cons] at hlt
        exact (viable_declarationsLoop hd j (by omega) _).foresees hc' (by omega)

/-- A block that is open is finished by its parenthesis. -/
theorem viable_block (hd : ViableStatement k (nested .declaration)) :
    (block (nested .declaration)).Viable k F [.closing] := by
  have heq : block (nested .declaration) = (do
      let body ← looped (declarationsFrom (nested .declaration)) []
      let _ ← expect .rightParen (.closing .block)
      return body) := rfl
  rw [heq]
  exact .bind (viable_declarationsLoop hd k (Nat.le_refl _) [])
    (fun body => .expect .closing fun _ => .pure) fun _ _ => rfl

/-- The words of a function without parameters and statements. -/
def emptyRoutine : List Filler := [.name, .opening, .closing, .opening, .closing]

/-- A routine needs a name, two lists in parentheses, and nothing inside them. -/
theorem viable_routine (kind : Routine) (hd : ViableStatement k (nested .declaration)) :
    (routine kind (nested .declaration)).Viable k F emptyRoutine :=
  .expect .name fun _ => .expect .opening fun _ => .bind viable_parameterList (fun _ =>
    .expect .closing fun _ => .expect .opening fun _ => .returns (viable_block hd)) fun _ _ => rfl

/-- One round inside a class: a method, or the end of the class. -/
theorem methodsLoop_eq (read : List Function) (c : Cursor) (hs : c.Sealed (fun _ => True)) :
    looped (methodsFrom (nested .declaration)) read c
      = methodsStep (looped (methodsFrom (nested .declaration))) read c :=
  guarded_methodsStep.looped_eq (fun _ _ => rfl) read hs

/-- No more methods are needed in front of a parenthesis. -/
theorem tame_methodsLoop (read : List Function) :
    (looped (methodsFrom (nested .declaration)) read).Tame (· = .rightParen) [] where
  steady c := .remaining (.mono (Grammar.sound_methodsFrom (sound_nested c.size) _ read c
    (Nat.le_refl _)) fun _ _ _ _ _ => trivial)
  idles := by
    refine .congr (fun c hc => methodsLoop_eq read c hc.sealed) (.peek fun t ht => ?_)
    simp only [ht, decide_true, Bool.or_true, if_true]
    exact .pure
  finishes hus ht := by
    obtain rfl := List.map_eq_nil_iff.mp hus
    refine .congr (fun c hs _ => methodsLoop_eq read c hs) (.peek ?_)
    simp only [ht, decide_true, Bool.true_or, if_true]
    exact .of_accepts (.pure trivial)

/-- A class is finished as the method is that the end cuts off. -/
theorem viable_methodsLoop (hd : ViableStatement k (nested .declaration)) : ∀ j ≤ k, ∀ read,
    (looped (methodsFrom (nested .declaration)) read).Viable j (· = .rightParen) []
  | 0, _, read => (tame_methodsLoop read).viable_zero
  | j + 1, hj, read => by
      refine (tame_methodsLoop read).viable_succ fun {c t ts} hc hle => ?_
      refine .congr hc (fun d _ hd => methodsLoop_eq read d hd.isSealed) (.peek hc ?_)
      have hmethod : Parser.Viable j (· = .rightParen) emptyRoutine (do
          let m ← routine .method (nested .declaration)
          looped (methodsFrom (nested .declaration)) (m :: read)) :=
        .bind_last (viable_routine .method (hd.mono (by omega)))
          (fun m => viable_methodsLoop hd j (by omega) _) fun _ h => h
      split
      · exact .pure
      · exact .expect hc fun _ => hmethod.foresees hc.advance hle

/-- A class needs a name and its two parentheses. -/
theorem viable_youthDeclaration (hd : ViableStatement k (nested .declaration)) :
    (youthDeclaration (nested .declaration)).Viable k F [.name, .opening, .closing] := by
  have heq : youthDeclaration (nested .declaration) = (do
      let name ← expect .identifier (.name .youth)
      let _ ← expect .leftParen (.opening .youthBody)
      let methods ← looped (methodsFrom (nested .declaration)) []
      let _ ← expect .rightParen (.closing .youthBody)
      return Stmt.youth name methods) := rfl
  rw [heq]
  exact .expect .name fun name => .expect .opening fun _ =>
    .bind (viable_methodsLoop hd k (Nat.le_refl _) [])
      (fun methods => .expect .closing fun _ => .pure) fun _ _ => rfl

/-! ### Conditions -/

variable {st : Parser Stmt}

/-- A loop may leave out all its parts but the body. -/
theorem viable_forStatement (hst : ViableStatement k st) : (forStatement st).Viable k endsStatement
    [.opening, .semicolon, .semicolon, .closing, .name, .semicolon] :=
  .expect .opening fun _ => .bind (F := fun _ => True) viable_loopInitializer (fun _ =>
    .bind (viable_expressionUnless (.inr (.inr rfl))) (fun _ => .expect .semicolon fun _ =>
      .bind (viable_expressionUnless (.inl rfl)) (fun _ => .expect .closing fun _ =>
        .returns hst) fun _ _ => rfl) fun _ _ => rfl) fun _ _ => trivial

/-- A loop needs a condition and a body. -/
theorem viable_whileStatement (hst : ViableStatement k st) : (whileStatement st).Viable k endsStatement
    [.opening, .name, .closing, .name, .semicolon] :=
  .expect .opening fun _ => .bind (viable_expression k)
    (fun _ => .expect .closing fun _ => .returns hst) fun _ _ => .inl rfl

/-- What ends a statement is no `else`, so no branch is joined by accident. -/
theorem endsStatement.ne_else {kind : TokenKind} (h : endsStatement kind) : kind ≠ .elseKey := by
  obtain rfl | rfl := h <;> decide

/-- A choice needs a condition and its first branch. -/
theorem viable_ifStatement (hst : ViableStatement k st) : (ifStatement st).Viable k endsStatement
    [.opening, .name, .closing, .name, .semicolon] := by
  have hsecond : ∀ condition yes, Parser.Viable (k - 1) endsStatement [.name, .semicolon] (do
      return Stmt.branch condition yes (some (← st))) := fun condition yes =>
    .returns (hst.mono (Nat.sub_le _ _))
  exact .expect .opening fun _ => .bind (viable_expression _) (fun condition =>
    .expect .closing fun _ => .bind_last hst (fun yes =>
      .accept (by decide) (hsecond condition yes) .pure fun _ h => h.ne_else) fun _ h => h)
      fun _ _ => .inl rfl

/-! ### Declarations and statements -/

/-- Recovery at the end stays there. -/
theorem Cursor.Before.recover {c : Cursor} (h : c.Before []) : c.recover = c := by
  have hadvance : c.advance = c := by simp [Cursor.advance, Cursor.atEnd, h.atEnd]
  rw [Cursor.recover, hadvance, if_neg (by simp [h.atEnd, TokenKind.startsStatement])]
  simp [Cursor.size, Cursor.settle, Cursor.atEnd, h.atEnd]

/-- To recover is to report nothing. -/
theorem mistakes_recovering (p : Parser Stmt) (c : Cursor) :
    (recovering p c).cursor.mistakes = (p c).cursor.mistakes := by
  unfold recovering
  split
  · next heq => rw [heq]
  · next heq => rw [heq]; exact Cursor.mistakes_recover _

/-- A rule that has come to its end needs no recovery. -/
theorem recovering_done {p : Parser Stmt} {c c' : Cursor} {s : Stmt} (h : p c = .done s c') :
    recovering p c = .done s c' := by
  simp only [recovering, h]

/-- At the end there is nothing to skip. -/
theorem cursor_recovering {p : Parser Stmt} {c : Cursor} (h : (p c).cursor.Before []) :
    (recovering p c).cursor = (p c).cursor := by
  cases hx : p c with
  | done s c' => rw [recovering_done hx]
  | unwound c' =>
    rw [hx] at h
    simp only [recovering, hx]
    exact h.recover

/-- Recovery leaves a tame rule as it is. -/
theorem tame_recovering {p : Parser Stmt} (hp : p.Tame F ks) : (recovering p).Tame F ks where
  steady c hs := by
    have hread := hp.steady c hs
    unfold recovering
    split at hread
    · next heq => simpa only [heq] using hread
    · next c' heq =>
      obtain ⟨read, hr, -⟩ := hread
      obtain ⟨skipped, hr'⟩ := Cursor.Reaches.recover (hr.sealed hs)
      simp only [heq]
      exact ⟨_, hr.trans hr', fun _ => trivial⟩
  idles c hc := by
    obtain ⟨hend, hadds⟩ := hp.idles c hc
    rw [cursor_recovering hend]
    exact ⟨hend, hadds⟩
  finishes hus ht c hs hc := by
    obtain ⟨s, c', hdone, hrest⟩ := hp.finishes hus ht c hs hc
    exact ⟨s, c', recovering_done hdone, hrest⟩

/-- A rule that recovers can be finished where the rule itself can, and a rule that unwinds has
reported before. -/
theorem viable_recovering {p : Parser Stmt} (hp : p.Viable k F ks) : (recovering p).Viable k F ks where
  toTame := tame_recovering hp.toTame
  foresees {c ts} hc hk := by
    cases hp.foresees hc hk with
    | same hdone hsuffix hmore =>
      refine .same (recovering_done hdone) hsuffix fun hd => ?_
      obtain ⟨d', hdone', hrest⟩ := hmore hd
      exact ⟨d', recovering_done hdone', hrest⟩
    | ended ks hend hadds hmore =>
      have hcursor := cursor_recovering hend
      refine .ended ks (by rwa [hcursor]) (by rwa [hcursor]) fun hus ht hd => ?_
      obtain ⟨s, d', hdone, hrest⟩ := hmore hus ht hd
      exact ⟨s, d', recovering_done hdone, hrest⟩
    | spoiled hmistake hmore =>
      refine .spoiled (by rwa [mistakes_recovering]) fun hd => ?_
      rw [mistakes_recovering]
      exact hmore hd

/-- There is no empty statement. -/
theorem balks_statement {parse : Rule → Parser Stmt} : (statement parse).Balks := .peek fun t ht => by
  rw [ht]
  exact balks_expression.bind

/-- A statement is finished by a name and a semicolon. -/
theorem tame_nested_statement :
    (nested .statement).Tame endsStatement [.name, .semicolon] where
  steady := steady_nested .statement
  idles := .congr (fun c hc => nested_statement hc.sealed) balks_statement.idles
  finishes {us t rest} hus ht := by
    have hended : Parser.Viable 0 endsStatement [.name, .semicolon] (do
        let value ← expression
        let _ ← expect .semicolon (.semicolon .expression)
        return Stmt.expression value) := viable_ended
    obtain ⟨u, us', rfl, hu, -⟩ := List.map_eq_cons_iff.mp hus
    refine .congr (fun c hs _ => nested_statement hs) (.peek ?_)
    rw [hu]
    exact hended.finishes hus ht

/-- So is a declaration. -/
theorem tame_declarationBody :
    (declarationBody nested).Tame endsStatement [.name, .semicolon] where
  steady c := by
    have hst : Grammar.SoundStatement (c.size + 1) (nested .statement) := fun c _ =>
      .remaining ((Grammar.sound_statementAt _ c.size).2 (Nat.le_succ _) c (Nat.le_refl _))
    exact .mono (Grammar.sound_declarationBody (sound_nested c.size) hst c (Nat.le_succ _))
      fun _ _ _ _ _ => trivial
  idles := .peek fun t ht => by
    rw [ht]
    exact tame_nested_statement.idles
  finishes {us t rest} hus ht := by
    obtain ⟨u, us', rfl, hu, -⟩ := List.map_eq_cons_iff.mp hus
    refine .peek ?_
    rw [hu]
    exact tame_nested_statement.finishes hus ht

/-- Each kind of statement has foresight, if what stands inside it has. -/
theorem viable_statement (hd : ViableStatement k (nested .declaration))
    (hst : ViableStatement k (nested .statement)) : ViableStatement (k + 1) (statement nested) := by
  have htame := Tame.congr (fun c hs => (nested_statement hs).symm) tame_nested_statement
  refine htame.viable_succ fun {c t ts} hc hle => .peek hc ?_
  cases hk : t.kind with
  | forKey => exact .next hc ((viable_forStatement hst).foresees hc.advance hle)
  | ifKey => exact .next hc ((viable_ifStatement hst).foresees hc.advance hle)
  | whileKey => exact .next hc ((viable_whileStatement hst).foresees hc.advance hle)
  | tellKey => exact .next hc (viable_ended.foresees hc.advance hle)
  | giveKey =>
    have hgive : Parser.Viable k endsStatement [.semicolon] (do
        let value ← expressionUnless .semicolon
        let _ ← expect .semicolon (.semicolon .given)
        return Stmt.give t value) :=
      .bind (viable_expressionUnless (.inr (.inr rfl))) (fun value => .expect .semicolon fun _ => .pure)
        fun _ _ => rfl
    exact .next hc (hgive.foresees hc.advance hle)
  | leftParen =>
    have hblock : Parser.Viable k endsStatement [.closing] (do
        return Stmt.block (← block (nested .declaration))) :=
      .returns (viable_block hd)
    exact .next hc (hblock.foresees hc.advance hle)
  | _ => exact viable_ended.foresees hc (Nat.succ_le_succ hle)

/-- The same for a declaration, which may be a statement. -/
theorem viable_declarationBody (hd : ViableStatement k (nested .declaration))
    (hst : ViableStatement (k + 1) (nested .statement)) :
    ViableStatement (k + 1) (declarationBody nested) := by
  refine tame_declarationBody.viable_succ fun {c t ts} hc hle => .peek hc ?_
  cases hk : t.kind with
  | youthKey => exact .next hc ((viable_youthDeclaration hd).foresees hc.advance hle)
  | listenKey =>
    have hfunction : Parser.Viable k endsStatement emptyRoutine (do
        return Stmt.function (← routine .function (nested .declaration))) :=
      .returns (viable_routine .function hd)
    exact .next hc (hfunction.foresees hc.advance hle)
  | isKey => exact .next hc (viable_variableDeclaration.foresees hc.advance hle)
  | _ => exact hst.foresees hc (Nat.succ_le_succ hle)

/-- **Declarations and statements have foresight.** -/
theorem viable_nested : ∀ k,
    ViableStatement k (nested .declaration) ∧ ViableStatement k (nested .statement)
  | 0 => by
      refine ⟨Tame.viable_zero (.congr (fun c hs => nested_declaration hs) ?_),
        tame_nested_statement.viable_zero⟩
      exact tame_recovering tame_declarationBody
  | k + 1 => by
      obtain ⟨hd, hst⟩ := viable_nested k
      have hstatement : ViableStatement (k + 1) (nested .statement) :=
        .congr (fun c hs => nested_statement hs) (viable_statement hd hst)
      refine ⟨.congr (fun c hs => nested_declaration hs) (viable_recovering ?_), hstatement⟩
      exact viable_declarationBody hd hstatement

/-! ## Programs -/

/-- One round of a program: a declaration, or the end. -/
theorem programLoop_eq (read : List Stmt) (c : Cursor) (hs : c.Sealed (fun _ => True)) :
    looped programAt read c = programStep (looped programAt) read c :=
  guarded_programStep.looped_eq programAt_succ read hs

/-- A program may end anywhere between two declarations. -/
theorem tame_programLoop (read : List Stmt) : (looped programAt read).Tame (· = .endOfSource) [] where
  steady c hs := by
    obtain ⟨read', hr⟩ := Grammar.reaches_programFrom c.size read hs
    exact ⟨read', hr, fun _ => trivial⟩
  idles := by
    refine .congr (fun c hc => programLoop_eq read c hc.sealed) (.peek fun t ht => ?_)
    rw [if_pos ht]
    exact .pure
  finishes hus ht := by
    obtain rfl := List.map_eq_nil_iff.mp hus
    refine .congr (fun c hs _ => programLoop_eq read c hs) (.peek ?_)
    rw [if_pos ht]
    exact .of_accepts (.pure trivial)

/-- **Programs have foresight.** -/
theorem viable_programLoop : ∀ k read, (looped programAt read).Viable k (· = .endOfSource) []
  | 0, read => (tame_programLoop read).viable_zero
  | k + 1, read => by
      refine (tame_programLoop read).viable_succ fun {c t ts} hc hle => ?_
      obtain ⟨hcurrent, hk⟩ := hc.current
      refine .congr hc (fun d _ hd => programLoop_eq read d hd.isSealed) (.peek hc ?_)
      rw [if_neg hk]
      have hd := (viable_nested (k + 1)).1
      refine (hd.foresees hc (Nat.succ_le_succ hle)).bind hd.steady hc (fun s => tame_programLoop _)
        (fun _ h => .inr h) fun s c' ts' hdone hc' hsuffix => ?_
      have hlt := size_nested_declaration hc.sealed (hcurrent ▸ hk) hdone
      rw [hc.size, hc'.size, List.length_cons] at hlt
      exact (viable_programLoop k _).foresees hc' (by omega)

end Statements

end YouthLang

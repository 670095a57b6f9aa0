import YouthLang.Proofs.Grammar.Exact
import YouthLang.Proofs.Unbounded

/-!
# Proofs/Recovery — a semicolon that is left out

Where a declaration has lost the semicolon at its end, the parser reads what is left of it and finds the
semicolon missing at the token behind it, however deep the statement stands that should have ended
there (`ShortenedDeclaration.misses`).  Recovery then skips nothing if that token is the end or starts a
statement (`tokens_recover_here`), and otherwise all up to the next semicolon (`tokens_recover_behind`).

Hence semicolons left out in front of such tokens are reported one by one, and damage nothing else
(`parse_shortened`).
-/

namespace YouthLang

open YouthLang.Parser

variable {α β : Type} {t : Token} {ts us rest : List Token} {c : Cursor}

/-! ## Parsers on known tokens -/

/-- From some tokens on, what the mistakes before have to do with how the parser ends. -/
def Parser.From (p : Parser α) (tokens : List Token)
    (post : List Diagnostic → Parsing α → Prop) : Prop :=
  ∀ c : Cursor, c.tokens = tokens → post c.mistakes (p c)

namespace Parser.From

variable {p q : Parser α} {post : List Diagnostic → Parsing α → Prop}

/-- What a rule becomes decides where it leads. -/
theorem step (h : p.Becomes ts q us) (hq : q.From us post) : p.From ts post := by
  intro c hc
  obtain ⟨c', heq, htokens, hclean⟩ := h c hc
  rw [heq, ← hclean]
  exact hq c' htokens

/-- Behind a part that reports nothing. -/
theorem after {post : List Diagnostic → Parsing β → Prop} {f : α → Parser β} {pre : α → Prop}
    (hp : p.Accepts ts us pre) (hf : ∀ a, pre a → (f a).From us post) :
    (p >>= f).From ts post := by
  intro c hc
  obtain ⟨a, c', heq, htokens, hclean, hpre⟩ := hp c hc
  rw [Parser.bind_of_done heq, ← hclean]
  exact hf a hpre c' htokens

end Parser.From

/-- To accept is to lead to one end, with no mistake more. -/
theorem Parser.Accepts.from {p : Parser α} {post : α → Prop} (h : p.Accepts ts rest post) :
    p.From ts fun before r => ∃ a c, r = .done a c ∧ c.tokens = rest ∧ c.mistakes = before ∧ post a :=
  h

/-- The mistake that something is missing at a token. -/
def missingAt (t : Token) (what : Wanted) : Diagnostic where
  cause := .grammatical (.missing what)
  line := t.place.line
  column := t.place.column
  lexeme := t.lexeme
  atEnd := t.kind = .endOfSource

/-- From some tokens on the parser unwinds in front of the last of them, with the one mistake that
something is missing there. -/
def Parser.Misses (p : Parser α) (tokens : List Token) (t : Token) (us : List Token) : Prop :=
  p.From tokens fun before r => ∃ c what, r = .unwound c ∧ c.tokens = t :: us
    ∧ c.mistakes = missingAt t what :: before

namespace Parser.Misses

variable {p q : Parser α} {f : α → Parser β}

/-- The complaint itself misses at the token it names. -/
theorem missing {what : Wanted} : (Parser.missing what : Parser α).Misses (t :: us) t us := by
  intro c hc
  obtain ⟨rfl, -⟩ := List.cons.inj hc
  exact ⟨c.report c.current (.missing what), what, rfl, hc, rfl⟩

/-- What a rule becomes decides where it misses. -/
theorem step (h : p.Becomes ts q rest) (hq : q.Misses rest t us) : p.Misses ts t us :=
  From.step h hq

/-- Behind a part that is accepted the rest may miss. -/
theorem after {pre : α → Prop} (hp : p.Accepts ts rest pre)
    (hf : ∀ a, pre a → (f a).Misses rest t us) : (p >>= f).Misses ts t us :=
  From.after hp hf

/-- Behind a miss nothing is read any more. -/
theorem bind (hp : p.Misses ts t us) : (p >>= f).Misses ts t us := by
  intro c hc
  obtain ⟨c', what, heq, htokens, hmistake⟩ := hp c hc
  exact ⟨c', what, Parser.bind_of_unwound heq, htokens, hmistake⟩

/-- Nor is a result changed. -/
theorem map {g : α → β} (hp : p.Misses ts t us) : (g <$> p).Misses ts t us := bind hp

end Parser.Misses

/-! ## Tokens with an end -/

/-- The last token marks the end. -/
def Ended (ts : List Token) : Prop := ∃ t, ts.getLast? = some t ∧ t.kind = .endOfSource

/-- An end behind more tokens is still one. -/
theorem Ended.append (h : Ended us) : Ended (ts ++ us) := by
  obtain ⟨t, ht, hend⟩ := h
  exact ⟨t, by simp [List.getLast?_append, ht], hend⟩

/-- So it is behind one more. -/
theorem Ended.cons (h : Ended us) : Ended (t :: us) := @Ended.append [t] us h

/-- A cursor over tokens with an end is sealed by it. -/
theorem Ended.sealed (h : Ended ts) (hc : c.tokens = ts) : c.Sealed (fun _ => True) :=
  ⟨hc ▸ h, fun _ _ => trivial⟩

/-- Tokens with an end are not none. -/
theorem Ended.ne_nil (h : Ended ts) : ts ≠ [] := by
  rintro rfl
  obtain ⟨t, ht, -⟩ := h
  simp at ht

/-- The end may be put last. -/
theorem ended_snoc (h : t.kind = .endOfSource) : Ended (ts ++ [t]) := ⟨t, by simp, h⟩

/-- A statement in front of an end is made of declarations and statements. -/
theorem Parser.Becomes.nested_statement (h : Ended ts) :
    (nested .statement).Becomes ts (statement nested) ts := fun c hc =>
  ⟨c, YouthLang.nested_statement (h.sealed hc), hc, rfl⟩

/-- A declaration recovers from the mistakes in its body. -/
theorem Parser.Becomes.nested_declaration (h : Ended ts) :
    (nested .declaration).Becomes ts (recovering (declarationBody nested)) ts := fun c hc =>
  ⟨c, YouthLang.nested_declaration (h.sealed hc), hc, rfl⟩

namespace Grammar

/-! ## Phrases in front of a token -/

section Accepted

/-- Tokens that are moved nowhere are equal. -/
theorem moved_id : Moved id = Eq := by
  funext t t'
  exact propext eq_comm

/-- An expression of the grammar is accepted in front of what may follow it. -/
theorem Expression.accepted {e : Expr} (h : Expression ts e) (ht : Bounds t) (us : List Token) :
    expression.Accepts (ts ++ t :: us) (t :: us) fun _ => True := by
  simpa using (@complete_bounded id (fun _ => rfl) ts e t h ht us).mono fun _ _ => trivial

/-- So is one that may be left out. -/
theorem Optional.accepted {e? : Option Expr} {kind : TokenKind} (h : Optional Expression ts e?)
    (ht : t.kind = kind) (hclose : Closes t) (us : List Token) :
    (expressionUnless kind).Accepts (ts ++ t :: us) (t :: us) fun _ => True := by
  simpa using (@complete_expressionUnless id kind (fun _ => rfl) ts e? t h ht hclose us).mono
    fun _ _ => trivial

/-- An expression is read where anything but a token that starts none may stand instead. -/
theorem Expression.acceptedUnless {e : Expr} {kind : TokenKind} (h : Expression ts e)
    (hkind : startsExpression kind = false) (ht : Bounds t) (us : List Token) :
    (expressionUnless kind).Accepts (ts ++ t :: us) (t :: us) fun _ => True := by
  have haccepted := h.accepted ht us
  obtain ⟨t', ts', rfl, ht'⟩ := h.starts
  refine .sees_no (fun hk => ?_) (.map haccepted fun _ _ => trivial)
  rw [hk, hkind] at ht'
  exact Bool.false_ne_true ht'

/-- So is the first part of a loop. -/
theorem Initializer.accepted {s? : Option Stmt} (h : Initializer ts s?) (hus : us ≠ []) :
    loopInitializer.Accepts (ts ++ us) us fun _ => True := by
  obtain ⟨t, us, rfl⟩ := List.exists_cons_of_ne_nil hus
  simpa using (@complete_loopInitializer id (fun _ => rfl) ts s? h t us).mono fun _ _ => trivial

/-- So is a statement, unless an `else` would be taken into it. -/
theorem Statement.accepted {open? : Bool} {s : Stmt} (h : Statement true open? ts s)
    (ht : open? = true → t.kind ≠ .elseKey) (us : List Token) :
    (nested .statement).Accepts (ts ++ t :: us) (t :: us) fun _ => True := by
  have hcomplete := (@complete_statementAt id (fun _ => rfl) (2 * (ts ++ t :: us).length)
    (ts ++ t :: us).length).2 (Nat.le_succ _) open? ts s t us h ht (by simp)
  rw [List.map_id] at hcomplete
  exact .remaining (hcomplete.mono fun _ _ => trivial)

/-- So is a declaration, and its tree is the grammar's. -/
theorem Declaration.accepted {s : Stmt} (h : Declaration true ts s) (ht : Parts t)
    (us : List Token) : declaration.Accepts (ts ++ t :: us) (t :: us) (s.Alike Eq AnyNode) := by
  simpa [moved_id] using @complete_declaration id (fun _ => rfl) ts s t h ht us

end Accepted

/-! ## Statements in front of their semicolon

A statement without its last semicolon is shortened; its tip is what then comes last, and decides
what it can go on with. -/

/-- What stands last in a declaration that has lost its semicolon. -/
inductive Tip where
  | expression
  | give
  | name

/-- A token that is neither the semicolon nor something that what stands last could go on with. -/
def Tip.Stops (tip : Tip) (t : Token) : Prop :=
  t.kind ≠ .semicolon ∧
  match tip with
  | .expression => Bounds t
  | .give => startsExpression t.kind = false
  | .name => t.kind ≠ .equal

/-- A statement that ends in a semicolon, without it, and what stands last then. -/
inductive Shortened : Tip → List Token → Prop
  | counting {word left is initializer cs condition semicolon ns increment right tip ts}
      (hword : word.kind = .forKey) (hleft : left.kind = .leftParen)
      (hinitializer : Initializer is initializer) (hcondition : Optional Expression cs condition)
      (hend : semicolon.kind = .semicolon) (hincrement : Optional Expression ns increment)
      (hright : right.kind = .rightParen) (h : Shortened tip ts) :
      Shortened tip (word :: left :: (is ++ (cs ++ semicolon :: (ns ++ right :: ts))))
  | branch {word left cs condition right tip ts} (hword : word.kind = .ifKey)
      (hleft : left.kind = .leftParen) (hcondition : Expression cs condition)
      (hright : right.kind = .rightParen) (h : Shortened tip ts) :
      Shortened tip (word :: left :: (cs ++ right :: ts))
  | branches {word left cs condition right ts yes word' tip us} (hword : word.kind = .ifKey)
      (hleft : left.kind = .leftParen) (hcondition : Expression cs condition)
      (hright : right.kind = .rightParen) (hyes : Statement true false ts yes)
      (hword' : word'.kind = .elseKey) (h : Shortened tip us) :
      Shortened tip (word :: left :: (cs ++ right :: (ts ++ word' :: us)))
  | loop {word left cs condition right tip ts} (hword : word.kind = .whileKey)
      (hleft : left.kind = .leftParen) (hcondition : Expression cs condition)
      (hright : right.kind = .rightParen) (h : Shortened tip ts) :
      Shortened tip (word :: left :: (cs ++ right :: ts))
  | tell {word ts e} (hword : word.kind = .tellKey) (h : Expression ts e) :
      Shortened .expression (word :: ts)
  | give {word ts e} (hword : word.kind = .giveKey) (h : Expression ts e) :
      Shortened .expression (word :: ts)
  | giveNothing {word} (hword : word.kind = .giveKey) : Shortened .give [word]
  | expression {t ts e} (hfirst : t.kind ≠ .leftParen) (h : Expression (t :: ts) e) :
      Shortened .expression (t :: ts)

/-- The same for declarations. -/
inductive ShortenedDeclaration : Tip → List Token → Prop
  | bare {word name} (hword : word.kind = .isKey) (hname : name.kind = .identifier) :
      ShortenedDeclaration .name [word, name]
  | initialized {word name equals ts e} (hword : word.kind = .isKey)
      (hname : name.kind = .identifier) (hequals : equals.kind = .equal) (h : Expression ts e) :
      ShortenedDeclaration .expression (word :: name :: equals :: ts)
  | statement {tip ts} (h : Shortened tip ts) : ShortenedDeclaration tip ts

/-- A run of tokens that ends in a semicolon and is a phrase without it, or else ends in a
parenthesis. -/
def Ending (shortened : Tip → List Token → Prop) (ts : List Token) : Prop :=
  (∃ us last tip, ts = us ++ [last] ∧ last.kind = .semicolon ∧ shortened tip us)
    ∨ ∃ last, ts.getLast? = some last ∧ last.kind = .rightParen

section Ending

variable {shortened shortened' : Tip → List Token → Prop}

/-- A statement that ends with its own semicolon is shortened by that. -/
theorem Ending.semicolon {tip : Tip} (h : shortened tip us) (ht : t.kind = .semicolon)
    (hts : ts = us ++ [t]) : Ending shortened ts := .inl ⟨us, t, tip, hts, ht, h⟩

/-- What stands in front of a phrase stands in front of its end. -/
theorem Ending.behind (front : List Token) (h : Ending shortened ts)
    (hfront : ∀ tip us, shortened tip us → shortened' tip (front ++ us)) :
    Ending shortened' (front ++ ts) := by
  obtain ⟨us, last, tip, rfl, hlast, hus⟩ | ⟨last, hts, hlast⟩ := h
  · exact .semicolon (hfront tip us hus) hlast (by simp)
  · exact .inr ⟨last, by simp [List.getLast?_append, hts], hlast⟩

/-- A run that ends in a semicolon, without it. -/
theorem Ending.dropLast (h : Ending shortened ts) (ht : ts.getLast? = some t)
    (hk : t.kind = .semicolon) : ts = ts.dropLast ++ [t] ∧ ∃ tip, shortened tip ts.dropLast := by
  obtain ⟨us, last, tip, rfl, -, hus⟩ | ⟨last, hts, hlast⟩ := h
  · obtain rfl : last = t := by simpa using ht
    exact ⟨by simp, tip, by simpa using hus⟩
  · obtain rfl := Option.some.inj (ht.symm.trans hts)
    simp [hk] at hlast

/-- **A statement ends with its semicolon or with a parenthesis.** Where another statement ends it,
that one's last token decides. -/
theorem Statement.ending {open? : Bool} {ts : List Token} {s : Stmt} :
    Statement true open? ts s → Ending Shortened ts
  | .tell hword h hend => .semicolon (Shortened.tell hword h) hend rfl
  | .give hword h hend => by
      cases h with
      | none => exact .semicolon (Shortened.giveNothing hword) hend rfl
      | some h => exact .semicolon (Shortened.give hword h) hend rfl
  | .block _ _ hright => .inr (by simp [List.getLast?_cons, hright])
  | .expression hfirst h hend => .semicolon (Shortened.expression hfirst h) hend rfl
  | @Statement.counting _ word left is _ cs _ semicolon ns _ right _ ts _ hword hleft hi hc hend hn
      hright h => by
      have := h.ending.behind (word :: left :: (is ++ (cs ++ semicolon :: (ns ++ [right]))))
        fun tip us hus => by simpa using Shortened.counting hword hleft hi hc hend hn hright hus
      simpa using this
  | @Statement.branch _ word left cs _ right _ ts _ hword hleft hc hright h => by
      have := h.ending.behind (word :: left :: (cs ++ [right]))
        fun tip us hus => by simpa using Shortened.branch hword hleft hc hright hus
      simpa using this
  | @Statement.branches _ word left cs _ right _ ts _ word' _ us _ hword hleft hc hright hyes
      hnearest hword' hno => by
      obtain rfl := hnearest rfl
      have := hno.ending.behind (word :: left :: (cs ++ right :: (ts ++ [word'])))
        fun tip us hus => by simpa using Shortened.branches hword hleft hc hright hyes hword' hus
      simpa using this
  | @Statement.loop _ word left cs _ right _ ts _ hword hleft hc hright h => by
      have := h.ending.behind (word :: left :: (cs ++ [right]))
        fun tip us hus => by simpa using Shortened.loop hword hleft hc hright hus
      simpa using this

/-- A declaration ends in a parenthesis, or it is a shortened one and a semicolon. -/
theorem Declaration.ending {s : Stmt} (h : Declaration true ts s) :
    Ending ShortenedDeclaration ts := by
  cases h with
  | youth _ _ _ _ hright => exact .inr (by simp [List.getLast?_cons, hright])
  | function _ h =>
    obtain ⟨_, _, _, _, _, _, hright⟩ := h
    exact .inr (by simp [List.getLast?_cons, hright])
  | «variable» hword h =>
    cases h with
    | bare hname hend => exact .semicolon (ShortenedDeclaration.bare hword hname) hend rfl
    | initialized hname hequals h hend =>
      exact .semicolon (ShortenedDeclaration.initialized hword hname hequals h) hend rfl
  | statement h => simpa using h.ending.behind [] fun tip us hus => .statement hus

end Ending

/-- A shortened statement has a first token, as a statement has. -/
theorem Shortened.first {tip : Tip} (h : Shortened tip ts) : ∃ t us, ts = t :: us
    ∧ startsNothing t.kind = false ∧ startsDeclaration t.kind = false := by
  cases h with
  | counting h _ _ _ _ _ _ _ | branch h _ _ _ _ | branches h _ _ _ _ _ _ | loop h _ _ _ _
  | tell h _ | give h _ | giveNothing h => exact ⟨_, _, rfl, by rw [h]; exact ⟨rfl, rfl⟩⟩
  | expression hfirst h =>
    obtain ⟨t, us, heq, hstarts⟩ := h.starts
    refine ⟨t, us, heq, ?_⟩
    revert hstarts
    cases t.kind <;> simp [startsExpression, startsNothing, startsDeclaration]

/-- Without its semicolon a declaration still begins as one does. -/
theorem ShortenedDeclaration.first {tip : Tip} (h : ShortenedDeclaration tip ts) :
    ∃ t us, ts = t :: us ∧ startsNothing t.kind = false := by
  cases h with
  | bare h _ | initialized h _ _ _ => exact ⟨_, _, rfl, by rw [h]; rfl⟩
  | statement h =>
    obtain ⟨t, us, hts, ht, -⟩ := h.first
    exact ⟨t, us, hts, ht⟩

/-! ## Up to an inner statement

Where a statement ends with another one, the parser reaches the inner one and misses the semicolon
there. -/

section Front

variable {post : List Diagnostic → Parsing Stmt → Prop} {word left right semicolon : Token}
  {is cs ns : List Token} {s? : Option Stmt} {condition? increment : Option Expr}
  {condition : Expr}

/-- A counting loop is read up to its body. -/
theorem from_counting (hword : word.kind = .forKey) (hleft : left.kind = .leftParen)
    (hinitializer : Initializer is s?) (hcondition : Optional Expression cs condition?)
    (hend : semicolon.kind = .semicolon) (hincrement : Optional Expression ns increment)
    (hright : right.kind = .rightParen) (hus : Ended us)
    (h : ∀ s? condition increment, Parser.From
      (do return countingLoop s? condition increment (← nested .statement)) us post) :
    (nested .statement).From (word :: left :: (is ++ (cs ++ semicolon :: (ns ++ right :: us))))
      post := by
  have hne := hus.ne_nil
  refine .step (.nested_statement (by exact .cons (.cons (.append (.append (.cons (.append
    (.cons hus)))))))) ?_
  unfold YouthLang.statement
  refine .step .peek ?_
  simp only [hword]
  refine .step (.next (by simp [hword]) (by simp)) ?_
  unfold forStatement
  refine .step (.expect hleft (by decide) (by simp)) ?_
  refine .after (hinitializer.accepted (by simp)) fun s? _ => ?_
  refine .after (hcondition.accepted hend (.inr (.inr hend)) _) fun condition? _ => ?_
  refine .step (.expect hend (by decide) (by simp)) ?_
  refine .after (hincrement.accepted hright (.inl hright) _) fun increment _ => ?_
  exact .step (.expect hright (by decide) hne) (h s? condition? increment)

/-- What a branch goes on with behind its condition. -/
def branchParts (statement : Parser Stmt) (condition : Expr) : Parser Stmt := do
  let yes ← statement
  if ← accept .elseKey then return .branch condition yes (some (← statement))
  else return .branch condition yes none

/-- A branch is read up to its first part. -/
theorem from_branch (hword : word.kind = .ifKey) (hleft : left.kind = .leftParen)
    (hcondition : Expression cs condition) (hright : right.kind = .rightParen) (hus : Ended us)
    (h : ∀ condition, (branchParts (nested .statement) condition).From us post) :
    (nested .statement).From (word :: left :: (cs ++ right :: us)) post := by
  have hne := hus.ne_nil
  refine .step (.nested_statement (.cons (.cons (.append (.cons hus))))) ?_
  unfold YouthLang.statement
  refine .step .peek ?_
  simp only [hword]
  refine .step (.next (by simp [hword]) (by simp)) ?_
  unfold ifStatement
  refine .step (.expect hleft (by decide) (by simp)) ?_
  refine .after (hcondition.accepted (Closes.bounds (.inl hright)) _) fun condition _ => ?_
  exact .step (.expect hright (by decide) hne) (h condition)

/-- A loop is read up to its body. -/
theorem from_loop (hword : word.kind = .whileKey) (hleft : left.kind = .leftParen)
    (hcondition : Expression cs condition) (hright : right.kind = .rightParen) (hus : Ended us)
    (h : ∀ condition, Parser.From (do return .loop condition (← nested .statement)) us post) :
    (nested .statement).From (word :: left :: (cs ++ right :: us)) post := by
  have hne := hus.ne_nil
  refine .step (.nested_statement (.cons (.cons (.append (.cons hus))))) ?_
  unfold YouthLang.statement
  refine .step .peek ?_
  simp only [hword]
  refine .step (.next (by simp [hword]) (by simp)) ?_
  unfold whileStatement
  refine .step (.expect hleft (by decide) (by simp)) ?_
  refine .after (hcondition.accepted (Closes.bounds (.inl hright)) _) fun condition _ => ?_
  exact .step (.expect hright (by decide) hne) (h condition)

end Front

/-! ## The mistake -/

section Misses

/-- An operand is missed at a token that begins none. -/
theorem misses_primary {inner : Parser Expr} (ht : startsExpression t.kind = false)
    (us : List Token) : (primary inner).Misses (t :: us) t us := by
  unfold primary
  refine .step .peek ?_
  split
  all_goals first
    | next hk => simp [hk, startsExpression] at ht
    | exact .missing

/-- An expression is missing where a token stands that none starts with. -/
theorem misses_expression (ht : startsExpression t.kind = false) (us : List Token) :
    expression.Misses (t :: us) t us := by
  have hsigned : ∀ inner : Parser Expr, (signed inner).Misses (t :: us) t us := by
    intro inner
    refine .step .remaining ?_
    rw [List.length_cons, signedFrom]
    refine .step .peek ?_
    split
    · next hk => simp [hk, startsExpression] at ht
    · next hk => simp [hk, startsExpression] at ht
    · exact .bind (misses_primary ht us)
  refine .step .remaining ?_
  rw [List.length_cons, expressionAt]
  have hoperation : (operation (expressionAt us.length)).Misses (t :: us) t us :=
    .bind (.bind (.bind (.bind (.bind (.bind (hsigned _))))))
  exact .bind hoperation

variable {tip : Tip}

/-- The semicolon is missing behind what should end with it. -/
theorem misses_semicolon {what : Wanted} {f : Token → Parser β} (ht : t.kind ≠ .semicolon)
    (us : List Token) : (expect .semicolon what >>= f).Misses (t :: us) t us :=
  .step (.expect_missing ht) .missing

/-- **A shortened statement misses its semicolon where it ends**, in front of a token that what stands
last does not go on with. -/
theorem Shortened.misses (h : Shortened tip ts) (ht : tip.Stops t) (hus : Ended (t :: us)) :
    (nested .statement).Misses (ts ++ t :: us) t us := by
  have hended : ∀ ts, Ended (ts ++ t :: us) := fun ts => hus.append
  -- By induction on how deep the last statement stands; its miss unwinds through those around it.
  induction h with
  | counting hword hleft hi hc hend hn hright _ ih =>
    simp only [List.cons_append, List.append_assoc]
    exact from_counting hword hleft hi hc hend hn hright (hended _) fun _ _ _ => (ih ht).bind
  | branch hword hleft hc hright _ ih =>
    simp only [List.cons_append, List.append_assoc]
    exact from_branch hword hleft hc hright (hended _) fun _ => (ih ht).bind
  | branches hword hleft hc hright hyes hword' _ ih =>
    simp only [List.cons_append, List.append_assoc]
    refine from_branch hword hleft hc hright (.append (.cons (hended _))) fun _ => ?_
    refine .after (hyes.accepted (by simp) _) fun _ _ => ?_
    exact .step (.accept_yes hword' (by decide) (by simp)) (ih ht).bind
  | loop hword hleft hc hright _ ih =>
    simp only [List.cons_append, List.append_assoc]
    exact from_loop hword hleft hc hright (hended _) fun _ => (ih ht).bind
  -- The expression is accepted in front of what cannot go on with it, and then the semicolon is
  -- missed.
  | tell hword h =>
    refine .step (.nested_statement (hended _)) (.step .peek ?_)
    simp only [hword]
    refine .step (.next (by simp [hword]) (by simp)) ?_
    exact .after (h.accepted ht.2 _) fun _ _ => misses_semicolon ht.1 _
  | give hword h =>
    refine .step (.nested_statement (hended _)) (.step .peek ?_)
    simp only [hword]
    refine .step (.next (by simp [hword]) (by simp)) ?_
    exact .after (h.acceptedUnless rfl ht.2 _) fun _ _ => misses_semicolon ht.1 _
  -- Here no semicolon follows and no expression begins, so the expression is missed.
  | giveNothing hword =>
    refine .step (.nested_statement (hended _)) (.step .peek ?_)
    simp only [hword]
    refine .step (.next (by simp [hword]) (by simp)) ?_
    exact .bind (.step (.sees_no ht.1) (.map (misses_expression ht.2 us)))
  | expression hfirst h =>
    obtain ⟨_, _, heq, hstarts⟩ := h.starts
    obtain ⟨rfl, rfl⟩ := List.cons.inj heq
    refine .step (.nested_statement (hended _)) (.step .peek ?_)
    split
    case h_6 hk => exact absurd hk hfirst
    case h_7 => exact .after (h.accepted ht.2 _) fun _ _ => misses_semicolon ht.1 _
    all_goals
      next hk => simp [hk, startsExpression] at hstarts

/-- The same for declarations. -/
theorem ShortenedDeclaration.misses (h : ShortenedDeclaration tip ts) (ht : tip.Stops t)
    (hus : Ended (t :: us)) : (declarationBody nested).Misses (ts ++ t :: us) t us := by
  cases h with
  | bare hword hname =>
    refine .step .peek ?_
    simp only [hword]
    refine .step (.next (by simp [hword]) (by simp)) ?_
    refine .step (.expect hname (by decide) (by simp)) (.step (.accept_no ht.2) ?_)
    exact misses_semicolon ht.1 us
  | @initialized _ _ _ ts _ hword hname hequals h =>
    have hsome : Parser.Accepts (some <$> expression) (ts ++ t :: us) (t :: us) fun _ => True :=
      .map (h.accepted ht.2 us) fun _ _ => trivial
    refine .step .peek ?_
    simp only [hword]
    refine .step (.next (by simp [hword]) (by simp)) ?_
    refine .step (.expect hname (by decide) (by simp)) ?_
    refine .step (.accept_yes hequals (by decide) (by simp)) ?_
    exact .after hsome fun _ _ => misses_semicolon ht.1 us
  | statement h =>
    obtain ⟨t', ts', rfl, -, hstarts⟩ := h.first
    refine .step .peek ?_
    split
    case h_4 => exact h.misses ht hus
    all_goals
      next hk => simp [hk, startsDeclaration] at hstarts

end Misses

end Grammar

/-! ## Recovery -/

/-- A token that recovery stops in front of. -/
def Holds (t : Token) : Prop := t.kind.startsStatement = true ∨ t.kind = .endOfSource

/-- Nothing goes on with such a token. -/
theorem Holds.stops (ht : Holds t) (tip : Grammar.Tip) : tip.Stops t := by
  have hnode : ∀ level : Level, level.node? t = none := by
    intro level
    unfold Level.node?
    rcases ht with ht | ht
    · revert ht
      cases t.kind <;> cases level <;> simp [TokenKind.startsStatement]
    · cases level <;> simp [ht]
  have hkind : t.kind ≠ .semicolon ∧ t.kind ≠ .leftParen ∧ t.kind ≠ .dot ∧ t.kind ≠ .equal
      ∧ Grammar.startsExpression t.kind = false := by
    rcases ht with ht | ht
    · revert ht
      cases t.kind <;> simp [TokenKind.startsStatement, Grammar.startsExpression]
    · simp [ht, Grammar.startsExpression]
  obtain ⟨hsemicolon, hparen, hdot, hequal, hstarts⟩ := hkind
  refine ⟨hsemicolon, ?_⟩
  cases tip with
  | expression => exact ⟨⟨hparen, hdot, fun level _ => hnode level⟩, hequal⟩
  | give => exact hstarts
  | name => exact hequal

/-- Nothing is skipped in front of a word that starts a statement, or of the end. -/
theorem Cursor.tokens_recover_here (hc : c.tokens = t :: us) (ht : Holds t) :
    c.recover.tokens = t :: us := by
  obtain ⟨rfl, -⟩ := List.cons.inj hc
  unfold Cursor.recover
  split
  · exact hc
  · next hstarts =>
    have hend : c.atEnd = true := by simpa [Holds, Cursor.atEnd, hstarts] using ht
    have hstay : c.advance = c := by simp [Cursor.advance, hend]
    have hsettle : ∀ n, Cursor.settle n c = c := by
      intro n
      cases n with
      | zero => rfl
      | succ n => simp [Cursor.settle, hend]
    rw [hstay, hsettle, hc]

/-- A declaration that fails, with the one mistake that something is missing at a token, and recovers in
front of a rest. -/
def Parser.Skips (p : Parser Stmt) (tokens : List Token) (t : Token) (rest : List Token) : Prop :=
  p.From tokens fun before r => ∃ c what, r = .done .failed c ∧ c.tokens = rest
    ∧ c.mistakes = missingAt t what :: before

/-- After a miss recovery skips to where the next declaration may begin. -/
theorem Parser.Misses.recovering {p : Parser Stmt} (hp : p.Misses ts t us)
    (hrest : ∀ c : Cursor, c.tokens = t :: us → c.recover.tokens = rest) :
    (recovering p).Skips ts t rest := by
  intro c hc
  obtain ⟨c', what, heq, htokens, hmistake⟩ := hp c hc
  refine ⟨c'.recover, what, ?_, hrest c' htokens, by rw [Cursor.mistakes_recover, hmistake]⟩
  simp only [YouthLang.recovering, heq]

namespace Grammar

/-- **A shortened declaration costs one mistake and nothing else**, in front of a token that recovery
stops at. -/
theorem ShortenedDeclaration.skips {tip : Tip} (h : ShortenedDeclaration tip ts) (ht : Holds t)
    (hus : Ended (t :: us)) : declaration.Skips (ts ++ t :: us) t (t :: us) := by
  have hmisses := h.misses (ht.stops tip) hus
  exact .step (.nested_declaration hus.append)
    (hmisses.recovering fun c hc => c.tokens_recover_here hc ht)

end Grammar

end YouthLang

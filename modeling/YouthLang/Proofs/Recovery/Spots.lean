import YouthLang.Proofs.Recovery.Merged

/-!
# Proofs/Recovery/Spots — a semicolon left out at any depth

The declarations of a program stand in a row, and so do those of a block and of a body.  A *spot* is the
place of the semicolon at the end of one of them, at any depth, where the row goes on with a declaration
that is no block, or is that of the program and ends; or of the semicolon in front of a second part that
is no block (`BodySpot`).  Without this semicolon the parser reports one mistake at most
(`parse_spot`).

The parentheses have to be kept out: where one is next, recovery throws it away, and what it opens or
closes is a second mistake.
-/

namespace YouthLang

open YouthLang.Parser YouthLang.Grammar

variable {α β : Type} {t : Token} {ts us rest : List Token}

/-! ## At most one mistake

A parser passes some tokens when it comes to given ones with one mistake more at most.  Two of them
in a row would make two, so in a sequence all but one have to accept. -/

/-- From some tokens on the parser ends in front of a rest of them, with at most one mistake. -/
def Parser.Passes (p : Parser α) (tokens rest : List Token) : Prop :=
  p.From tokens fun before r => ∃ a c, r = .done a c ∧ c.tokens = rest
    ∧ c.mistakes.length ≤ before.length + 1

namespace Parser.Passes

variable {p q : Parser α} {f : α → Parser β}

/-- What a rule becomes decides what it passes. -/
theorem step (h : p.Becomes ts q us) (hq : q.Passes us rest) : p.Passes ts rest := From.step h hq

/-- Behind a part that is accepted the rest may pass. -/
theorem after {pre : α → Prop} (hp : p.Accepts ts us pre)
    (hf : ∀ a, pre a → (f a).Passes us rest) : (p >>= f).Passes ts rest := From.after hp hf

/-- Behind a part that passes the rest has to be accepted, or a second mistake might be made. -/
theorem bind (hp : p.Passes ts us) (hf : ∀ a, (f a).Accepts us rest fun _ => True) :
    (p >>= f).Passes ts rest := by
  intro c hc
  obtain ⟨a, c', heq, htokens, hle⟩ := hp c hc
  obtain ⟨b, c'', heq', htokens', hclean, -⟩ := hf a c' htokens
  exact ⟨b, c'', (Parser.bind_of_done heq).trans heq', htokens', hclean ▸ hle⟩

/-- Results may be changed on the way. -/
theorem returns {g : α → β} (hp : p.Passes ts rest) :
    Parser.Passes (do return g (← p)) ts rest :=
  bind hp fun _ => .pure trivial

/-- What is accepted passes, with no mistake. -/
theorem of_accepts {post : α → Prop} (hp : p.Accepts ts rest post) : p.Passes ts rest := by
  intro c hc
  obtain ⟨a, c', heq, htokens, hclean, -⟩ := hp c hc
  exact ⟨a, c', heq, htokens, by rw [hclean]; exact Nat.le_succ _⟩

/-- What is skipped passes, with one. -/
theorem of_skips {p : Parser Stmt} (hp : p.Skips ts t rest) : p.Passes ts rest := by
  intro c hc
  obtain ⟨c', what, heq, htokens, hmistake⟩ := hp c hc
  exact ⟨_, c', heq, htokens, by simp [hmistake]⟩

/-- Recovery has nothing to do where a rule passes. -/
theorem recovering {p : Parser Stmt} (hp : p.Passes ts rest) : (recovering p).Passes ts rest := by
  intro c hc
  obtain ⟨s, c', heq, hrest⟩ := hp c hc
  exact ⟨s, c', by simp only [YouthLang.recovering, heq], hrest⟩

end Parser.Passes

/-! ## Rows

The loops for declarations, methods and programs read rows of items.  A row with a spot is a row up
to an item, the item with the spot in it, and the rest of the row. -/

/-- A first token that an item of a row may have. -/
def Opens (ts : List Token) : Prop := ∃ t us, ts = t :: us ∧ startsNothing t.kind = false

/-- Only the first token tells how a row begins. -/
theorem Opens.append (h : Opens ts) : Opens (ts ++ us) := by
  obtain ⟨t, ts, rfl, ht⟩ := h
  exact ⟨t, ts ++ us, rfl, ht⟩

/-- A loop that reads the items of a row, up to a token of some kinds. -/
structure ItemLoop (phrase : Phrase α) (item : Parser α) (stop : TokenKind → Prop)
    (loop : List α → Parser (List α)) : Prop where
  opens : ∀ {ts a}, phrase ts a → Opens ts
  accepts : ∀ {ts a t us}, phrase ts a → Parts t → Ended (t :: us) →
    item.Accepts (ts ++ t :: us) (t :: us) fun _ => True
  goesOn : ∀ {t us} (read : List α), startsNothing t.kind = false → Ended (t :: us) →
    (loop read).Becomes (t :: us) (item >>= fun a => loop (a :: read)) (t :: us)
  stops : ∀ {t us} (read : List α), stop t.kind → Ended (t :: us) →
    (loop read).Becomes (t :: us) (pure read.reverse) (t :: us)

/-- Items of a row, then tokens that an item is parsed from with at most one mistake, then items, in
front of other tokens. -/
def Crossed (phrase : Phrase α) (item : Parser β) (ts rest : List Token) : Prop :=
  ∃ before as middle after bs, ts = before ++ (middle ++ after) ∧ Repeated phrase before as
    ∧ Repeated phrase after bs ∧ Opens middle
    ∧ item.Passes (middle ++ (after ++ rest)) (after ++ rest)

section Rows

variable {phrase : Phrase α} {item : Parser α} {stop : TokenKind → Prop}
  {loop : List α → Parser (List α)} {as : List α}

/-- Behind an item stands another one, or what stands behind them all. -/
theorem ItemLoop.follow (hrow : ItemLoop phrase item stop loop) (h : Repeated phrase ts as) (ht : Parts t)
    (us : List Token) : ∃ t' us', ts ++ t :: us = t' :: us' ∧ Parts t' := by
  cases h with
  | nil => exact ⟨t, us, rfl, ht⟩
  | cons h _ =>
    obtain ⟨t', ts', rfl, ht'⟩ := hrow.opens h
    exact ⟨t', _, rfl, fun hk => by simp [hk, startsNothing] at ht'⟩

/-- The items of a row are read, up to a token that may follow them. -/
theorem ItemLoop.after (hrow : ItemLoop phrase item stop loop) (h : Repeated phrase ts as) (ht : Parts t)
    (hus : Ended (t :: us)) {post : List Diagnostic → Parsing (List α) → Prop}
    (hpost : ∀ read, (loop read).From (t :: us) post) :
    ∀ read, (loop read).From (ts ++ t :: us) post := by
  induction h with
  | nil => exact hpost
  | @cons ts a vs as hfirst hrest ih =>
    intro read
    obtain ⟨u, rest, heq, hu⟩ := hrow.follow hrest ht us
    have hended : Ended (vs ++ t :: us) := .append hus
    have haccepts := hrow.accepts hfirst hu (heq ▸ hended)
    obtain ⟨v, ts', rfl, hv⟩ := hrow.opens hfirst
    rw [List.append_assoc, heq]
    refine .step (hrow.goesOn read hv (.cons (.append (heq ▸ hended)))) (.after haccepts ?_)
    intro a _
    rw [← heq]
    exact ih (a :: read)

/-- A row is read up to its end. -/
theorem ItemLoop.acceptsAll (hrow : ItemLoop phrase item stop loop) (h : Repeated phrase ts as)
    (ht : Parts t) (hstop : stop t.kind) (hus : Ended (t :: us)) (read : List α) :
    (loop read).Accepts (ts ++ t :: us) (t :: us) fun _ => True := by
  have hlast : ∀ read, (loop read).Accepts (t :: us) (t :: us) fun _ => True := fun read =>
    .step (.pure trivial) (hrow.stops read hstop hus)
  exact hrow.after h ht hus (fun read => (hlast read).from) read

/-- **A row with one mistake in it is read up to its end.** -/
theorem ItemLoop.passes (hrow : ItemLoop phrase item stop loop) (ht : Parts t) (hstop : stop t.kind)
    (hus : Ended (t :: us)) (h : Crossed phrase item ts (t :: us)) (read : List α) :
    (loop read).Passes (ts ++ t :: us) (t :: us) := by
  obtain ⟨before, as, middle, after, bs, rfl, hbefore, hafter, ⟨u, vs, rfl, hu⟩, hmiddle⟩ := h
  have hended : Ended (u :: (vs ++ (after ++ t :: us))) := .cons (.append (.append hus))
  have hparts : Parts u := fun hk => by simp [hk, startsNothing] at hu
  rw [List.append_assoc, List.append_assoc]
  refine hrow.after hbefore hparts hended (fun read => .step (hrow.goesOn read hu hended) ?_) read
  exact Passes.bind hmiddle fun a => hrow.acceptsAll hafter ht hstop hus (a :: read)

end Rows

/-! ## The rows of the grammar -/

section Loops

/-- A loop in front of an end is its first round with itself behind it. -/
theorem Parser.Becomes.looped {σ : Type} {L : Nat → σ → Parser α} {body : (σ → Parser α) → σ → Parser α}
    (hbody : Guarded body) (hL : ∀ n s, L (n + 1) s = body (L n) s) (s : σ) (hus : Ended us) :
    (looped L s).Becomes us (body (looped L) s) us := fun c hc =>
  ⟨c, hbody.looped_eq hL s (hus.sealed hc), hc, rfl⟩

/-- A rule is what it becomes before it reads. -/
theorem Parser.Becomes.refl {p : Parser α} : p.Becomes ts p ts := fun c hc => ⟨c, rfl, hc, rfl⟩

/-- What it becomes may become more. -/
theorem Parser.Becomes.trans {p q r : Parser α} (h : p.Becomes ts q us) (h' : q.Becomes us r rest) :
    p.Becomes ts r rest := by
  intro c hc
  obtain ⟨c', heq, htokens, hclean⟩ := h c hc
  obtain ⟨c'', heq', htokens', hclean'⟩ := h' c' htokens
  exact ⟨c'', heq.trans heq', htokens', hclean'.trans hclean⟩

/-- What can begin something neither closes a row nor ends the source. -/
theorem ne_of_startsNothing {kind : TokenKind} (h : startsNothing kind = false) :
    kind ≠ .rightParen ∧ kind ≠ .endOfSource := by
  constructor <;> rintro rfl <;> simp [startsNothing] at h

/-- The first round of a loop on a known token. -/
theorem becomes_round {σ : Type} {L : Nat → σ → Parser α} {f : (σ → Parser α) → σ → Token → Parser α}
    {s : σ} {q : Parser α}
    (hbody : Guarded fun rest s => do f rest s (← peek))
    (hL : ∀ n s, L (n + 1) s = (do f (L n) s (← peek) : Parser α)) (hus : Ended (t :: us))
    (hq : f (looped L) s t = q) : (looped L s).Becomes (t :: us) q (t :: us) :=
  (Becomes.looped hbody hL s hus).trans (hq ▸ .peek)

/-- The declarations of a block. -/
theorem row_declarations : ItemLoop (Declaration true) (nested .declaration) (· = .rightParen)
    (looped (declarationsFrom (nested .declaration))) where
  opens h := h.first
  accepts h ht _ := (h.accepted ht _).mono fun _ _ => trivial
  goesOn _ ht hus :=
    becomes_round guarded_declarationsStep (fun _ _ => rfl) hus
      (if_neg (by simpa using ne_of_startsNothing ht))
  stops _ ht hus :=
    becomes_round guarded_declarationsStep (fun _ _ => rfl) hus (if_pos (by simp [ht]))

/-- The declarations of a program. -/
theorem row_program : ItemLoop (Declaration true) (nested .declaration) (· = .endOfSource)
    (looped programAt) where
  opens h := h.first
  accepts h ht _ := (h.accepted ht _).mono fun _ _ => trivial
  goesOn _ ht hus :=
    becomes_round guarded_programStep programAt_succ hus (if_neg (ne_of_startsNothing ht).2)
  stops _ ht hus := becomes_round guarded_programStep programAt_succ hus (if_pos ht)

/-- Three parsers in a row may be grouped either way. -/
theorem Parser.bind_assoc {γ : Type} (p : Parser α) (f : α → Parser β) (g : β → Parser γ) :
    (p >>= f) >>= g = p >>= fun a => f a >>= g := by
  funext c
  simp only [Bind.bind]
  cases p c <;> rfl

/-- A method with its first word. -/
def method : Parser Function := do
  let _ ← expect .listenKey .listen
  routine .method (nested .declaration)

/-- A function of the grammar is accepted in front of any token. -/
theorem Grammar.Callable.accepted {kind : Routine} {f : Function} (h : Callable true ts f)
    (us : List Token) :
    (routine kind (nested .declaration)).Accepts (ts ++ t :: us) (t :: us) fun _ => True := by
  have hd : Complete id (ts.length + us.length + 1) YouthLang.declaration (Declaration true) Parts
      (Stmt.Alike (Moved id) AnyNode) := fun _ _ _ us h ht _ =>
    complete_declaration (fun _ => rfl) h ht us
  have hcomplete := @complete_routine id _ _ kind (fun _ => rfl) hd ts f t us h trivial
    (Nat.lt_succ_self _)
  rw [List.map_id] at hcomplete
  exact hcomplete.mono fun _ _ => trivial

/-- The methods of a youth. -/
theorem row_methods : ItemLoop (Method true) method (· = .rightParen)
    (looped (methodsFrom (nested .declaration))) where
  opens h := by
    obtain ⟨hword, -⟩ := h
    exact ⟨_, _, rfl, by rw [hword]; rfl⟩
  accepts h _ _ := by
    obtain ⟨hword, h⟩ := h
    exact .expect hword (by decide) (by simp) (h.accepted _)
  goesOn read ht hus := by
    have hassoc : (method >>= fun m => looped (methodsFrom (nested .declaration)) (m :: read))
        = (do
          let _ ← expect .listenKey .listen
          let m ← routine .method (nested .declaration)
          looped (methodsFrom (nested .declaration)) (m :: read)) := Parser.bind_assoc _ _ _
    rw [hassoc]
    exact becomes_round guarded_methodsStep (fun _ _ => rfl) hus
      (if_neg (by simpa using ne_of_startsNothing ht))
  stops _ ht hus :=
    becomes_round guarded_methodsStep (fun _ _ => rfl) hus (if_pos (by simp [ht]))

/-- A block with one mistake in its row. -/
theorem passes_block {right : Token} (hright : right.kind = .rightParen) (hus : Ended us)
    (h : Crossed (Declaration true) (nested .declaration) ts (right :: us)) :
    (block (nested .declaration)).Passes (ts ++ right :: us) us := by
  have hloop : block (nested .declaration) = (do
      let body ← looped (declarationsFrom (nested .declaration)) []
      let _ ← expect .rightParen (.closing .block)
      return body) := (Parser.bind_assoc _ _ _).symm
  rw [hloop]
  refine .bind (row_declarations.passes (by simp [Parts, hright]) hright (.cons hus) h []) fun _ => ?_
  exact .expect hright (by decide) hus.ne_nil (.pure trivial)

/-- A youth with one mistake in its row. -/
theorem passes_youthDeclaration {name left right : Token} (hname : name.kind = .identifier)
    (hleft : left.kind = .leftParen) (hright : right.kind = .rightParen) (hus : Ended us)
    (h : Crossed (Method true) method ts (right :: us)) :
    (youthDeclaration (nested .declaration)).Passes (name :: left :: (ts ++ right :: us)) us := by
  unfold youthDeclaration
  refine .step (.expect hname (by decide) (by simp)) (.step (.expect hleft (by decide) (by simp)) ?_)
  have hloop : (do
      let methods ← methodsFrom (nested .declaration) (← remaining) []
      let _ ← expect .rightParen (.closing .youthBody)
      return Stmt.youth name methods) = (do
      let methods ← looped (methodsFrom (nested .declaration)) []
      let _ ← expect .rightParen (.closing .youthBody)
      return Stmt.youth name methods) := (Parser.bind_assoc _ _ _).symm
  rw [hloop]
  refine .bind (row_methods.passes (by simp [Parts, hright]) hright (.cons hus) h []) fun _ => ?_
  exact .expect hright (by decide) hus.ne_nil (.pure trivial)

end Loops

/-! ## Spots

The place is told by recursion on the grammar, so a spot has a path from the program down to the
semicolon. -/

section Spots

variable (semicolon : Token)

mutual

/-- The place of a semicolon in a row of declarations, between what stands before it and behind it, and
whether the row is a whole program. -/
inductive BodySpot : Bool → List Token → List Token → Prop
  | here {pre body ts s post body' whole?} (hpre : Repeated (Declaration true) pre body)
      (h : Declaration true (ts ++ [semicolon]) s) (hpost : Repeated (Declaration true) post body')
      (hnext : ∀ t ∈ post.head?, t.kind ≠ .leftParen) (hlast : post = [] → whole? = true) :
      BodySpot whole? (pre ++ ts) post
  | otherwise {pre body ts open? yes word open?' ns no s post body' whole?}
      (hpre : Repeated (Declaration true) pre body)
      (hyes : Statement true open? (ts ++ [semicolon]) yes) (hword : word.kind = .elseKey)
      (hno : Statement true open?' ns no) (hnext : ∀ t ∈ ns.head?, t.kind ≠ .leftParen)
      (h : Declaration true (ts ++ semicolon :: word :: ns) s)
      (hpost : Repeated (Declaration true) post body') :
      BodySpot whole? (pre ++ ts) (word :: (ns ++ post))
  | inside {pre body ts us post body' whole?} (hpre : Repeated (Declaration true) pre body)
      (h : DeclarationSpot ts us) (hpost : Repeated (Declaration true) post body') :
      BodySpot whole? (pre ++ ts) (us ++ post)

/-- A place in the row of a declaration, or of a statement or a method in it. -/
inductive DeclarationSpot : List Token → List Token → Prop
  | youth {word name left pre methods ts us post methods' right} (hword : word.kind = .youthKey)
      (hname : name.kind = .identifier) (hleft : left.kind = .leftParen)
      (hpre : Repeated (Method true) pre methods) (h : MethodSpot ts us)
      (hpost : Repeated (Method true) post methods') (hright : right.kind = .rightParen) :
      DeclarationSpot (word :: name :: left :: (pre ++ ts)) (us ++ (post ++ [right]))
  | function {word ts us} (hword : word.kind = .listenKey) (h : CallableSpot ts us) :
      DeclarationSpot (word :: ts) us
  | statement {open? ts us} (h : StatementSpot open? ts us) : DeclarationSpot ts us

/-- The same for a method with its first word. -/
inductive MethodSpot : List Token → List Token → Prop
  | mk {word ts us} (hword : word.kind = .listenKey) (h : CallableSpot ts us) :
      MethodSpot (word :: ts) us

/-- The same for a function or a method behind its first word. -/
inductive CallableSpot : List Token → List Token → Prop
  | mk {name left ps parameters right left' ts us right'} (hname : name.kind = .identifier)
      (hleft : left.kind = .leftParen) (hparameters : Listed Name ps parameters)
      (hright : right.kind = .rightParen) (hleft' : left'.kind = .leftParen)
      (h : BodySpot false ts us) (hright' : right'.kind = .rightParen) :
      CallableSpot (name :: left :: (ps ++ right :: left' :: ts)) (us ++ [right'])

/-- The same for a statement, and whether it ends in a branch that could take a second part. -/
inductive StatementSpot : Bool → List Token → List Token → Prop
  | counting {word left is initializer cs condition semicolon' ns increment right open? ts us}
      (hword : word.kind = .forKey) (hleft : left.kind = .leftParen)
      (hinitializer : Initializer is initializer) (hcondition : Optional Expression cs condition)
      (hend : semicolon'.kind = .semicolon) (hincrement : Optional Expression ns increment)
      (hright : right.kind = .rightParen) (h : StatementSpot open? ts us) :
      StatementSpot open? (word :: left :: (is ++ (cs ++ semicolon' :: (ns ++ right :: ts)))) us
  | branch {word left cs condition right open? ts us} (hword : word.kind = .ifKey)
      (hleft : left.kind = .leftParen) (hcondition : Expression cs condition)
      (hright : right.kind = .rightParen) (h : StatementSpot open? ts us) :
      StatementSpot true (word :: left :: (cs ++ right :: ts)) us
  | first {word left cs condition right ts us word' open? vs no} (hword : word.kind = .ifKey)
      (hleft : left.kind = .leftParen) (hcondition : Expression cs condition)
      (hright : right.kind = .rightParen) (h : StatementSpot false ts us)
      (hword' : word'.kind = .elseKey) (hno : Statement true open? vs no) :
      StatementSpot open? (word :: left :: (cs ++ right :: ts)) (us ++ word' :: vs)
  | second {word left cs condition right ts yes word' open? us vs} (hword : word.kind = .ifKey)
      (hleft : left.kind = .leftParen) (hcondition : Expression cs condition)
      (hright : right.kind = .rightParen) (hyes : Statement true false ts yes)
      (hword' : word'.kind = .elseKey) (h : StatementSpot open? us vs) :
      StatementSpot open? (word :: left :: (cs ++ right :: (ts ++ word' :: us))) vs
  | loop {word left cs condition right open? ts us} (hword : word.kind = .whileKey)
      (hleft : left.kind = .leftParen) (hcondition : Expression cs condition)
      (hright : right.kind = .rightParen) (h : StatementSpot open? ts us) :
      StatementSpot open? (word :: left :: (cs ++ right :: ts)) us
  | block {left ts us right} (hleft : left.kind = .leftParen) (h : BodySpot false ts us)
      (hright : right.kind = .rightParen) : StatementSpot false (left :: ts) (us ++ [right])

end

end Spots

section Spots

variable {semicolon : Token}

/-! ### With the semicolon -/

/-- A row behind a row of the same kind is one. -/
theorem Grammar.Repeated.append {phrase : Phrase α} {as bs : List α} (h : Repeated phrase ts as)
    (h' : Repeated phrase us bs) : Repeated phrase (ts ++ us) (as ++ bs) := by
  induction h with
  | nil => exact h'
  | cons hfirst _ ih => simpa using Repeated.cons hfirst ih

mutual

/-- With its semicolon the row is one of declarations. -/
theorem BodySpot.body {semicolon : Token} {whole? : Bool} {before after : List Token} :
    BodySpot semicolon whole? before after →
    ∃ body, Repeated (Declaration true) (before ++ semicolon :: after) body
  | .here hpre h hpost _ _ => ⟨_, by simpa using hpre.append (.cons h hpost)⟩
  | .otherwise hpre _ _ _ _ h hpost => ⟨_, by simpa using hpre.append (.cons h hpost)⟩
  | .inside hpre h hpost => by
      obtain ⟨s, h⟩ := h.declaration
      exact ⟨_, by simpa using hpre.append (.cons h hpost)⟩

/-- With its semicolon the declaration around a spot is one of the grammar. -/
theorem DeclarationSpot.declaration {semicolon : Token} {before after : List Token} :
    DeclarationSpot semicolon before after →
    ∃ s, Declaration true (before ++ semicolon :: after) s
  | .youth hword hname hleft hpre h hpost hright => by
      obtain ⟨m, h⟩ := h.method
      exact ⟨_, by simpa using Declaration.youth hword hname hleft (hpre.append (.cons h hpost)) hright⟩
  | .function hword h => by
      obtain ⟨f, h⟩ := h.callable
      exact ⟨_, .function hword h⟩
  | .statement h => by
      obtain ⟨s, h⟩ := h.statement
      exact ⟨s, .statement h⟩

/-- So is the method. -/
theorem MethodSpot.method {semicolon : Token} {before after : List Token} :
    MethodSpot semicolon before after →
    ∃ f, Method true (before ++ semicolon :: after) f
  | .mk hword h => by
      obtain ⟨f, h⟩ := h.callable
      exact ⟨f, .mk hword h⟩

/-- So is the function. -/
theorem CallableSpot.callable {semicolon : Token} {before after : List Token} :
    CallableSpot semicolon before after →
    ∃ f, Callable true (before ++ semicolon :: after) f
  | .mk hname hleft hparameters hright hleft' h hright' => by
      obtain ⟨body, h⟩ := h.body
      exact ⟨_, by simpa using Callable.mk hname hleft hparameters hright hleft' h hright'⟩

/-- So is the statement, with its `else` as open as before. -/
theorem StatementSpot.statement {semicolon : Token} {open? : Bool} {before after : List Token} :
    StatementSpot semicolon open? before after →
    ∃ s, Statement true open? (before ++ semicolon :: after) s
  | .counting hword hleft hi hc hend hn hright h => by
      obtain ⟨s, h⟩ := h.statement
      exact ⟨_, by simpa using Statement.counting hword hleft hi hc hend hn hright h⟩
  | .branch hword hleft hc hright h => by
      obtain ⟨s, h⟩ := h.statement
      exact ⟨_, by simpa using Statement.branch hword hleft hc hright h⟩
  | .first hword hleft hc hright h hword' hno => by
      obtain ⟨s, h⟩ := h.statement
      exact ⟨_, by simpa using Statement.branches hword hleft hc hright h (fun _ => rfl) hword' hno⟩
  | .second hword hleft hc hright hyes hword' h => by
      obtain ⟨s, h⟩ := h.statement
      exact ⟨_, by simpa using Statement.branches hword hleft hc hright hyes (fun _ => rfl) hword' h⟩
  | .loop hword hleft hc hright h => by
      obtain ⟨s, h⟩ := h.statement
      exact ⟨_, by simpa using Statement.loop hword hleft hc hright h⟩
  | .block hleft h hright => by
      obtain ⟨body, h⟩ := h.body
      exact ⟨_, by simpa using Statement.block hleft h hright⟩

end

/-! ### Without it -/

/-- A row that has lost the semicolon of one of its declarations has one mistake in it. -/
theorem crossed_here {pre post x : List Token} {body body' : List Stmt} {s : Stmt}
    (hsemicolon : semicolon.kind = .semicolon) (hpre : Repeated (Declaration true) pre body)
    (h : Declaration true (x ++ [semicolon]) s) (hpost : Repeated (Declaration true) post body')
    (hnext : ∀ t ∈ post.head?, t.kind ≠ .leftParen) (hlast : post = [] → t.kind = .endOfSource)
    (ht : Parts t) (hus : Ended (t :: us)) :
    Crossed (Declaration true) (nested .declaration) (pre ++ (x ++ post)) (t :: us) := by
  obtain ⟨-, tip, hx⟩ := h.ending.dropLast (by simp) hsemicolon
  rw [List.dropLast_concat] at hx
  cases hpost with
  | nil =>
    exact ⟨pre, body, x, [], [], rfl, hpre, .nil, hx.first,
      .of_skips (hx.skips (.inr (hlast rfl)) hus)⟩
  | @cons ts s' rest _ hfirst hrest =>
    have hrow : Ended (rest ++ t :: us) := .append hus
    obtain ⟨u, vs, rfl, hstart⟩ := hfirst.start
    rcases hstart with hstart | hparen | ⟨vs, e, semicolon', rfl, hend, he⟩
    · refine ⟨pre, body, x, _, _, rfl, hpre, .cons hfirst hrest, hx.first,
        .of_skips (t := u) ?_⟩
      simp only [List.cons_append, List.append_assoc]
      exact hx.skips (.inl hstart) (.cons (.append hrow))
    · exact absurd hparen (hnext u rfl)
    -- An expression statement goes with the declaration, as a part of it or as what recovery skips.
    · refine ⟨pre, body, x ++ u :: (vs ++ [semicolon']), rest, _, by simp, hpre, hrest,
        Opens.append hx.first, ?_⟩
      obtain hstops | hgoesOn := tip.stops_or_goesOn he.first (hnext u rfl)
      · refine .of_skips (t := u) ?_
        simp only [List.cons_append, List.append_assoc, List.nil_append]
        exact hx.skipsBehind hstops he hend hrow
      · obtain ⟨g, hg⟩ := hx.merge hgoesOn he hend
        obtain ⟨v, more, heq, hv⟩ := row_declarations.follow hrest ht us
        rw [heq]
        exact .of_accepts (hg.accepted hv more)

/-- A row has one mistake in it that has lost the semicolon in front of a second part. -/
theorem crossed_otherwise {pre post x ns : List Token} {body body' : List Stmt}
    {open? open?' : Bool} {yes no : Stmt} {word : Token} (hsemicolon : semicolon.kind = .semicolon)
    (hpre : Repeated (Declaration true) pre body)
    (hyes : Statement true open? (x ++ [semicolon]) yes) (hword : word.kind = .elseKey)
    (hno : Statement true open?' ns no) (hnext : ∀ t ∈ ns.head?, t.kind ≠ .leftParen)
    (hpost : Repeated (Declaration true) post body') (hus : Ended us) :
    Crossed (Declaration true) (nested .declaration) (pre ++ (x ++ word :: (ns ++ post))) us := by
  obtain ⟨-, tip, hx⟩ := (Declaration.statement hyes).ending.dropLast (by simp) hsemicolon
  rw [List.dropLast_concat] at hx
  have hno' : Declaration true ns no := .statement hno
  obtain ⟨u, vs, rfl, hstart⟩ := hno'.start
  rcases hstart with hstart | hparen | ⟨vs, e, semicolon', rfl, hend, he⟩
  · refine ⟨pre, body, x ++ [word], _, _, by simp, hpre, .cons hno' hpost, Opens.append hx.first,
      .of_skips (t := word) ?_⟩
    simp only [List.cons_append, List.append_assoc, List.nil_append]
    exact hx.skipsWord hword hstart hus.append.append
  · exact absurd hparen (hnext u rfl)
  · refine ⟨pre, body, x ++ word :: (u :: (vs ++ [semicolon'])), post, _, by simp, hpre, hpost,
      Opens.append hx.first, .of_skips (t := word) ?_⟩
    simp only [List.cons_append, List.append_assoc, List.nil_append]
    exact hx.skipsSecond hword he hend hus.append

/-- A function is read up to its row. -/
theorem passes_routine {kind : Routine} {name left right left' right' : Token} {ps : List Token}
    {parameters : List Token} (hname : name.kind = .identifier) (hleft : left.kind = .leftParen)
    (hparameters : Listed Name ps parameters) (hright : right.kind = .rightParen)
    (hleft' : left'.kind = .leftParen) (hright' : right'.kind = .rightParen) (hus : Ended us)
    (h : Crossed (Declaration true) (nested .declaration) ts (right' :: us)) :
    (routine kind (nested .declaration)).Passes
      (name :: left :: (ps ++ right :: left' :: (ts ++ right' :: us))) us := by
  have haccepts := @complete_parameterList id (fun _ => rfl) ps parameters right hparameters hright
    (left' :: (ts ++ right' :: us))
  rw [List.map_id] at haccepts
  unfold routine
  refine .step (.expect hname (by decide) (by simp)) (.step (.expect hleft (by decide) (by simp)) ?_)
  refine .after haccepts fun _ _ => ?_
  refine .step (.expect hright (by decide) (by simp)) ?_
  refine .step (.expect hleft' (by decide) (by simp)) ?_
  exact .bind (passes_block hright' hus h) fun _ => .pure trivial

/-- A place in a statement is behind its first token, and this starts no declaration of another sort. -/
theorem StatementSpot.opens {open? : Bool} {before after : List Token}
    (h : StatementSpot semicolon open? before after) : ∃ t us, before = t :: us
      ∧ startsNothing t.kind = false ∧ startsDeclaration t.kind = false := by
  cases h with
  | counting h _ _ _ _ _ _ _ | branch h _ _ _ _ | first h _ _ _ _ _ _ | second h _ _ _ _ _ _
  | loop h _ _ _ _ | block h _ _ => exact ⟨_, _, rfl, by rw [h]; exact ⟨rfl, rfl⟩⟩

/-- What stands before a spot begins as a declaration may begin. -/
theorem DeclarationSpot.opens {before after : List Token}
    (h : DeclarationSpot semicolon before after) : Opens before := by
  cases h with
  | youth h _ _ _ _ _ _ | function h _ => exact ⟨_, _, rfl, by rw [h]; rfl⟩
  | statement h =>
    obtain ⟨t, us, hbefore, ht, -⟩ := h.opens
    exact ⟨t, us, hbefore, ht⟩

/-- In a method it begins with the method's keyword. -/
theorem MethodSpot.opens {before after : List Token} (h : MethodSpot semicolon before after) :
    Opens before := by
  obtain ⟨h, -⟩ := h
  exact ⟨_, _, rfl, by rw [h]; rfl⟩

mutual

/-- **The row around a spot is crossed with at most one mistake.** It is made where the semicolon is
missed, or further inside. -/
theorem BodySpot.crossed {semicolon t : Token} {us : List Token} {whole? : Bool}
    {before after : List Token} (hsemicolon : semicolon.kind = .semicolon)
    (ht : t.kind = if whole? then .endOfSource else .rightParen) (hus : Ended (t :: us)) :
    BodySpot semicolon whole? before after →
      Crossed (Declaration true) (nested .declaration) (before ++ after) (t :: us)
  | .here hpre h hpost hnext hlast => by
      have hparts : Parts t := by
        intro hk
        rw [ht] at hk
        cases whole? <;> simp at hk
      rw [List.append_assoc]
      exact crossed_here hsemicolon hpre h hpost hnext (fun hpost => by simp [ht, hlast hpost])
        hparts hus
  | .otherwise hpre hyes hword hno hnext _ hpost => by
      rw [List.append_assoc]
      exact crossed_otherwise hsemicolon hpre hyes hword hno hnext hpost hus
  | @BodySpot.inside _ pre _ ts vs post _ _ hpre h hpost => by
      have hparts : Parts t := by
        intro hk
        rw [ht] at hk
        cases whole? <;> simp at hk
      obtain ⟨u, more, heq, hu⟩ := row_declarations.follow hpost hparts us
      have hmore : Ended (u :: more) := heq ▸ hus.append
      refine ⟨pre, _, ts ++ vs, post, _, by simp, hpre, hpost, h.opens.append, ?_⟩
      rw [heq, List.append_assoc]
      exact h.passes hsemicolon hu hmore

/-- A declaration passes when what is inside it does. -/
theorem DeclarationSpot.passes {semicolon t : Token} {us before after : List Token}
    (hsemicolon : semicolon.kind = .semicolon) (ht : Parts t) (hus : Ended (t :: us)) :
    DeclarationSpot semicolon before after →
      (nested .declaration).Passes (before ++ (after ++ t :: us)) (t :: us)
  | @DeclarationSpot.youth _ word name left pre _ ts vs post _ right hword hname hleft hpre h hpost
      hright => by
      have hcrossed : Crossed (Method true) method (pre ++ (ts ++ vs ++ post)) (right :: t :: us) := by
        refine ⟨pre, _, ts ++ vs, post, _, rfl, hpre, hpost, h.opens.append, ?_⟩
        rw [List.append_assoc]
        exact h.passes hsemicolon (.append (.cons hus))
      refine .step (.nested_declaration hus.append.append) (.recovering (.step .peek ?_))
      simp only [hword]
      refine .step (.next (by simp [hword]) (by simp)) ?_
      simpa using passes_youthDeclaration hname hleft hright hus hcrossed
  | .function hword h => by
      refine .step (.nested_declaration hus.append.append) (.recovering (.step .peek ?_))
      simp only [hword]
      refine .step (.next (by simp [hword]) (by simp [hus.append.append.ne_nil])) ?_
      exact .returns (h.passes hsemicolon hus)
  | .statement h => by
      have hstatement := h.passes hsemicolon (fun _ => ht) hus
      obtain ⟨u, vs, rfl, -, hu⟩ := h.opens
      refine .step (.nested_declaration hus.append.append) (.recovering (.step .peek ?_))
      split
      case h_4 => exact hstatement
      all_goals
        next hk => simp [hk, startsDeclaration] at hu

/-- So does a method. -/
theorem MethodSpot.passes {semicolon : Token} {us before after : List Token}
    (hsemicolon : semicolon.kind = .semicolon) (hus : Ended us) :
    MethodSpot semicolon before after → method.Passes (before ++ (after ++ us)) us
  | .mk hword h => .step (.expect hword (by decide) (by simp [hus.append.append.ne_nil]))
      (h.passes hsemicolon hus)

/-- So does a function, whose block crosses its spot. -/
theorem CallableSpot.passes {semicolon : Token} {us before after : List Token} {kind : Routine}
    (hsemicolon : semicolon.kind = .semicolon) (hus : Ended us) :
    CallableSpot semicolon before after →
      (routine kind (nested .declaration)).Passes (before ++ (after ++ us)) us
  | .mk hname hleft hparameters hright hleft' h hright' => by
      have hcrossed := h.crossed hsemicolon hright' (.cons hus)
      simpa using passes_routine hname hleft hparameters hright hleft' hright' hus hcrossed

/-- So does a statement that has the spot inside a block of its own. -/
theorem StatementSpot.passes {semicolon t : Token} {us before after : List Token} {open? : Bool}
    (hsemicolon : semicolon.kind = .semicolon) (ht : open? = true → t.kind ≠ .elseKey)
    (hus : Ended (t :: us)) : StatementSpot semicolon open? before after →
      (nested .statement).Passes (before ++ (after ++ t :: us)) (t :: us)
  | .counting hword hleft hi hc hend hn hright h => by
      simp only [List.cons_append, List.append_assoc]
      exact from_counting hword hleft hi hc hend hn hright hus.append.append fun _ _ _ =>
        (h.passes hsemicolon ht hus).returns
  | .branch hword hleft hc hright h => by
      simp only [List.cons_append, List.append_assoc]
      refine from_branch hword hleft hc hright hus.append.append fun _ => ?_
      refine Passes.bind (h.passes hsemicolon (fun _ => ht rfl) hus) fun _ => ?_
      exact .accept_no (ht rfl) (.pure trivial)
  | .first hword hleft hc hright h hword' hno => by
      simp only [List.cons_append, List.append_assoc]
      refine from_branch hword hleft hc hright hus.append.cons.append.append fun _ => ?_
      refine Passes.bind (h.passes hsemicolon (by simp) hus.append.cons) fun _ => ?_
      refine .accept_yes hword' (by decide) (by simp) ?_
      exact .bind (hno.accepted ht us) fun _ _ => .pure trivial
  | .second hword hleft hc hright hyes hword' h => by
      simp only [List.cons_append, List.append_assoc]
      refine from_branch hword hleft hc hright (.append (.cons hus.append.append)) fun _ => ?_
      refine .after (hyes.accepted (by simp) _) fun _ _ => ?_
      exact .step (.accept_yes hword' (by decide) (by simp)) (h.passes hsemicolon ht hus).returns
  | .loop hword hleft hc hright h => by
      simp only [List.cons_append, List.append_assoc]
      exact from_loop hword hleft hc hright hus.append.append fun _ =>
        (h.passes hsemicolon ht hus).returns
  | .block hleft h hright => by
      have hcrossed := h.crossed hsemicolon hright (.cons hus)
      refine .step (.nested_statement hus.append.append) (.step .peek ?_)
      simp only [hleft]
      refine .step (.next (by simp [hleft]) (by simp)) (.returns ?_)
      simpa using passes_block hright hus hcrossed

end

end Spots

/-- **A semicolon left out is one mistake at most**, at any depth.  A program has no mistakes, and a
semicolon of it ends a declaration of a row: of the program, of a block, or of the body of a function or
a method.  What comes next in the row is a declaration that is no block, or the row is that of the
program and comes to its end; or what comes next is a second part that is no block, and the declaration
ends with it.  Without this semicolon the parser reports at most one mistake. -/
theorem parse_spot (node : Nat) {semicolon last : Token} {before after : List Token}
    (hsemicolon : semicolon.kind = .semicolon) (hlast : last.kind = .endOfSource)
    (h : BodySpot semicolon true before after) :
    (parse node (before ++ semicolon :: after ++ [last])).diagnostics = []
      ∧ (parse node (before ++ after ++ [last])).diagnostics.length ≤ 1 := by
  obtain ⟨body, hbody⟩ := h.body
  refine ⟨(parse_of_program hlast hbody).1, ?_⟩
  have hus : Ended [last] := @ended_snoc last [] hlast
  have hcrossed := h.crossed hsemicolon hlast hus
  have hparts : Parts last := by simp [Parts, hlast]
  obtain ⟨_, c, heq, -, hle⟩ := row_program.passes hparts hlast hus hcrossed []
    (start node (before ++ after) last) tokens_start
  have hrun : c = (programFrom (start node (before ++ after) last).size []
      (start node (before ++ after) last)).2 := by
    cases heq
    rfl
  rw [parse_eq_programFrom, ← hrun, List.length_reverse]
  simpa [start] using hle

/-- The tokens `( tell x`, which lack a semicolon. -/
def openTell : List Token :=
  [⟨.leftParen, "(", ⟨1, 1⟩⟩, ⟨.tellKey, "tell", ⟨1, 3⟩⟩, ⟨.identifier, "x", ⟨1, 8⟩⟩]

/-- The tokens `y; )`. -/
def closedName : List Token :=
  [⟨.identifier, "y", ⟨1, 11⟩⟩, ⟨.semicolon, ";", ⟨1, 12⟩⟩, ⟨.rightParen, ")", ⟨1, 14⟩⟩]

/-- In `( tell x; y; )` the first semicolon may be left out, with one mistake. -/
theorem parse_spot_inBlock : BodySpot ⟨.semicolon, ";", ⟨1, 9⟩⟩ true openTell closedName
    ∧ (parse 0 (openTell ++ closedName ++ [⟨.endOfSource, [], ⟨1, 15⟩⟩])).diagnostics.length ≤ 1 := by
  have hname : ∀ t : Token, t.kind = .identifier → Expression [t] (.variable 0 t) := fun t ht =>
    .assignment (.operation (.ofSuffixed (.primary (.name ht))))
  have htell : Declaration true [⟨.tellKey, "tell", ⟨1, 3⟩⟩, ⟨.identifier, "x", ⟨1, 8⟩⟩,
      ⟨.semicolon, ";", ⟨1, 9⟩⟩] _ := .statement (.tell rfl (hname _ rfl) rfl)
  have hy : Declaration true [⟨.identifier, "y", ⟨1, 11⟩⟩, ⟨.semicolon, ";", ⟨1, 12⟩⟩] _ :=
    .statement (.expression (by simp) (hname _ rfl) rfl)
  have hrow : BodySpot ⟨.semicolon, ";", ⟨1, 9⟩⟩ false
      [⟨.tellKey, "tell", ⟨1, 3⟩⟩, ⟨.identifier, "x", ⟨1, 8⟩⟩]
      [⟨.identifier, "y", ⟨1, 11⟩⟩, ⟨.semicolon, ";", ⟨1, 12⟩⟩] :=
    .here .nil htell (.cons hy .nil) (by simp) (by simp)
  have hspot : BodySpot ⟨.semicolon, ";", ⟨1, 9⟩⟩ true openTell closedName :=
    .inside .nil (.statement (.block rfl hrow rfl)) .nil
  exact ⟨hspot, (parse_spot 0 rfl rfl hspot).2⟩

/-- In front of the parenthesis that closes the block there is a second mistake: `( tell x )`. -/
example : (parse 0 (openTell ++ [⟨.rightParen, ")", ⟨1, 10⟩⟩, ⟨.endOfSource, [], ⟨1, 11⟩⟩])).diagnostics
    = [missingAt ⟨.rightParen, ")", ⟨1, 10⟩⟩ (.semicolon .told),
      missingAt ⟨.endOfSource, [], ⟨1, 11⟩⟩ (.closing .block)] := rfl

end YouthLang

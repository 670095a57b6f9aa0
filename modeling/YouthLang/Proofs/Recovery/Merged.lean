import YouthLang.Proofs.Recovery

/-!
# Proofs/Recovery/Merged — an expression statement behind a lost semicolon

What follows a declaration that has lost its semicolon may be an expression statement.

* If what stands last could go on with its first token, the two are one declaration
  (`ShortenedDeclaration.merge`).  A minus sign is the only such token behind an expression that is not
  an opening parenthesis; it was a sign and becomes an operator (`Expression.join`).
* Otherwise the semicolon is missed there.  No token of an expression stops recovery
  (`Expression.plain`), so it goes on behind the semicolon of the expression statement
  (`tokens_recover_behind`).
-/

namespace YouthLang

open YouthLang.Parser

variable {t semicolon : Token} {ts us : List Token} {c : Cursor}

/-- A token that recovery does not stop at. -/
structure Plain (t : Token) : Prop where
  starts : t.kind.startsStatement = false
  semicolon : t.kind ≠ .semicolon
  noEnd : t.kind ≠ .endOfSource

/-- Behind a token that is taken, that token is the previous one. -/
theorem Cursor.previous_advance (hc : c.tokens = t :: ts) (hk : t.kind ≠ .endOfSource)
    (hts : ts ≠ []) : c.advance.previous = t := by
  obtain ⟨rfl, hfollowing⟩ := List.cons.inj hc
  obtain ⟨u, us, rfl⟩ := List.exists_cons_of_ne_nil hts
  rw [Cursor.advance, if_neg (by simpa [Cursor.atEnd] using hk), hfollowing]

/-- Plain tokens are skipped up to the semicolon behind them. -/
theorem Cursor.tokens_settle_behind (hsemicolon : semicolon.kind = .semicolon) (hus : us ≠ [])
    (ts : List Token) : ∀ (n : Nat) (c : Cursor), c.tokens = ts ++ semicolon :: us →
      (∀ t ∈ ts, Plain t) → c.previous.kind ≠ .semicolon → ts.length < n →
      (Cursor.settle n c).tokens = us := by
  induction ts with
  | nil =>
    intro n c hc _ hprevious hn
    obtain ⟨n, rfl⟩ := Nat.exists_eq_succ_of_ne_zero (Nat.ne_of_gt hn)
    obtain ⟨hcurrent, htokens⟩ := Cursor.tokens_behind hc (by simp [hsemicolon]) hus
    have hbehind := Cursor.previous_advance hc (by simp [hsemicolon]) hus
    have hgo : Cursor.settle (n + 1) c = Cursor.settle n c.advance := by
      simp [Cursor.settle, Cursor.atEnd, hcurrent, hsemicolon, hprevious, TokenKind.startsStatement]
    have hstop : Cursor.settle n c.advance = c.advance := by
      cases n with
      | zero => rfl
      | succ n => simp [Cursor.settle, hbehind, hsemicolon]
    rw [hgo, hstop, htokens]
  | cons t ts ih =>
    intro n c hc hplain hprevious hn
    obtain ⟨n, rfl⟩ := Nat.exists_eq_succ_of_ne_zero (Nat.ne_of_gt (Nat.zero_lt_of_lt hn))
    have ht := hplain t List.mem_cons_self
    obtain ⟨hcurrent, htokens⟩ := Cursor.tokens_behind hc ht.noEnd (by simp)
    have hbehind := Cursor.previous_advance hc ht.noEnd (by simp)
    have hgo : Cursor.settle (n + 1) c = Cursor.settle n c.advance := by
      simp [Cursor.settle, Cursor.atEnd, hcurrent, ht.noEnd, hprevious, ht.starts]
    rw [hgo]
    exact ih n c.advance htokens (fun t h => hplain t (List.mem_cons_of_mem _ h))
      (hbehind ▸ ht.semicolon) (Nat.lt_of_succ_lt_succ hn)

/-- From a token that it does not stop at, recovery goes on behind the next semicolon. -/
theorem Cursor.tokens_recover_behind (hc : c.tokens = t :: (ts ++ semicolon :: us))
    (hplain : ∀ u ∈ t :: ts, Plain u) (hsemicolon : semicolon.kind = .semicolon) (hus : us ≠ []) :
    c.recover.tokens = us := by
  have ht := hplain t List.mem_cons_self
  obtain ⟨rfl, htokens⟩ := Cursor.tokens_behind hc ht.noEnd (by simp)
  have hbehind := Cursor.previous_advance hc ht.noEnd (by simp)
  rw [Cursor.recover, if_neg (by simp [ht.starts])]
  refine Cursor.tokens_settle_behind hsemicolon hus ts c.size c.advance htokens
    (fun u h => hplain u (List.mem_cons_of_mem _ h)) (hbehind ▸ ht.semicolon) ?_
  rw [← Cursor.length_tokens, hc]
  simp only [List.length_cons, List.length_append]
  omega

/-- A token that it does not stop at is all that recovery skips in front of a word that starts a
statement. -/
theorem Cursor.tokens_recover_next (hc : c.tokens = t :: ts) (ht : Plain t) {u : Token}
    (hts : ts = u :: us) (hu : u.kind.startsStatement = true) : c.recover.tokens = ts := by
  obtain ⟨rfl, htokens⟩ := Cursor.tokens_behind hc ht.noEnd (by simp [hts])
  have hcurrent : c.advance.current = u := (List.cons.inj (htokens.trans hts)).1
  rw [Cursor.recover, if_neg (by simp [ht.starts])]
  cases c.size with
  | zero => exact htokens
  | succ n => simp [Cursor.settle, hcurrent, hu, htokens]

namespace Grammar

/-! ## The tokens of an expression -/

section Plain

variable {k : Nat} {phrase : Phrase Expr}

/-- Recovery does not stop at any token of a phrase of fewer than `k` tokens. -/
def PlainBelow {α : Type} (k : Nat) (phrase : Phrase α) : Prop :=
  ∀ ts a, phrase ts a → ts.length < k → ∀ t ∈ ts, Plain t

/-- What begins an expression begins no statement. -/
theorem plain_of_starts (h : startsExpression t.kind = true) : Plain t := by
  refine ⟨?_, ?_, ?_⟩
  all_goals
    revert h
    cases t.kind <;> simp [startsExpression, TokenKind.startsStatement]

/-- A token of a kind that begins no statement and ends none is plain. -/
theorem plain_of_kind {kind : TokenKind} (h : t.kind = kind) (hstarts : kind.startsStatement = false)
    (hkind : kind ≠ .semicolon ∧ kind ≠ .endOfSource) : Plain t :=
  ⟨h ▸ hstarts, h ▸ hkind.1, h ▸ hkind.2⟩

/-- So is an operator. -/
theorem plain_of_node? {level : Level} {node : Expr → Expr → Expr} (h : level.node? t = some node) :
    Plain t := by
  unfold Level.node? at h
  split at h
  case h_13 => cases h
  all_goals next hk => exact plain_of_kind hk rfl (by simp)

/-- Commas between plain items are plain as well. -/
theorem plain_separated (h : PlainBelow k phrase) : PlainBelow k (Separated phrase) := by
  intro ts es hts hk
  induction hts with
  | one hitem => exact h _ _ hitem hk
  | more hitem hcomma _ ih =>
    simp only [List.length_append, List.length_cons] at hk
    simp only [List.mem_append, List.mem_cons]
    rintro t (ht | rfl | ht)
    · exact h _ _ hitem (by omega) t ht
    · exact plain_of_kind hcomma rfl (by simp)
    · exact ih (by omega) t ht

/-- So are the parentheses around them. -/
theorem plain_listed (h : PlainBelow k phrase) : PlainBelow k (Listed phrase) := by
  intro ts es hts hk
  cases hts with
  | none => simp
  | some hts _ => exact plain_separated h ts es hts hk

/-- An operand is made of plain tokens. -/
theorem plain_primary (h : PlainBelow k phrase) : PlainBelow (k + 1) (Primary phrase) := by
  intro ts e hts hk
  cases hts with
  | impossible ht | surely ht | emptiness ht | number ht | string ht | me ht | name ht =>
    simpa using plain_of_starts (by rw [ht]; rfl)
  | group hleft hinner hright =>
    simp only [List.length_append, List.length_cons] at hk
    simp only [List.mem_append, List.mem_cons, List.not_mem_nil, or_false]
    rintro t (rfl | ht | rfl)
    · exact plain_of_kind hleft rfl (by simp)
    · exact h _ _ hinner (by omega) t ht
    · exact plain_of_kind hright rfl (by simp)

/-- So is one with suffixes. -/
theorem plain_suffixed (h : PlainBelow k phrase) : PlainBelow (k + 1) (Suffixed phrase) := by
  intro ts e hts hk
  induction hts with
  | primary hts => exact plain_primary h _ _ hts hk
  | call _ hleft harguments hright ih =>
    simp only [List.length_append, List.length_cons] at hk
    simp only [List.mem_append, List.mem_cons, List.not_mem_nil, or_false]
    rintro t (ht | rfl | ht | rfl)
    · exact ih (by omega) t ht
    · exact plain_of_kind hleft rfl (by simp)
    · exact plain_listed h _ _ harguments (by omega) t ht
    · exact plain_of_kind hright rfl (by simp)
  | get _ hdot hname ih =>
    simp only [List.length_append, List.length_cons] at hk
    simp only [List.mem_append, List.mem_cons, List.not_mem_nil, or_false]
    rintro t (ht | rfl | rfl)
    · exact ih (by omega) t ht
    · exact plain_of_kind hdot rfl (by simp)
    · exact plain_of_kind hname rfl (by simp)

/-- So is one with signs. -/
theorem plain_signed (h : PlainBelow k phrase) : PlainBelow (k + 1) (Signed phrase) := by
  intro ts e hts hk
  induction hts with
  | suffixed hts => exact plain_suffixed h _ _ hts hk
  | not hsign _ ih | negate hsign _ ih =>
    rintro t (_ | ⟨_, ht⟩)
    · exact plain_of_kind hsign rfl (by simp)
    · exact ih (Nat.lt_of_succ_lt hk) t ht

/-- So is a chain. -/
theorem plain_chain (level : Level) (h : PlainBelow k phrase) :
    PlainBelow k (Chain level phrase) := by
  intro ts e hts hk
  induction hts with
  | operand hts => exact h _ _ hts hk
  | operator _ hnode hright ih =>
    simp only [List.length_append, List.length_cons] at hk
    simp only [List.mem_append, List.mem_cons]
    rintro t (ht | rfl | ht)
    · exact ih (by omega) t ht
    · exact plain_of_node? hnode
    · exact h _ _ hright (by omega) t ht

/-- So is an operation, level by level. -/
theorem plain_operation (h : PlainBelow k phrase) : PlainBelow (k + 1) (Operation phrase) := by
  rintro ts e ⟨hts⟩
  exact plain_chain _ (plain_chain _ (plain_chain _ (plain_chain _ (plain_chain _
    (plain_chain _ (plain_signed h)))))) ts e hts

/-- So is an assignment. -/
theorem plain_assignment (h : PlainBelow k phrase) : PlainBelow (k + 1) (Assignment phrase) := by
  intro ts e hts hk
  cases hts with
  | operation hts => exact plain_operation h _ _ hts hk
  | assign hname hequals hvalue =>
    simp only [List.length_cons] at hk
    simp only [List.mem_cons]
    rintro t (rfl | rfl | ht)
    · exact plain_of_kind hname rfl (by simp)
    · exact plain_of_kind hequals rfl (by simp)
    · exact h _ _ hvalue (by omega) t ht
  | set hobject hdot hname hequals hvalue =>
    simp only [List.length_append, List.length_cons] at hk
    simp only [List.mem_append, List.mem_cons]
    rintro t (ht | rfl | rfl | rfl | ht)
    · exact plain_suffixed h _ _ hobject (by omega) t ht
    · exact plain_of_kind hdot rfl (by simp)
    · exact plain_of_kind hname rfl (by simp)
    · exact plain_of_kind hequals rfl (by simp)
    · exact h _ _ hvalue (by omega) t ht

/-- So is an expression, by induction on how many tokens it has. -/
theorem plainBelow_expression : ∀ k, PlainBelow k Expression
  | 0 => fun _ _ _ hk => absurd hk (Nat.not_lt_zero _)
  | k + 1 => by
      rintro ts e ⟨h⟩
      exact plain_assignment (plainBelow_expression k) ts e h

/-- An expression begins with a token that begins one. -/
theorem Expression.first {e : Expr} (h : Expression (t :: ts) e) :
    startsExpression t.kind = true := by
  obtain ⟨u, us, heq, hu⟩ := h.starts
  exact (List.cons.inj heq).1 ▸ hu

/-- Recovery does not stop at any token of an expression. -/
theorem Expression.plain {e : Expr} (h : Expression ts e) : ∀ t ∈ ts, Plain t :=
  plainBelow_expression _ ts e h (Nat.lt_succ_self _)

end Plain

/-! ## A sign that becomes an operator -/

section Join

variable {phrase operand : Phrase Expr} {level : Level} {minus : Token} {e e' : Expr}

/-- A product that starts with a minus sign is one without it. -/
theorem Chain.unsigned (hminus : minus.kind = .minus)
    (h : Chain .product (Signed phrase) (minus :: us) e) :
    ∃ e', Chain .product (Signed phrase) us e' := by
  generalize hts : minus :: us = ts at h
  induction h generalizing us with
  | operand h =>
    subst hts
    cases h with
    | suffixed h =>
      obtain ⟨t, ts, heq, -, ht⟩ := h.first
      exact absurd ((List.cons.inj heq).1 ▸ hminus) ht
    | not hsign _ => simp [hminus] at hsign
    | negate _ h => exact ⟨_, .operand h⟩
  | operator hleft hnode hright ih =>
    obtain ⟨t, ts, rfl, -⟩ := hleft.starts Signed.starts
    obtain ⟨rfl, rfl⟩ := List.cons.inj hts
    obtain ⟨e', h'⟩ := ih rfl
    exact ⟨_, .operator h' hnode hright⟩

/-- A chain goes on with the operands of another one, if it goes on with its first. -/
theorem Chain.append (hstarts : ∀ {ts e}, operand ts e → Starts ts)
    (hfirst : ∀ {us e'}, operand (minus :: us) e' → ∃ g, Chain level operand (ts ++ minus :: us) g)
    (h : Chain level operand (minus :: us) e') : ∃ g, Chain level operand (ts ++ minus :: us) g := by
  generalize hw : minus :: us = w at h
  induction h generalizing us with
  | operand h => exact hw ▸ hfirst (hw ▸ h)
  | operator hleft hnode hright ih =>
    obtain ⟨t, rest, rfl, -⟩ := hleft.starts hstarts
    obtain ⟨rfl, rfl⟩ := List.cons.inj hw
    obtain ⟨g, h'⟩ := ih rfl
    exact ⟨_, by simpa using Chain.operator h' hnode hright⟩

/-- Phrases with a first token, of which any two are one phrase if the second one starts with a minus
sign. -/
structure Joins (minus : Token) (phrase : Phrase Expr) : Prop where
  starts : ∀ {ts e}, phrase ts e → Starts ts
  join : ∀ {ts e us e'}, phrase ts e → phrase (minus :: us) e' → ∃ g, phrase (ts ++ minus :: us) g

/-- Where operands can be joined, so can the chains of a level. -/
theorem Joins.chain (level : Level) (h : Joins minus operand) :
    Joins minus (Chain level operand) where
  starts := Chain.starts h.starts
  join hleft hright := by
    refine hright.append h.starts fun hfirst => ?_
    cases hleft with
    | operand hlast =>
      obtain ⟨g, hg⟩ := h.join hlast hfirst
      exact ⟨g, .operand hg⟩
    | operator hleft hnode hlast =>
      obtain ⟨g, hg⟩ := h.join hlast hfirst
      exact ⟨_, by simpa using Chain.operator hleft hnode hg⟩

/-- A sum goes on with a minus sign as its operator. -/
theorem joins_sum (hminus : minus.kind = .minus) :
    Joins minus (Chain .sum (Chain .product (Signed phrase))) where
  starts := Chain.starts (Chain.starts Signed.starts)
  join hleft hright := by
    refine hright.append (Chain.starts Signed.starts) fun hfirst => ?_
    obtain ⟨g, hg⟩ := hfirst.unsigned hminus
    have hnode : Level.sum.node? minus = some (.binary .subtract minus) := by
      simp [Level.node?, hminus]
    exact ⟨_, .operator hleft hnode hg⟩

/-- **An expression and another that begins with a minus are one expression.** -/
theorem Operation.join (hminus : minus.kind = .minus) (hleft : Operation phrase ts e)
    (hright : Operation phrase (minus :: us) e') : ∃ g, Operation phrase (ts ++ minus :: us) g := by
  obtain ⟨hleft⟩ := hleft
  obtain ⟨hright⟩ := hright
  have hjoins : Joins minus (Chain .disjunction (Chain .conjunction (Chain .equality
      (Chain .comparison (Chain .sum (Chain .product (Signed phrase))))))) :=
    ((((joins_sum hminus).chain _).chain _).chain _).chain _
  obtain ⟨g, hg⟩ := hjoins.join hleft hright
  exact ⟨g, .levels hg⟩

/-- An expression that starts with a minus sign is no assignment. -/
theorem Expression.operation_of_minus (hminus : minus.kind = .minus)
    (h : Expression (minus :: us) e) : Operation Expression (minus :: us) e := by
  generalize hts : minus :: us = ts at h
  obtain ⟨h⟩ := h
  cases h with
  | operation h => exact h
  | assign hname _ _ =>
    obtain rfl := (List.cons.inj hts).1
    simp [hminus] at hname
  | set hobject _ _ _ _ =>
    obtain ⟨t, ts, rfl, -, ht⟩ := hobject.first
    exact absurd ((List.cons.inj hts).1 ▸ hminus) ht

/-- **A sign behind an expression becomes an operator.** -/
theorem Expression.join (hminus : minus.kind = .minus) {ts : List Token} {e : Expr}
    (hleft : Expression ts e) (hright : Expression (minus :: us) e') :
    ∃ g, Expression (ts ++ minus :: us) g :=
  match hleft with
  | .assignment (.operation h) => by
      obtain ⟨g, hg⟩ := h.join hminus (hright.operation_of_minus hminus)
      exact ⟨g, .assignment (.operation hg)⟩
  | @Expression.assignment _ _ (@Assignment.assign _ name n equals ts _ hname hequals hvalue) => by
      obtain ⟨g, hg⟩ := Expression.join hminus hvalue hright
      exact ⟨.assign n name g, .assignment (.assign hname hequals hg)⟩
  | .assignment (.set hobject hdot hname hequals hvalue) => by
      obtain ⟨g, hg⟩ := Expression.join hminus hvalue hright
      exact ⟨_, .assignment (by simpa using Assignment.set hobject hdot hname hequals hg)⟩
termination_by ts.length

end Join

/-! ## Two declarations that become one -/

section Merge

variable {tip : Tip} {e : Expr}

/-- A token that what stands last goes on with. -/
def Tip.GoesOn (tip : Tip) (t : Token) : Prop :=
  match tip with
  | .expression => t.kind = .minus
  | .give => startsExpression t.kind = true
  | .name => False

/-- In front of an expression that starts with no parenthesis, a declaration without its semicolon
either stops or goes on. -/
theorem Tip.stops_or_goesOn (tip : Tip) (ht : startsExpression t.kind = true)
    (hparen : t.kind ≠ .leftParen) : tip.Stops t ∨ tip.GoesOn t := by
  have hplain := plain_of_starts ht
  cases tip with
  | name =>
    refine .inl ⟨hplain.semicolon, fun hk => ?_⟩
    simp [hk, startsExpression] at ht
  | give => exact .inr ht
  | expression =>
    by_cases hminus : t.kind = .minus
    · exact .inr hminus
    · have hequal : t.kind ≠ .dot ∧ t.kind ≠ .equal := by
        constructor <;> intro hk <;> simp [hk, startsExpression] at ht
      refine .inl ⟨hplain.semicolon, ⟨hparen, hequal.1, fun level _ => ?_⟩, hequal.2⟩
      unfold Level.node?
      revert ht hminus
      cases t.kind <;> cases level <;> simp [startsExpression]

/-- A statement without its semicolon goes on with an expression that its tip can take. -/
theorem Shortened.merge (h : Shortened tip ts) (ht : tip.GoesOn t) (he : Expression (t :: us) e)
    (hend : semicolon.kind = .semicolon) :
    ∃ open? s, Statement true open? (ts ++ t :: (us ++ [semicolon])) s := by
  induction h with
  | counting hword hleft hi hc hend' hn hright _ ih =>
    obtain ⟨_, _, h⟩ := ih ht
    exact ⟨_, _, by simpa using Statement.counting hword hleft hi hc hend' hn hright h⟩
  | branch hword hleft hc hright _ ih =>
    obtain ⟨_, _, h⟩ := ih ht
    exact ⟨_, _, by simpa using Statement.branch hword hleft hc hright h⟩
  | branches hword hleft hc hright hyes hword' _ ih =>
    obtain ⟨_, _, h⟩ := ih ht
    exact ⟨_, _, by simpa using Statement.branches hword hleft hc hright hyes (fun _ => rfl) hword' h⟩
  | loop hword hleft hc hright _ ih =>
    obtain ⟨_, _, h⟩ := ih ht
    exact ⟨_, _, by simpa using Statement.loop hword hleft hc hright h⟩
  | tell hword h =>
    obtain ⟨g, hg⟩ := h.join ht he
    exact ⟨_, _, by simpa using Statement.tell hword hg hend⟩
  | give hword h =>
    obtain ⟨g, hg⟩ := h.join ht he
    exact ⟨_, _, by simpa using Statement.give hword (.some hg) hend⟩
  | giveNothing hword => exact ⟨_, _, by simpa using Statement.give hword (.some he) hend⟩
  | expression hfirst h =>
    obtain ⟨g, hg⟩ := h.join ht he
    exact ⟨_, _, by simpa using Statement.expression hfirst hg hend⟩

/-- **A declaration that has lost its semicolon goes on with the expression statement behind it.** -/
theorem ShortenedDeclaration.merge (h : ShortenedDeclaration tip ts) (ht : tip.GoesOn t)
    (he : Expression (t :: us) e) (hend : semicolon.kind = .semicolon) :
    ∃ s, Declaration true (ts ++ t :: (us ++ [semicolon])) s := by
  cases h with
  | bare _ _ => exact ht.elim
  | initialized hword hname hequals h =>
    obtain ⟨g, hg⟩ := h.join ht he
    exact ⟨_, by simpa using Declaration.variable hword (.initialized hname hequals hg hend)⟩
  | statement h =>
    obtain ⟨_, s, h⟩ := h.merge ht he hend
    exact ⟨s, .statement h⟩

/-- **Or it is missed there**, and recovery goes on behind the expression statement. -/
theorem ShortenedDeclaration.skipsBehind (h : ShortenedDeclaration tip ts) (ht : tip.Stops t)
    (he : Expression (t :: us) e) (hend : semicolon.kind = .semicolon) {rest : List Token}
    (hrest : Ended rest) :
    declaration.Skips (ts ++ t :: (us ++ semicolon :: rest)) t rest := by
  have hended : Ended (t :: (us ++ semicolon :: rest)) := .cons (.append (.cons hrest))
  exact .step (.nested_declaration hended.append) ((h.misses ht hended).recovering fun c hc =>
    c.tokens_recover_behind hc he.plain hend hrest.ne_nil)

section Else

variable {word : Token} (hword : word.kind = .elseKey)

include hword

/-- An `else` stops every tip. -/
theorem stops_else (tip : Tip) : tip.Stops word := by
  have hnode : ∀ level : Level, level.node? word = none := by
    intro level
    cases level <;> simp [Level.node?, hword]
  refine ⟨by simp [hword], ?_⟩
  cases tip with
  | expression => exact ⟨⟨by simp [hword], by simp [hword], fun level _ => hnode level⟩, by simp [hword]⟩
  | give => simp [hword, startsExpression]
  | name => simp [hword]

/-- In front of a second part the semicolon is missed at its first word, and the second part is left
as a statement of its own if it starts with a word. -/
theorem ShortenedDeclaration.skipsWord (h : ShortenedDeclaration tip ts)
    (ht : t.kind.startsStatement = true) (hus : Ended us) :
    declaration.Skips (ts ++ word :: t :: us) word (t :: us) := by
  have hended : Ended (word :: t :: us) := .cons (.cons hus)
  exact .step (.nested_declaration hended.append)
    ((h.misses (stops_else hword tip) hended).recovering fun c hc =>
      c.tokens_recover_next hc (plain_of_kind hword rfl (by simp)) rfl ht)

/-- A second part that is an expression statement is skipped. -/
theorem ShortenedDeclaration.skipsSecond (h : ShortenedDeclaration tip ts)
    (he : Expression (t :: us) e) (hend : semicolon.kind = .semicolon) {rest : List Token}
    (hrest : Ended rest) :
    declaration.Skips (ts ++ word :: t :: (us ++ semicolon :: rest)) word rest := by
  have hended : Ended (word :: t :: (us ++ semicolon :: rest)) :=
    .cons (.cons (.append (.cons hrest)))
  have hplain : ∀ u ∈ word :: t :: us, Plain u := by
    simpa using ⟨plain_of_kind hword rfl (by simp), by simpa using he.plain⟩
  exact .step (.nested_declaration hended.append)
    ((h.misses (stops_else hword tip) hended).recovering fun c hc =>
      @Cursor.tokens_recover_behind word semicolon (t :: us) rest c hc hplain hend hrest.ne_nil)

end Else

/-- A declaration starts with a word, with a parenthesis, or as an expression. -/
theorem Declaration.start {s : Stmt} (h : Declaration true ts s) : ∃ t us, ts = t :: us
    ∧ (t.kind.startsStatement = true ∨ t.kind = .leftParen ∨ ∃ vs e semicolon,
      us = vs ++ [semicolon] ∧ semicolon.kind = .semicolon ∧ Expression (t :: vs) e) := by
  cases h with
  | youth h _ _ _ _ | function h _ | «variable» h _ => exact ⟨_, _, rfl, .inl (by rw [h]; rfl)⟩
  | statement h =>
    cases h with
    | counting h _ _ _ _ _ _ _ | branch h _ _ _ _ | branches h _ _ _ _ _ _ _ | loop h _ _ _ _
    | tell h _ _ | give h _ _ => exact ⟨_, _, rfl, .inl (by rw [h]; rfl)⟩
    | block h _ _ => exact ⟨_, _, rfl, .inr (.inl h)⟩
    | expression _ h hend => exact ⟨_, _, rfl, .inr (.inr ⟨_, _, _, rfl, hend, h⟩)⟩

end Merge

end Grammar

end YouthLang

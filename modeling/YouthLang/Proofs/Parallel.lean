import YouthLang.Proofs.Grammar.Complete

/-!
# Proofs/Parallel — two parsers over the same tokens

Two parsers are beside each other when, from cursors at the same tokens, they read the same tokens,
report the same mistakes and make trees that differ in the numbers of their nodes only
(`Parser.Beside`).  One lemma for each rule of the parser says that it is beside itself, whatever its
nodes are counted from and however much nesting and repetition it is allowed, as long as that is enough.

So what a program is and what is wrong with it does not depend on the number its nodes are counted from
(`parse_beside`).
-/

namespace YouthLang

variable {α β γ δ : Type} {N : Nat → Nat → Prop} {c c₁ : Cursor}

/-! ## The judgement

Both parsers are followed at once.  What they report has to be the same, and what they make only
related. -/

/-- The number of the last node when some more have been numbered, past the numbers that others take. -/
def nodeAfter (node : Nat) (others : Nat → Nat) : Nat → Nat
  | 0 => node
  | k + 1 => nodeAfter node others k + others k + 1

/-- The numbers behind the first one are those of a count that starts there. -/
theorem nodeAfter_succ (node : Nat) (others : Nat → Nat) (k : Nat) :
    nodeAfter (node + others 0 + 1) (fun i => others (i + 1)) k = nodeAfter node others (k + 1) := by
  induction k with
  | zero => rfl
  | succ k ih =>
    rw [nodeAfter, ih]
    rfl

/-- Numbers that go on alike are the same ones. -/
theorem eq_of_nodeAfter_eq {node node' : Nat} {others others' : Nat → Nat}
    (h : ∀ k, nodeAfter node others k = nodeAfter node' others' k) :
    node = node' ∧ others = others' := by
  refine ⟨h 0, funext fun k => ?_⟩
  have hnext : nodeAfter node others k + others k + 1 = nodeAfter node' others' k + others' k + 1 :=
    h (k + 1)
  have hlast := h k
  omega

/-- The same cursor with other numbers to come, which are related to those of the first one by one. -/
def Cursor.Beside (N : Nat → Nat → Prop) (c c' : Cursor) : Prop :=
  ∃ n others, c' = { c with node := n, others := others }
    ∧ ∀ k, N (nodeAfter c.node c.others k) (nodeAfter n others k)

/-- A cursor further on, the mistakes since then being grammatical ones. -/
structure Cursor.Leads (c c₁ : Cursor) : Prop where
  reaches : ∃ read, c.Reaches read c₁
  stage : ∀ d ∈ c₁.mistakes, d ∈ c.mistakes ∨ d.cause.stage = .grammatical

/-- Two parsers have ended in the same way, further on from a cursor, with related results. -/
inductive Parsing.Beside (N : Nat → Nat → Prop) (R : α → β → Prop) (c : Cursor) :
    Parsing α → Parsing β → Prop
  | done {a b c₁ c₁'} (hl : c.Leads c₁) (hc : c₁.Beside N c₁') (h : R a b) :
      Parsing.Beside N R c (.done a c₁) (.done b c₁')
  | unwound {c₁ c₁'} (hl : c.Leads c₁) (hc : c₁.Beside N c₁') :
      Parsing.Beside N R c (.unwound c₁) (.unwound c₁')

/-- From a sealed cursor and one beside it, the two parsers end in the same way. -/
def Parser.Beside (N : Nat → Nat → Prop) (R : α → β → Prop) (p : Parser α) (q : Parser β)
    (c : Cursor) : Prop :=
  c.Sealed (fun _ => True) → ∀ c', c.Beside N c' → Parsing.Beside N R c (p c) (q c')

namespace Cursor.Leads

/-- Without a mistake on the way. -/
theorem of_reaches {read : List Token} (hr : c.Reaches read c₁) (hclean : c₁.mistakes = c.mistakes) :
    c.Leads c₁ := ⟨⟨read, hr⟩, fun _ hd => .inl (hclean ▸ hd)⟩

/-- A cursor leads to itself. -/
theorem refl (c : Cursor) : c.Leads c := of_reaches (.refl c) rfl

/-- What it leads to leads on. -/
theorem trans {c₂ : Cursor} (h : c.Leads c₁) (h' : c₁.Leads c₂) : c.Leads c₂ := by
  obtain ⟨⟨read, hr⟩, hstage⟩ := h
  obtain ⟨⟨read', hr'⟩, hstage'⟩ := h'
  exact ⟨⟨_, hr.trans hr'⟩, fun d hd => (hstage' d hd).elim (hstage d) .inr⟩

/-- A report leads to the same place. -/
theorem report (t : Token) (cause : GrammarCause) : c.Leads (c.report t cause) := by
  refine ⟨⟨[], .report t cause⟩, fun d hd => ?_⟩
  obtain rfl | hd := List.mem_cons.mp hd
  · exact .inr rfl
  · exact .inl hd

/-- The end seals what is left. -/
theorem sealed (h : c.Leads c₁) (hs : c.Sealed (fun _ => True)) : c₁.Sealed (fun _ => True) := by
  obtain ⟨_, hr⟩ := h.reaches
  exact hr.sealed hs

/-- No token comes back. -/
theorem size_le (h : c.Leads c₁) : c₁.size ≤ c.size := by
  obtain ⟨_, hr⟩ := h.reaches
  exact hr.size_le

end Cursor.Leads

/-- To skip is to report nothing. -/
theorem Cursor.mistakes_settle (n : Nat) (c : Cursor) :
    (Cursor.settle n c).mistakes = c.mistakes := by
  induction n generalizing c with
  | zero => rfl
  | succ n ih =>
    unfold Cursor.settle
    split
    · rfl
    · rw [ih, Cursor.mistakes_advance]

/-- So is to recover. -/
theorem Cursor.mistakes_recover (c : Cursor) : c.recover.mistakes = c.mistakes := by
  unfold Cursor.recover
  split
  · rfl
  · rw [Cursor.mistakes_settle, Cursor.mistakes_advance]

/-- Recovery leads on. -/
theorem Cursor.Leads.recover (hs : c.Sealed (fun _ => True)) : c.Leads c.recover := by
  obtain ⟨_, hr⟩ := Cursor.Reaches.recover hs
  exact .of_reaches hr (Cursor.mistakes_recover c)

namespace Cursor.Beside

/-- A cursor has the numbers that it has. -/
theorem refl (c : Cursor) : c.Beside Eq c := ⟨c.node, c.others, rfl, fun _ => rfl⟩

/-- Two with the same numbers are the same. -/
theorem eq {c' : Cursor} (h : c.Beside Eq c') : c = c' := by
  obtain ⟨n, others, rfl, hn⟩ := h
  obtain ⟨rfl, rfl⟩ := eq_of_nodeAfter_eq hn
  rfl

/-- Both take their next tokens, which are the same. -/
theorem advance {c' : Cursor} (h : c.Beside N c') : c.advance.Beside N c'.advance := by
  obtain ⟨n, others, rfl, hn⟩ := h
  refine ⟨n, others, ?_, by rwa [Cursor.node_advance, Cursor.others_advance]⟩
  obtain ⟨previous, current, following, node, mistakes⟩ := c
  unfold Cursor.advance Cursor.atEnd
  by_cases hend : current.kind = .endOfSource
  · simp only [hend, decide_true, if_true]
  · cases following <;> simp only [hend, decide_false, Bool.false_eq_true, if_false]

/-- Both skip as far. -/
theorem settle (k : Nat) {c' : Cursor} (h : c.Beside N c') :
    (Cursor.settle k c).Beside N (Cursor.settle k c') := by
  induction k generalizing c c' with
  | zero => exact h
  | succ k ih =>
    have hadvance := h.advance
    obtain ⟨n, others, rfl, hn⟩ := h
    have hstop : Cursor.atEnd { c with node := n, others := others } = c.atEnd := rfl
    unfold Cursor.settle
    rw [hstop]
    split
    · exact ⟨n, others, rfl, hn⟩
    · exact ih hadvance

/-- Both recover at the same place. -/
theorem recover {c' : Cursor} (h : c.Beside N c') : c.recover.Beside N c'.recover := by
  have hadvance := h.advance.settle c.size
  obtain ⟨n, others, rfl, hn⟩ := h
  unfold Cursor.recover
  by_cases hstarts : c.current.kind.startsStatement = true
  · rw [if_pos hstarts, if_pos hstarts]
    exact ⟨n, others, rfl, hn⟩
  · rw [if_neg hstarts, if_neg hstarts]
    exact hadvance

end Cursor.Beside

/-- Results side by side behind a later cursor are so behind an earlier one. -/
theorem Parsing.Beside.trans {R : α → β → Prop} (hl : c.Leads c₁) {x : Parsing α} {y : Parsing β}
    (h : Parsing.Beside N R c₁ x y) : Parsing.Beside N R c x y := by
  cases h with
  | done hl' hc h => exact .done (hl.trans hl') hc h
  | unwound hl' hc => exact .unwound (hl.trans hl') hc

/-- Parsers beside each other that number their nodes alike have the same results. -/
theorem Parsing.Beside.eq {R : α → α → Prop} (hR : ∀ a b, R a b → a = b) {x y : Parsing α}
    (h : Parsing.Beside Eq R c x y) : x = y := by
  cases h with
  | done _ hc h =>
    rw [hR _ _ h, hc.eq]
  | unwound _ hc => rw [hc.eq]

namespace Parser.Beside

variable {p : Parser α} {q : Parser β} {R : α → β → Prop} {S : γ → δ → Prop} {kind : TokenKind}

/-- Only cursors that the end seals are looked at. -/
theorem of_sealed (h : c.Sealed (fun _ => True) → p.Beside N R q c) : p.Beside N R q c :=
  fun hs => h hs hs

/-- Related results at hand are side by side. -/
theorem pure {a : α} {b : β} (h : R a b) : Beside N R (Pure.pure a) (Pure.pure b) c :=
  fun _ _ hc => .done (.refl c) hc h

/-- Sequences of parsers beside each other are so. -/
theorem bind {f : α → Parser γ} {g : β → Parser δ} (hp : p.Beside N R q c)
    (hf : ∀ a b c₁, p c = .done a c₁ → c₁.size ≤ c.size → R a b → (f a).Beside N S (g b) c₁) :
    (p >>= f).Beside N S (q >>= g) c := fun hs c' hc => by
  have hp := hp hs c' hc
  generalize hx : p c = x, hy : q c' = y at hp
  cases hp with
  | @done a b c₁ c₁' hl hc h =>
    rw [Parser.bind_of_done hx, Parser.bind_of_done hy]
    exact .trans hl (hf a b c₁ hx hl.size_le h (hl.sealed hs) c₁' hc)
  | unwound hl hc =>
    rw [Parser.bind_of_unwound hx, Parser.bind_of_unwound hy]
    exact .unwound hl hc

/-- The results may be changed on the way. -/
theorem map {f : α → γ} {g : β → δ} (hp : p.Beside N R q c) (h : ∀ a b, R a b → S (f a) (g b)) :
    (f <$> p).Beside N S (g <$> q) c := bind hp fun a b _ _ _ hab => pure (h a b hab)

/-- Parsers that go on as others do behind some tokens. -/
theorem step {p' : Parser α} {q' : Parser β}
    (hl : c.Sealed (fun _ => True) → c.Leads c₁) (hp : p c = p' c₁)
    (hq : ∀ c', c.Beside N c' → ∃ c₁', c₁.Beside N c₁' ∧ q c' = q' c₁')
    (h : p'.Beside N R q' c₁) : p.Beside N R q c := fun hs c' hc => by
  obtain ⟨c₁', hc₁, heq⟩ := hq c' hc
  rw [hp, heq]
  exact .trans (hl hs) (h ((hl hs).sealed hs) c₁' hc₁)

/-- Both look at the same token. -/
theorem peek {f g : Token → Parser γ} {S : γ → γ → Prop}
    (h : (f c.current).Beside N S (g c.current) c) :
    (Parser.peek >>= f).Beside N S (Parser.peek >>= g) c := by
  refine step (fun _ => .refl c) rfl (fun c' hc => ⟨c', hc, ?_⟩) h
  obtain ⟨n, others, rfl, -⟩ := hc
  rfl

/-- Both have as many tokens left. -/
theorem remaining {f g : Nat → Parser γ} {S : γ → γ → Prop}
    (h : (f c.size).Beside N S (g c.size) c) :
    (Parser.remaining >>= f).Beside N S (Parser.remaining >>= g) c := by
  refine step (fun _ => .refl c) rfl (fun c' hc => ⟨c', hc, ?_⟩) h
  obtain ⟨n, others, rfl, -⟩ := hc
  rfl

/-- Parsers that go on as others do behind the current token. -/
theorem advance {p' : Parser α} {q' : Parser β} (hk : c.current.kind ≠ .endOfSource)
    (hp : p c = p' c.advance) (hq : ∀ c', c.Beside N c' → q c' = q' c'.advance)
    (h : c.advance.size + 1 = c.size → p'.Beside N R q' c.advance) : p.Beside N R q c :=
  of_sealed fun hs => step (fun hs => .of_reaches (.advance hs hk) Cursor.mistakes_advance) hp
    (fun c' hc => ⟨c'.advance, hc.advance, hq c' hc⟩) (h (hs.size_advance hk))

/-- Both take the same token. -/
theorem next {f g : Token → Parser γ} {S : γ → γ → Prop} (hk : c.current.kind ≠ .endOfSource)
    (h : c.advance.size + 1 = c.size → (f c.current).Beside N S (g c.current) c.advance) :
    (Parser.next >>= f).Beside N S (Parser.next >>= g) c := by
  refine advance hk rfl (fun c' hc => ?_) h
  obtain ⟨n, others, rfl, -⟩ := hc
  rfl

/-- Both take a number, and the two are related. -/
theorem freshNode {f g : Nat → Parser γ} {S : γ → γ → Prop}
    (h : ∀ n, N c.count.node n → (f c.count.node).Beside N S (g n) c.count) :
    (Parser.freshNode >>= f).Beside N S (Parser.freshNode >>= g) c := by
  intro hs c' hc
  obtain ⟨n, others, rfl, hn⟩ := hc
  have hl : c.Leads c.count :=
    @Cursor.Leads.of_reaches _ _ []
      ⟨rfl, by simp, List.suffix_refl _, Nat.le_of_lt c.node_lt_count⟩ rfl
  refine .trans hl (h _ (hn 1) (hl.sealed hs) _ ⟨_, _, rfl, fun k => ?_⟩)
  rw [nodeAfter_succ]
  exact (nodeAfter_succ c.node c.others k).symm ▸ hn (k + 1)

/-- Both report the same mistake. -/
theorem report {f g : Unit → Parser γ} {S : γ → γ → Prop} {t : Token} {cause : GrammarCause}
    (h : (f ()).Beside N S (g ()) (c.report t cause)) :
    (Parser.report t cause >>= f).Beside N S (Parser.report t cause >>= g) c := by
  refine step (fun _ => .report t cause) rfl (fun c' hc => ⟨c'.report t cause, ?_, rfl⟩) h
  obtain ⟨n, others, rfl, hn⟩ := hc
  exact ⟨n, others, rfl, hn⟩

/-- Both complain and unwind. -/
theorem missing {what : Wanted} : Beside N R (Parser.missing what) (Parser.missing what) c := by
  intro _ c' hc
  obtain ⟨n, others, rfl, hn⟩ := hc
  exact .unwound (.report _ _) ⟨n, others, rfl, hn⟩

/-- Both go the same way on from a look. -/
theorem sees {yes no yes' no' : Parser γ} {S : γ → γ → Prop}
    (hyes : c.current.kind = kind → yes.Beside N S yes' c)
    (hno : c.current.kind ≠ kind → no.Beside N S no' c) :
    Beside N S (Parser.sees kind >>= fun b => if b = true then yes else no)
      (Parser.sees kind >>= fun b => if b = true then yes' else no') c := by
  by_cases hk : c.current.kind = kind
  · refine step (fun _ => .refl c) ?_ (fun c' hc => ⟨c', hc, ?_⟩) (hyes hk)
    · simp [Parser.sees, Bind.bind, hk]
    · obtain ⟨n, others, rfl, -⟩ := hc
      simp [Parser.sees, Bind.bind, hk]
  · refine step (fun _ => .refl c) ?_ (fun c' hc => ⟨c', hc, ?_⟩) (hno hk)
    · simp [Parser.sees, Bind.bind, hk]
    · obtain ⟨n, others, rfl, -⟩ := hc
      simp [Parser.sees, Bind.bind, hk]

/-- Both go the same way on from a word that may come. -/
theorem accept {yes no yes' no' : Parser γ} {S : γ → γ → Prop} (hend : kind ≠ .endOfSource)
    (hyes : c.current.kind = kind → c.advance.size + 1 = c.size → yes.Beside N S yes' c.advance)
    (hno : c.current.kind ≠ kind → no.Beside N S no' c) :
    Beside N S (Parser.accept kind >>= fun b => if b = true then yes else no)
      (Parser.accept kind >>= fun b => if b = true then yes' else no') c := by
  by_cases hk : c.current.kind = kind
  · refine advance (hk ▸ hend) ?_ (fun c' hc => ?_) (hyes hk)
    · simp [Parser.accept, Parser.sees, Parser.next, Bind.bind, Pure.pure, hk]
    · obtain ⟨n, others, rfl, -⟩ := hc
      simp [Parser.accept, Parser.sees, Parser.next, Bind.bind, Pure.pure, hk]
  · refine step (fun _ => .refl c) ?_ (fun c' hc => ⟨c', hc, ?_⟩) (hno hk)
    · simp [Parser.accept, Parser.sees, Bind.bind, Pure.pure, hk]
    · obtain ⟨n, others, rfl, -⟩ := hc
      simp [Parser.accept, Parser.sees, Bind.bind, Pure.pure, hk]

/-- Both read the word that has to come, or unwind. -/
theorem expect {f g : Token → Parser γ} {S : γ → γ → Prop} {what : Wanted}
    (hend : kind ≠ .endOfSource)
    (h : c.current.kind = kind → c.advance.size + 1 = c.size →
      (f c.current).Beside N S (g c.current) c.advance) :
    (Parser.expect kind what >>= f).Beside N S (Parser.expect kind what >>= g) c := by
  by_cases hk : c.current.kind = kind
  · refine advance (hk ▸ hend) ?_ (fun c' hc => ?_) (h hk)
    · simp [Parser.expect, Parser.sees, Parser.next, Bind.bind, hk]
    · obtain ⟨n, others, rfl, -⟩ := hc
      simp [Parser.expect, Parser.sees, Parser.next, Bind.bind, hk]
  · refine step (fun _ => .refl c) ?_ (fun c' hc => ⟨c', hc, ?_⟩)
      (@missing _ _ N c S what)
    · simp [Parser.expect, Parser.sees, Bind.bind, hk, Parser.missing]
    · obtain ⟨n, others, rfl, -⟩ := hc
      simp [Parser.expect, Parser.sees, Bind.bind, hk, Parser.missing]

end Parser.Beside

/-! ## Trees -/

section Trees

variable {T : Token → Token → Prop}

/-- Lists of arguments are alike place by place. -/
theorem argumentsAlike_iff {es es' : List Expr} :
    ArgumentsAlike T N es es' ↔ List.Forall₂ (Expr.Alike T N) es es' := by
  constructor
  · intro h
    induction es generalizing es' with
    | nil => cases h; exact .nil
    | cons e es ih => cases h with | cons h hes => exact .cons h (ih hes)
  · intro h
    induction h with
    | nil => exact .nil
    | cons h _ ih => exact .cons h ih

/-- So are bodies. -/
theorem bodyAlike_iff {body body' : List Stmt} :
    BodyAlike T N body body' ↔ List.Forall₂ (Stmt.Alike T N) body body' := by
  constructor
  · intro h
    induction body generalizing body' with
    | nil => cases h; exact .nil
    | cons s body ih => cases h with | cons h hbody => exact .cons h (ih hbody)
  · intro h
    induction h with
    | nil => exact .nil
    | cons h _ ih => exact .cons h ih

/-- So are methods. -/
theorem methodsAlike_iff {ms ms' : List Function} :
    MethodsAlike T N ms ms' ↔ List.Forall₂ (Function.Alike T N) ms ms' := by
  refine ⟨MethodsAlike.forall₂, fun h => ?_⟩
  induction h with
  | nil => exact .nil
  | cons h _ ih => exact .cons h ih

/-- The node of an operator over operands that are alike. -/
theorem Level.alike_node {level : Level} {t : Token} {node : Expr → Expr → Expr}
    (h : level.node? t = some node) {l l' r r' : Expr} (hl : l.Alike Eq N l')
    (hr : r.Alike Eq N r') : (node l r).Alike Eq N (node l' r') := by
  unfold Level.node? at h
  split at h <;> simp only [Option.some.injEq, reduceCtorEq] at h <;> subst h
  all_goals
    constructor
    · rfl
    · exact hl
    · exact hr

end Trees

/-! ## Expressions -/

section Expressions

open YouthLang.Parser

variable {ex ex' operand operand' : Parser Expr} {k : Nat}

/-- Two parsers of expressions that, with at most `k` tokens left, are beside each other. -/
def ExpressionsBeside (N : Nat → Nat → Prop) (k : Nat) (p q : Parser Expr) : Prop :=
  ∀ c : Cursor, c.size ≤ k → p.Beside N (Expr.Alike Eq N) q c

/-- Bounds that are both large enough make no difference to a chain, round by round. -/
theorem beside_chainFrom {level : Level} (hop : ExpressionsBeside N k operand operand') :
    ∀ (n m : Nat) {left left' : Expr} (c : Cursor), left.Alike Eq N left' → c.size ≤ k →
      c.size ≤ n → c.size ≤ m → (chainFrom level operand n left).Beside N (Expr.Alike Eq N)
        (chainFrom level operand' m left') c
  | 0, _, _, _, c, _, _, hn, _ | _, 0, _, _, c, _, _, _, hn => absurd c.size_pos (by omega)
  | n + 1, m + 1, left, left', c, h, hc, hn, hm => by
      unfold chainFrom
      refine .peek ?_
      cases hnode : level.node? c.current with
      | none => exact .pure h
      | some node =>
        refine .next (Level.kind_ne_endOfSource hnode) fun hsize => ?_
        refine .bind (hop c.advance (by omega)) fun right right' c₁ _ hle hright => ?_
        exact beside_chainFrom hop n m c₁ (Level.alike_node hnode h hright) (by omega) (by omega)
          (by omega)

/-- A chain is read alike where its operands are. -/
theorem beside_chain (level : Level) (hop : ExpressionsBeside N k operand operand') :
    ExpressionsBeside N k (chain level operand) (chain level operand') := fun c hc => by
  unfold chain
  refine .bind (hop c hc) fun left left' c₁ _ hle hleft => .remaining ?_
  exact beside_chainFrom hop _ _ c₁ hleft (by omega) (Nat.le_refl _) (Nat.le_refl _)

/-- The same for a list of arguments, round by round. -/
theorem beside_argumentsFrom (hex : ExpressionsBeside N k ex ex') :
    ∀ (n m : Nat) {read read' : List Expr} (c : Cursor),
      List.Forall₂ (Expr.Alike Eq N) read read' → c.size ≤ k → c.size ≤ n → c.size ≤ m →
      (argumentsFrom ex n read).Beside N (ArgumentsAlike Eq N) (argumentsFrom ex' m read') c
  | 0, _, _, _, c, _, _, hn, _ | _, 0, _, _, c, _, _, _, hn => absurd c.size_pos (by omega)
  | n + 1, m + 1, read, read', c, h, hc, hn, hm => by
      unfold argumentsFrom
      rw [← h.length_eq]
      have hmore : ∀ c : Cursor, c.size ≤ k → c.size ≤ n + 1 → c.size ≤ m + 1 →
          Parser.Beside N (ArgumentsAlike Eq N) (do
            let argument ← ex
            if ← accept .comma then argumentsFrom ex n (argument :: read)
            else pure (argument :: read).reverse) (do
            let argument ← ex'
            if ← accept .comma then argumentsFrom ex' m (argument :: read')
            else pure (argument :: read').reverse) c := by
        intro c hc hn hm
        refine .bind (hex c hc) fun e e' c₁ _ hle he => ?_
        refine .accept (by decide) (fun _ hsize => ?_) fun _ => .pure ?_
        · exact beside_argumentsFrom hex n m _ (.cons he h) (by omega) (by omega) (by omega)
        · exact argumentsAlike_iff.mpr (List.forall₂_reverse_iff.mpr (.cons he h))
      split
      · exact .peek (.report (hmore _ hc hn hm))
      · exact hmore c hc hn hm

/-- Arguments are read alike where expressions are. -/
theorem beside_callArguments (hex : ExpressionsBeside N k ex ex') (c : Cursor) (hc : c.size ≤ k) :
    (callArguments ex).Beside N (ArgumentsAlike Eq N) (callArguments ex') c := by
  unfold callArguments
  refine .sees (fun _ => .pure .nil) fun _ => .remaining ?_
  exact beside_argumentsFrom hex _ _ c .nil hc (Nat.le_refl _) (Nat.le_refl _)

/-- The same for suffixes, round by round. -/
theorem beside_suffixesFrom (hex : ExpressionsBeside N k ex ex') :
    ∀ (n m : Nat) {e e' : Expr} (c : Cursor), e.Alike Eq N e' → c.size ≤ k + 1 → c.size ≤ n →
      c.size ≤ m →
      (suffixesFrom ex n e).Beside N (Expr.Alike Eq N) (suffixesFrom ex' m e') c
  | 0, _, _, _, c, _, _, hn, _ | _, 0, _, _, c, _, _, _, hn => absurd c.size_pos (by omega)
  | n + 1, m + 1, e, e', c, h, hc, hn, hm => by
      unfold suffixesFrom
      refine .accept (by decide) (fun _ hsize => ?_) fun _ => .accept (by decide)
        (fun _ hsize => ?_) fun _ => .pure h
      · refine .bind (beside_callArguments hex c.advance (by omega)) fun es es' c₁ _ hle hes => ?_
        refine .expect (by decide) fun _ hsize' => ?_
        exact beside_suffixesFrom hex n m _ (.call h rfl hes) (by omega) (by omega) (by omega)
      · refine .expect (by decide) fun _ hsize' => ?_
        exact beside_suffixesFrom hex n m _ (.get h rfl) (by omega) (by omega) (by omega)

/-- An operand has an expression inside only behind a token of its own. -/
theorem beside_primary (hex : ExpressionsBeside N k ex ex') :
    ExpressionsBeside N (k + 1) (primary ex) (primary ex') := fun c hc => by
  unfold primary
  refine .peek ?_
  cases hk : c.current.kind with
  | impossibleKey | surelyKey | emptinessKey | number | string =>
    exact .next (by simp [hk]) fun _ => .pure (.literal _)
  | meKey => exact .next (by simp [hk]) fun _ => .freshNode fun n hn => .pure (.me hn rfl)
  | identifier => exact .next (by simp [hk]) fun _ => .freshNode fun n hn => .pure (.variable hn rfl)
  | leftParen =>
    refine .next (by simp [hk]) fun hsize => ?_
    refine .bind (hex c.advance (by omega)) fun e e' c₁ _ _ he => ?_
    exact .expect (by decide) fun _ _ => .pure (.group he)
  | _ => exact .missing

/-- So has one with suffixes. -/
theorem beside_suffixed (hex : ExpressionsBeside N k ex ex') :
    ExpressionsBeside N (k + 1) (suffixed ex) (suffixed ex') := fun c hc => by
  unfold suffixed
  refine .bind (beside_primary hex c hc) fun e e' c₁ _ hle he => .remaining ?_
  exact beside_suffixesFrom hex _ _ c₁ he (by omega) (Nat.le_refl _) (Nat.le_refl _)

/-- Signs are read one by one, as many as there are. -/
theorem beside_signedFrom (hex : ExpressionsBeside N k ex ex') : ∀ (n m : Nat) (c : Cursor),
    c.size ≤ k + 1 → c.size ≤ n → c.size ≤ m →
      (signedFrom ex n).Beside N (Expr.Alike Eq N) (signedFrom ex' m) c
  | 0, _, c, _, hn, _ | _, 0, c, _, _, hn => absurd c.size_pos (by omega)
  | n + 1, m + 1, c, hc, hn, hm => by
      unfold signedFrom
      refine .peek ?_
      cases hk : c.current.kind with
      | bang | minus =>
        refine .next (by simp [hk]) fun hsize => ?_
        refine .bind (beside_signedFrom hex n m c.advance (by omega) (by omega) (by omega)) ?_
        exact fun e e' c₁ _ _ he => .pure (.unary rfl he)
      | _ => exact beside_suffixed hex c hc

/-- Level by level the chains are read alike. -/
theorem beside_operation (hex : ExpressionsBeside N k ex ex') :
    ExpressionsBeside N (k + 1) (operation ex) (operation ex') := by
  have hsigned : ExpressionsBeside N (k + 1) (signed ex) (signed ex') := fun c hc => by
    unfold signed
    exact .remaining (beside_signedFrom hex _ _ c hc (Nat.le_refl _) (Nat.le_refl _))
  exact beside_chain .disjunction (beside_chain .conjunction (beside_chain .equality
    (beside_chain .comparison (beside_chain .sum (beside_chain .product hsigned)))))

/-- An assignment is read alike on both sides of its sign. -/
theorem beside_assignment (hex : ExpressionsBeside N k ex ex') :
    ExpressionsBeside N (k + 1) (assignment ex) (assignment ex') := fun c hc => by
  unfold assignment
  refine .bind (beside_operation hex c hc) fun target target' c₁ _ hle htarget => .peek ?_
  refine .accept (by decide) (fun _ hsize => ?_) fun _ => .pure htarget
  refine .bind (hex c₁.advance (by omega)) fun value value' c₂ _ _ hvalue => ?_
  have hreport : Parser.Beside N (Expr.Alike Eq N)
      (do report c₁.current .invalidTarget; return target)
      (do report c₁.current .invalidTarget; return target') c₂ := .report (.pure htarget)
  cases htarget with
  | «variable» _ hname =>
    subst hname
    exact .freshNode fun n hn => .pure (.assign hn rfl hvalue)
  | get hobject hname => exact .pure (.set hobject hname hvalue)
  | _ => exact hreport

/-- Expressions are parsed alike, with any nesting allowed for that is enough. -/
theorem beside_expressionAt : ∀ n m k : Nat, k ≤ n → k ≤ m →
    ExpressionsBeside N k (expressionAt n) (expressionAt m)
  | _, _, 0, _, _ => fun c hc => absurd c.size_pos (by omega)
  | n + 1, m + 1, k + 1, hn, hm =>
      beside_assignment (beside_expressionAt n m k (by omega) (by omega))

/-- **However numbers are drawn, an expression is read alike.** -/
theorem beside_expression (c : Cursor) :
    expression.Beside N (Expr.Alike Eq N) expression c :=
  .remaining (beside_expressionAt _ _ _ (Nat.le_refl _) (Nat.le_refl _) c (Nat.le_refl _))

end Expressions

/-! ## Progress

An expression may be read without a token only if a mistake is reported; a declaration consumes one
in any case.  That is why bounds that count tokens are large enough. -/

section Progress

open YouthLang.Parser

/-- The parser goes on from behind the current token. -/
def Parser.Advances (p : Parser α) (c : Cursor) : Prop :=
  ∃ q : Parser α, p c = q c.advance
    ∧ q.Reads (fun _ => True) c.advance fun _ _ _ => True

/-- A rule that takes a token and goes on from there advances. -/
theorem Parser.Advances.of_reads {p q : Parser α} {post : List Token → α → Cursor → Prop}
    (hq : q.Reads (fun _ => True) c.advance post) (heq : p c = q c.advance) : p.Advances c :=
  ⟨q, heq, .mono hq fun _ _ _ _ _ => trivial⟩

/-- A word that starts a statement is read, whatever comes behind it; anything else at least if a
statement is. -/
theorem moves_declarationBody {n : Nat} (hn : 2 * c.advance.size ≤ n) :
    (declarationBody (statementAt (n + 1))).Advances c
      ∨ c.current.kind.startsStatement = false ∧
        (declarationBody (statementAt (n + 1))).Reads (fun _ => True) c fun read _ _ => read ≠ [] := by
  have houter := (@forms_statementAt (fun _ => True) (n + 1) c.advance.size).1 (by omega)
  have hinner : ∀ rule, (statementAt n rule).Forms (fun _ => True) c.advance.size rule := by
    intro rule
    cases rule with
    | declaration => exact (forms_statementAt n c.advance.size).1 hn
    | statement => exact (forms_statementAt n c.advance.size).2 (by omega)
  have hsize : c.advance.size ≤ c.advance.size + 1 := Nat.le_succ _
  -- With the first token known, a rule is its rest behind that token.
  cases hk : c.current.kind with
  | youthKey =>
    refine .inl (.of_reads (forms_youthDeclaration houter c.advance (Nat.le_refl _)) ?_)
    simp [declarationBody, Bind.bind, peek, next, hk]
  | listenKey =>
    have hfunction : Parser.Reads (fun _ => True) (do
        return Stmt.function (← routine .function (statementAt (n + 1) .declaration)))
        c.advance fun _ _ _ => True :=
      .bind (forms_routine .function houter c.advance (Nat.le_refl _)) fun _ _ _ _ _ => .pure trivial
    refine .inl (.of_reads hfunction ?_)
    simp [declarationBody, Bind.bind, peek, next, hk]
  | isKey =>
    refine .inl (.of_reads (forms_variableDeclaration c.advance) ?_)
    simp [declarationBody, Bind.bind, peek, next, hk]
  -- The statement rules are one level deeper than the declaration rules.
  | forKey =>
    refine .inl (.of_reads (forms_forStatement (hinner .statement) c.advance hsize) ?_)
    simp [declarationBody, statementAt, statement, Bind.bind, peek, next, hk]
  | ifKey =>
    refine .inl (.of_reads (forms_ifStatement (hinner .statement) c.advance hsize) ?_)
    simp [declarationBody, statementAt, statement, Bind.bind, peek, next, hk]
  | whileKey =>
    refine .inl (.of_reads (forms_whileStatement (hinner .statement) c.advance hsize) ?_)
    simp [declarationBody, statementAt, statement, Bind.bind, peek, next, hk]
  | tellKey =>
    have htell : Parser.Reads (fun _ => True) (do
        let value ← expression
        let _ ← expect .semicolon (.semicolon .told)
        return Stmt.tell value) c.advance fun _ _ _ => True :=
      .bind (numbers_expression _) fun _ _ _ _ _ => .expect (by decide) fun _ _ _ => .pure trivial
    refine .inl (.of_reads htell ?_)
    simp [declarationBody, statementAt, statement, Bind.bind, peek, next, hk]
  | giveKey =>
    have hgive : Parser.Reads (fun _ => True) (do
        let value ← expressionUnless .semicolon
        let _ ← expect .semicolon (.semicolon .given)
        return Stmt.give c.current value) c.advance fun _ _ _ => True :=
      .bind (numbers_expressionUnless _ _) fun _ _ _ _ _ =>
        .expect (by decide) fun _ _ _ => .pure trivial
    refine .inl (.of_reads hgive ?_)
    simp [declarationBody, statementAt, statement, Bind.bind, peek, next, hk]
  | leftParen =>
    have hblock : Parser.Reads (fun _ => True) (do
        return Stmt.block (← block (statementAt n .declaration))) c.advance fun _ _ _ => True :=
      .bind (forms_block (hinner .declaration) c.advance (Nat.le_refl _)) fun _ _ _ _ _ => .pure trivial
    refine .inl (.of_reads hblock ?_)
    simp [declarationBody, statementAt, statement, Bind.bind, peek, next, hk]
  -- Any other token begins an expression or none; then nothing may have been read.
  | _ =>
    refine .inr ⟨rfl, .step (.refl c) (q := do
      let value ← expression
      let _ ← expect .semicolon (.semicolon .expression)
      return .expression value) ?_ ?_⟩
    · simp [declarationBody, statementAt, statement, Bind.bind, peek, hk]
    · refine .bind (numbers_expression _) fun _ _ _ _ _ => ?_
      exact .expect (by decide) fun _ _ _ => .pure (by simp)

/-- Skipping leaves no more than there was. -/
theorem Cursor.size_settle_le (n : Nat) (c : Cursor) : (Cursor.settle n c).size ≤ c.size := by
  induction n generalizing c with
  | zero => exact Nat.le_refl _
  | succ n ih =>
    unfold Cursor.settle
    split
    · exact Nat.le_refl _
    · exact Nat.le_trans (ih c.advance) c.size_advance_le

/-- Nor does recovery. -/
theorem Cursor.size_recover_le (c : Cursor) : c.recover.size ≤ c.size := by
  unfold Cursor.recover
  split
  · exact Nat.le_refl _
  · exact Nat.le_trans (Cursor.size_settle_le _ _) c.size_advance_le

/-- A parser that reads something, with at most `k` tokens left, unless it is at the end. -/
def Parser.Consumes (k : Nat) (p : Parser Stmt) : Prop :=
  ∀ {c c₁ : Cursor} {s : Stmt}, c.size ≤ k → c.Sealed (fun _ => True) →
    c.current.kind ≠ .endOfSource → p c = .done s c₁ → c₁.size < c.size

/-- A declaration that goes on from behind the current token has read that, also if it recovers. -/
theorem Parser.Advances.size_lt {p : Parser Stmt} {c₁ : Cursor} {s : Stmt} (h : p.Advances c)
    (hs : c.Sealed (fun _ => True)) (hk : c.current.kind ≠ .endOfSource)
    (heq : recovering p c = .done s c₁) : c₁.size < c.size := by
  obtain ⟨q, hq, hreads⟩ := h
  have hsize := hs.size_advance hk
  have hreads := hreads ((Cursor.Reaches.advance hs hk).sealed hs)
  unfold recovering at heq
  rw [hq] at heq
  split at heq
  · next s' c' hdone =>
    rw [hdone] at hreads
    obtain ⟨-, rfl⟩ := Parsing.done.inj heq
    obtain ⟨read, hr, -⟩ := hreads
    have := hr.size_le
    omega
  · next c' hunwound =>
    rw [hunwound] at hreads
    obtain ⟨-, rfl⟩ := Parsing.done.inj heq
    obtain ⟨read, hr, -⟩ := hreads
    have := hr.size_le
    have := c'.size_recover_le
    omega

/-- So has one that reads something if it makes no mistake: where it has read nothing, recovery skips
the current token, which starts no statement. -/
theorem Parser.Reads.size_lt {p : Parser Stmt} {c₁ : Cursor} {s : Stmt}
    (h : p.Reads (fun _ => True) c fun read _ _ => read ≠ []) (hs : c.Sealed (fun _ => True))
    (hk : c.current.kind ≠ .endOfSource) (hstarts : c.current.kind.startsStatement = false)
    (heq : recovering p c = .done s c₁) : c₁.size < c.size := by
  have hreads := h hs
  unfold recovering at heq
  split at heq
  · next s' c' hdone =>
    rw [hdone] at hreads
    obtain ⟨-, rfl⟩ := Parsing.done.inj heq
    obtain ⟨read, hr, hne⟩ := hreads
    have := hr.size
    have := List.length_pos_of_ne_nil hne
    omega
  · next c' hunwound =>
    rw [hunwound] at hreads
    obtain ⟨-, rfl⟩ := Parsing.done.inj heq
    obtain ⟨read, hr, -⟩ := hreads
    have hle := hr.size
    cases read with
    | cons t read =>
      have := c'.size_recover_le
      simp only [List.length_cons] at hle
      omega
    | nil =>
      have hcurrent : c'.current = c.current := (List.cons.inj hr.tokens).1.symm
      rw [Cursor.recover, if_neg (by simp [hcurrent, hstarts])]
      have hadvance := (hr.sealed hs).size_advance (by rwa [hcurrent])
      have := Cursor.size_settle_le c'.size c'.advance
      simp only [List.length_nil] at hle
      omega

/-- **A declaration always reads something**, even one that recovers from a mistake. -/
theorem consumes_statementAt {n k : Nat} (hn : 2 * k ≤ n) :
    (statementAt n .declaration).Consumes k := by
  intro c c₁ s hc hs hk heq
  have hsize := hs.size_advance hk
  have hpos := c.advance.size_pos
  obtain ⟨n, rfl⟩ := Nat.exists_eq_add_of_le' (show 2 ≤ n by omega)
  change recovering (declarationBody (statementAt (n + 1))) c = .done s c₁ at heq
  rcases @moves_declarationBody c n (by omega) with hadvances | ⟨hstarts, hreads⟩
  · exact hadvances.size_lt hs hk heq
  · exact hreads.size_lt hs hk hstarts heq

end Progress

/-! ## Statements

Both parsers recover at the same token, as recovery looks at tokens alone. -/

section Statements

open YouthLang.Parser

variable {d d' st st' : Parser Stmt} {parse parse' : Rule → Parser Stmt} {k : Nat}

/-- Two parsers of statements that, with at most `k` tokens left, are beside each other. -/
def StatementsBeside (N : Nat → Nat → Prop) (k : Nat) (p q : Parser Stmt) : Prop :=
  ∀ c : Cursor, c.size ≤ k → p.Beside N (Stmt.Alike Eq N) q c

/-- An expression that may be left out is read alike, or left out by both. -/
theorem beside_expressionUnless (kind : TokenKind) (c : Cursor) :
    (expressionUnless kind).Beside N (Option.Rel (Expr.Alike Eq N)) (expressionUnless kind) c := by
  unfold expressionUnless
  refine .sees (fun _ => .pure .none) fun _ => ?_
  exact .map (beside_expression c) fun _ _ h => .some h

/-- A declaration is read alike, with its value or without. -/
theorem beside_variableDeclaration (c : Cursor) :
    variableDeclaration.Beside N (Stmt.Alike Eq N) variableDeclaration c := by
  unfold variableDeclaration
  refine .expect (by decide) fun _ _ => .accept (by decide) (fun _ _ => ?_) fun _ => ?_
  · have hsome : Parser.Beside N (Option.Rel (Expr.Alike Eq N)) (some <$> expression)
        (some <$> expression) c.advance.advance := .map (beside_expression _) fun _ _ h => .some h
    refine .bind hsome fun e? e?' c₁ _ _ h => .expect (by decide) fun _ _ => .pure ?_
    cases h with
    | none => exact .bare rfl
    | some h => exact .declare rfl h
  · exact .expect (by decide) fun _ _ => .pure (.bare rfl)

/-- So is the first part of a loop. -/
theorem beside_loopInitializer (c : Cursor) :
    loopInitializer.Beside N (Option.Rel (Stmt.Alike Eq N)) loopInitializer c := by
  unfold loopInitializer
  refine .accept (by decide) (fun _ _ => .pure .none) fun _ => .accept (by decide) (fun _ _ => ?_)
    fun _ => ?_
  · exact .bind (beside_variableDeclaration _) fun _ _ _ _ _ h => .pure (.some h)
  · refine .bind (beside_expression c) fun e e' c₁ _ _ h => ?_
    exact .expect (by decide) fun _ _ => .pure (.some (.expression h))

/-- Bounds that are both large enough make no difference to parameters. -/
theorem beside_parametersFrom : ∀ (n m : Nat) {read : List Token} (c : Cursor), c.size ≤ n →
    c.size ≤ m → (parametersFrom n read).Beside N Eq (parametersFrom m read) c
  | 0, _, _, c, hn, _ | _, 0, _, c, _, hn => absurd c.size_pos (by omega)
  | n + 1, m + 1, read, c, hn, hm => by
      unfold parametersFrom
      have hmore : ∀ c : Cursor, c.size ≤ n + 1 → c.size ≤ m + 1 → Parser.Beside N Eq (do
            let name ← expect .identifier (.name .parameter)
            if ← accept .comma then parametersFrom n (name :: read)
            else pure (name :: read).reverse) (do
            let name ← expect .identifier (.name .parameter)
            if ← accept .comma then parametersFrom m (name :: read)
            else pure (name :: read).reverse) c := by
        intro c hn hm
        refine .expect (by decide) fun _ hsize => .accept (by decide) (fun _ hsize' => ?_) fun _ => ?_
        · exact beside_parametersFrom n m _ (by omega) (by omega)
        · exact .pure rfl
      split
      · exact .peek (.report (hmore _ hn hm))
      · exact hmore c hn hm

/-- A list of parameters has no numbers in it, so it is the same. -/
theorem beside_parameterList (c : Cursor) : parameterList.Beside N Eq parameterList c := by
  unfold parameterList
  refine .sees (fun _ => .pure rfl) fun _ => .remaining ?_
  exact beside_parametersFrom _ _ c (Nat.le_refl _) (Nat.le_refl _)

/-- Declarations are read alike one by one, as each consumes a token. -/
theorem beside_declarationsFrom (hd : StatementsBeside N k d d') (hmoves : d.Consumes k) :
    ∀ (n m : Nat) {read read' : List Stmt} (c : Cursor),
      List.Forall₂ (Stmt.Alike Eq N) read read' → c.size ≤ k → c.size ≤ n → c.size ≤ m →
      (declarationsFrom d n read).Beside N (BodyAlike Eq N) (declarationsFrom d' m read') c
  | 0, _, _, _, c, _, _, hn, _ | _, 0, _, _, c, _, _, _, hn => absurd c.size_pos (by omega)
  | n + 1, m + 1, read, read', c, h, hc, hn, hm => by
      refine .of_sealed fun hs => ?_
      unfold declarationsFrom
      refine .peek ?_
      split
      · exact .pure (bodyAlike_iff.mpr (List.forall₂_reverse_iff.mpr h))
      · next hgo =>
        have hk : c.current.kind ≠ .endOfSource := fun hk => hgo (by simp [hk])
        refine .bind (hd c hc) fun s s' c₁ hdone hle hs' => ?_
        have hlt := hmoves hc hs hk hdone
        exact beside_declarationsFrom hd hmoves n m c₁ (.cons hs' h) (by omega) (by omega) (by omega)

/-- A block is read alike where declarations are. -/
theorem beside_block (hd : StatementsBeside N k d d') (hmoves : d.Consumes k) (c : Cursor)
    (hc : c.size ≤ k) : (block d).Beside N (BodyAlike Eq N) (block d') c := by
  unfold block
  refine .remaining (.bind (beside_declarationsFrom hd hmoves _ _ c .nil hc (Nat.le_refl _)
    (Nat.le_refl _)) fun body body' c₁ _ _ h => ?_)
  exact .expect (by decide) fun _ _ => .pure h

/-- So is a routine. -/
theorem beside_routine (kind : Routine) (hd : StatementsBeside N k d d') (hmoves : d.Consumes k)
    (c : Cursor) (hc : c.size ≤ k) :
    (routine kind d).Beside N (Function.Alike Eq N) (routine kind d') c := by
  unfold routine
  refine .expect (by decide) fun _ h₁ => .expect (by decide) fun _ h₂ => ?_
  refine .bind (beside_parameterList _) ?_
  rintro ps _ c₁ - hle rfl
  refine .expect (by decide) fun _ h₃ => .expect (by decide) fun _ h₄ => ?_
  refine .bind (beside_block hd hmoves _ (by omega)) fun body body' c₂ _ _ h => .pure ?_
  exact .mk rfl (List.forall₂_refl ps) h

/-- So are methods, one by one. -/
theorem beside_methodsFrom (hd : StatementsBeside N k d d') (hmoves : d.Consumes k) :
    ∀ (n m : Nat) {read read' : List Function} (c : Cursor),
      List.Forall₂ (Function.Alike Eq N) read read' → c.size ≤ k → c.size ≤ n → c.size ≤ m →
      (methodsFrom d n read).Beside N (MethodsAlike Eq N) (methodsFrom d' m read') c
  | 0, _, _, _, c, _, _, hn, _ | _, 0, _, _, c, _, _, _, hn => absurd c.size_pos (by omega)
  | n + 1, m + 1, read, read', c, h, hc, hn, hm => by
      unfold methodsFrom
      refine .peek ?_
      split
      · exact .pure (methodsAlike_iff.mpr (List.forall₂_reverse_iff.mpr h))
      · refine .expect (by decide) fun _ hsize => ?_
        refine .bind (beside_routine .method hd hmoves c.advance (by omega))
          fun f f' c₁ _ hle hf => ?_
        exact beside_methodsFrom hd hmoves n m c₁ (.cons hf h) (by omega) (by omega) (by omega)

/-- So is a class. -/
theorem beside_youthDeclaration (hd : StatementsBeside N k d d') (hmoves : d.Consumes k) (c : Cursor)
    (hc : c.size ≤ k) :
    (youthDeclaration d).Beside N (Stmt.Alike Eq N) (youthDeclaration d') c := by
  unfold youthDeclaration
  refine .expect (by decide) fun _ h₁ => .expect (by decide) fun _ h₂ => .remaining ?_
  refine .bind (beside_methodsFrom hd hmoves _ _ _ .nil (by omega) (Nat.le_refl _) (Nat.le_refl _))
    fun ms ms' c₁ _ _ h => ?_
  exact .expect (by decide) fun _ _ => .pure (.youth rfl h)

/-- A loop has a statement inside only behind a token of its own. -/
theorem beside_forStatement (hst : StatementsBeside N k st st') :
    StatementsBeside N (k + 1) (forStatement st) (forStatement st') := fun c hc => by
  unfold forStatement
  refine .expect (by decide) fun _ h₁ => ?_
  refine .bind (beside_loopInitializer _) fun s? s?' c₁ _ hle₁ hs => ?_
  refine .bind (beside_expressionUnless .semicolon c₁) fun e e' c₂ _ hle₂ hcondition => ?_
  refine .expect (by decide) fun _ h₂ => ?_
  refine .bind (beside_expressionUnless .rightParen _) fun i i' c₃ _ hle₃ hincrement => ?_
  refine .expect (by decide) fun _ h₃ => ?_
  refine .bind (hst _ (by omega)) fun body body' c₄ _ _ hbody => .pure ?_
  rw [Grammar.countingLoop_eq_loopOf, Grammar.countingLoop_eq_loopOf]
  exact Grammar.alike_loopOf hs hcondition hincrement hbody

/-- So has a choice. -/
theorem beside_ifStatement (hst : StatementsBeside N k st st') :
    StatementsBeside N (k + 1) (ifStatement st) (ifStatement st') := fun c hc => by
  unfold ifStatement
  refine .expect (by decide) fun _ h₁ => ?_
  refine .bind (beside_expression _) fun e e' c₁ _ hle₁ hcondition => ?_
  refine .expect (by decide) fun _ h₂ => ?_
  refine .bind (hst _ (by omega)) fun yes yes' c₂ _ hle₂ hyes => ?_
  refine .accept (by decide) (fun _ h₃ => ?_) fun _ => .pure (.branch hcondition hyes)
  refine .bind (hst _ (by omega)) fun no no' c₃ _ _ hno => .pure ?_
  exact .branches hcondition hyes hno

/-- So has the other loop. -/
theorem beside_whileStatement (hst : StatementsBeside N k st st') :
    StatementsBeside N (k + 1) (whileStatement st) (whileStatement st') := fun c hc => by
  unfold whileStatement
  refine .expect (by decide) fun _ h₁ => ?_
  refine .bind (beside_expression _) fun e e' c₁ _ hle₁ hcondition => ?_
  refine .expect (by decide) fun _ h₂ => ?_
  exact .bind (hst _ (by omega)) fun body body' c₂ _ _ hbody => .pure (.loop hcondition hbody)

/-- Each kind of statement is read alike where what stands inside it is. -/
theorem beside_statement (hd : StatementsBeside N k (parse .declaration) (parse' .declaration))
    (hmoves : (parse .declaration).Consumes k)
    (hst : StatementsBeside N k (parse .statement) (parse' .statement)) :
    StatementsBeside N (k + 1) (statement parse) (statement parse') := fun c hc => by
  unfold statement
  refine .peek ?_
  cases hk : c.current.kind with
  | forKey => exact .next (by simp [hk]) fun hsize => beside_forStatement hst _ (by omega)
  | ifKey => exact .next (by simp [hk]) fun hsize => beside_ifStatement hst _ (by omega)
  | whileKey => exact .next (by simp [hk]) fun hsize => beside_whileStatement hst _ (by omega)
  | tellKey =>
    refine .next (by simp [hk]) fun _ => .bind (beside_expression _) fun e e' c₁ _ _ h => ?_
    exact .expect (by decide) fun _ _ => .pure (.tell h)
  | giveKey =>
    refine .next (by simp [hk]) fun _ => .bind (beside_expressionUnless .semicolon _) ?_
    intro e e' c₁ _ _ h
    refine .expect (by decide) fun _ _ => .pure ?_
    cases h with
    | none => exact .giveNothing rfl
    | some h => exact .give rfl h
  | leftParen =>
    refine .next (by simp [hk]) fun hsize => .bind (beside_block hd hmoves _ (by omega)) ?_
    exact fun body body' c₁ _ _ h => .pure (.block h)
  | _ =>
    refine .bind (beside_expression _) fun e e' c₁ _ _ h => ?_
    exact .expect (by decide) fun _ _ => .pure (.expression h)

/-- So is each kind of declaration. -/
theorem beside_declarationBody (hd : StatementsBeside N k (parse .declaration) (parse' .declaration))
    (hmoves : (parse .declaration).Consumes k)
    (hst : StatementsBeside N (k + 1) (parse .statement) (parse' .statement)) :
    StatementsBeside N (k + 1) (declarationBody parse) (declarationBody parse') := fun c hc => by
  unfold declarationBody
  refine .peek ?_
  cases hk : c.current.kind with
  | youthKey => exact .next (by simp [hk]) fun hsize => beside_youthDeclaration hd hmoves _ (by omega)
  | listenKey =>
    refine .next (by simp [hk]) fun hsize => ?_
    refine .bind (beside_routine .function hd hmoves _ (by omega)) ?_
    exact fun f f' c₁ _ _ h => .pure (.function h)
  | isKey => exact .next (by simp [hk]) fun _ => beside_variableDeclaration _
  | _ => exact hst c hc

/-- Both recover, or neither does. -/
theorem beside_recovering {p q : Parser Stmt} (hp : StatementsBeside N k p q) :
    StatementsBeside N k (recovering p) (recovering q) := fun c hc hs c' hbeside => by
  have hp := hp c hc hs c' hbeside
  unfold recovering
  generalize p c = x, q c' = y at hp
  cases hp with
  | done hl hc h => exact .done hl hc h
  | unwound hl hc => exact .done (hl.trans (.recover (hl.sealed hs))) hc.recover .failed

/-- Statements are parsed alike, with any nesting allowed for that is enough. -/
theorem beside_statementAt : ∀ n m k : Nat,
    (2 * k ≤ n → 2 * k ≤ m → StatementsBeside N k (statementAt n .declaration)
      (statementAt m .declaration))
    ∧ (2 * k ≤ n + 1 → 2 * k ≤ m + 1 → StatementsBeside N k (statementAt n .statement)
      (statementAt m .statement))
  | _, _, 0 =>
      ⟨fun _ _ c hc => absurd c.size_pos (by omega), fun _ _ c hc => absurd c.size_pos (by omega)⟩
  | 0, _, k + 1 => ⟨fun hn => absurd hn (by omega), fun hn => absurd hn (by omega)⟩
  | _, 0, k + 1 => ⟨fun _ hm => absurd hm (by omega), fun _ hm => absurd hm (by omega)⟩
  | n + 1, m + 1, k + 1 => by
      refine ⟨fun hn hm => beside_recovering (beside_declarationBody ?_ ?_ ?_), fun hn hm => ?_⟩
      · exact (beside_statementAt n m k).1 (by omega) (by omega)
      · exact consumes_statementAt (by omega)
      · exact (beside_statementAt n m (k + 1)).2 (by omega) (by omega)
      · exact beside_statement ((beside_statementAt n m k).1 (by omega) (by omega))
          (consumes_statementAt (by omega)) ((beside_statementAt n m k).2 (by omega) (by omega))

/-- **However numbers are drawn, a declaration is read alike.** -/
theorem beside_declaration (c : Cursor) :
    declaration.Beside N (Stmt.Alike Eq N) declaration c :=
  .remaining ((beside_statementAt _ _ _).1 (Nat.le_refl _) (Nat.le_refl _) c (Nat.le_refl _))

end Statements

/-! ## Programs -/

/-- Declaration by declaration a program is read alike. -/
theorem beside_programFrom : ∀ (n : Nat) {read read' : List Stmt} {c c' : Cursor},
    c.Sealed (fun _ => True) → c.Beside N c' → List.Forall₂ (Stmt.Alike Eq N) read read' →
      BodyAlike Eq N (programFrom n read c).1 (programFrom n read' c').1
        ∧ (programFrom n read c).2.Beside N (programFrom n read' c').2
        ∧ c.Leads (programFrom n read c).2
  | 0, _, _, c, _, _, hc, h => ⟨bodyAlike_iff.mpr (List.forall₂_reverse_iff.mpr h), hc, .refl c⟩
  | n + 1, read, read', c, c', hs, hc, h => by
      have hd := beside_declaration c hs c' hc
      have hend : c'.atEnd = c.atEnd := by
        obtain ⟨n, others, rfl, -⟩ := hc
        rfl
      have hread := bodyAlike_iff.mpr (List.forall₂_reverse_iff.mpr h)
      unfold programFrom
      rw [hend]
      split
      · exact ⟨hread, hc, .refl c⟩
      · generalize declaration c = x, declaration c' = y at hd
        cases hd with
        | done hl hc₁ hs' =>
          obtain ⟨hbody, hbeside, hl'⟩ := beside_programFrom n (hl.sealed hs) hc₁ (.cons hs' h)
          exact ⟨hbody, hbeside, hl.trans hl'⟩
        | unwound hl hc₁ => exact ⟨hread, hc₁, hl⟩

/-- **What a program is and what is wrong with it** does not depend on the numbers that its nodes get,
wherever they start and whatever numbers others take in between. -/
theorem parse_beside (node node' : Nat) {tokens : List Token}
    (hlast : ∃ t, tokens.getLast? = some t ∧ t.kind = .endOfSource) (others others' : List Nat := []) :
    BodyAlike Eq AnyNode (parse node tokens others).statements (parse node' tokens others').statements
      ∧ (parse node tokens others).diagnostics = (parse node' tokens others').diagnostics
      ∧ ∀ d ∈ (parse node tokens others).diagnostics, d.cause.stage = .grammatical := by
  cases tokens with
  | nil => exact ⟨.nil, rfl, by simp [parse]⟩
  | cons t ts =>
    have hbeside : (Cursor.start node t ts others).Beside AnyNode (.start node' t ts others') :=
      ⟨node', _, rfl, fun _ => trivial⟩
    have hsealed : (Cursor.start node t ts others).Sealed (fun _ => True) :=
      ⟨hlast, fun _ _ => trivial⟩
    obtain ⟨hbody, ⟨n, _, hc, -⟩, hl⟩ := beside_programFrom (ts.length + 1) hsealed hbeside .nil
    have hmistakes := congrArg (fun c : Cursor => c.mistakes.reverse) hc
    refine ⟨hbody, hmistakes.symm, fun d hd => ?_⟩
    exact (hl.stage d (List.mem_reverse.mp hd)).resolve_left List.not_mem_nil

end YouthLang

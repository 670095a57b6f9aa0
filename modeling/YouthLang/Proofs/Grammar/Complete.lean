import YouthLang.Proofs.Alike
import YouthLang.Proofs.Grammar
import YouthLang.Proofs.Formed

/-!
# Proofs/Grammar/Complete — a phrase is parsed without a mistake

One lemma for each rule of the parser: on the tokens of a phrase, followed by a token that the phrase
could not go on with, the parser reads the phrase and makes its tree.  The tokens may be other ones of
the same kinds (`Moved`), and then the tree is the same one with those tokens.
-/

namespace YouthLang.Grammar

open YouthLang.Parser

/-- A token in the place of another one. -/
def Moved (f : Token → Token) (t t' : Token) : Prop := t' = f t

/-- A parser that, with at most `k` tokens left, reads the phrases of a rule that are followed by a
token of some sort. -/
def Complete {α : Type} (f : Token → Token) (k : Nat) (p : Parser α) (phrase : Phrase α)
    (follow : Token → Prop) (same : α → α → Prop) : Prop :=
  ∀ ts a t us, phrase ts a → follow t → ts.length + us.length < k →
    p.Accepts (ts.map f ++ t :: us) (t :: us) (same a)

/-! ## Tails

The grammar takes the last operator off a chain first, and the parser reads the first one first.  A
tail is what is left of a chain when some of it has been read, so it can be followed round by round.
-/

/-- Some steps, one after the other, that each make an expression of the one before it. -/
inductive Tail (step : Expr → Phrase Expr) : Expr → Phrase Expr
  | nil {e} : Tail step e [] e
  | cons {e ts e' us e''} (h : step e ts e') (hrest : Tail step e' us e'') :
      Tail step e (ts ++ us) e''

/-- A tail may be taken one step further at its end. -/
theorem Tail.snoc {step : Expr → Phrase Expr} {e e' e'' : Expr} {ts us : List Token}
    (h : Tail step e ts e') (hlast : step e' us e'') : Tail step e (ts ++ us) e'' := by
  induction h with
  | nil => simpa using Tail.cons hlast .nil
  | cons hfirst _ ih => simpa using Tail.cons hfirst (ih hlast)

/-- An operator and its right operand. -/
inductive Operator (level : Level) (operand : Phrase Expr) : Expr → Phrase Expr
  | mk {left t node us right} (hnode : level.node? t = some node) (hright : operand us right) :
      Operator level operand left (t :: us) (node left right)

/-- A call or a property. -/
inductive Suffix (expression : Phrase Expr) : Expr → Phrase Expr
  | call {e left us es right} (hleft : left.kind = .leftParen) (harguments : Listed expression us es)
      (hright : right.kind = .rightParen) :
      Suffix expression e (left :: (us ++ [right])) (.call e right es)
  | get {e dot name} (hdot : dot.kind = .dot) (hname : name.kind = .identifier) :
      Suffix expression e [dot, name] (.get e name)

section Expressions

variable {phrase : Phrase Expr} {ts : List Token} {e : Expr}

/-- A chain is an operand and operators behind it. -/
theorem Chain.tail {level : Level} (h : Chain level phrase ts e) : ∃ us first vs,
    ts = us ++ vs ∧ phrase us first ∧ Tail (Operator level phrase) first vs e := by
  induction h with
  | operand h => exact ⟨_, _, [], by simp, h, .nil⟩
  | operator _ hnode hright ih =>
    obtain ⟨us, first, vs, rfl, hfirst, htail⟩ := ih
    exact ⟨us, first, _, by simp, hfirst, htail.snoc (.mk hnode hright)⟩

/-- A suffixed expression is a primary one and suffixes behind it. -/
theorem Suffixed.tail (h : Suffixed phrase ts e) : ∃ us first vs,
    ts = us ++ vs ∧ Primary phrase us first ∧ Tail (Suffix phrase) first vs e := by
  induction h with
  | primary h => exact ⟨_, _, [], by simp, h, .nil⟩
  | call _ hleft harguments hright ih =>
    obtain ⟨us, first, vs, rfl, hfirst, htail⟩ := ih
    exact ⟨us, first, _, by simp, hfirst, htail.snoc (.call hleft harguments hright)⟩
  | get _ hdot hname ih =>
    obtain ⟨us, first, vs, rfl, hfirst, htail⟩ := ih
    exact ⟨us, first, _, by simp, hfirst, htail.snoc (.get hdot hname)⟩

end Expressions

/-! ## What may follow

A phrase is read to its end only if the parser does not go on behind it.  Each kind of phrase says
what may stand there: no operator of its levels, no suffix, and behind a statement that leaves a
choice open no `else`. -/

/-- A token that ends the suffixes and the operators of some levels. -/
structure Ends (levels : List Level) (t : Token) : Prop where
  paren : t.kind ≠ .leftParen
  dot : t.kind ≠ .dot
  operator : ∀ level ∈ levels, level.node? t = none

/-- A token that ends an expression. -/
def Closes (t : Token) : Prop :=
  t.kind = .rightParen ∨ t.kind = .comma ∨ t.kind = .semicolon

/-- The levels of the operators. -/
def allLevels : List Level := [.disjunction, .conjunction, .equality, .comparison, .sum, .product]

/-- What closes an expression ends every level of operators. -/
theorem Closes.ends {t : Token} (h : Closes t) : Ends allLevels t := by
  rcases h with h | h | h <;>
    exact ⟨by simp [h], by simp [h], by simp [allLevels, Level.node?, h]⟩

/-- So does the sign of an assignment, which no level has among its operators. -/
theorem ends_of_equal {t : Token} (h : t.kind = .equal) : Ends allLevels t :=
  ⟨by simp [h], by simp [h], by simp [allLevels, Level.node?, h]⟩

/-- A token that no expression goes on with. -/
structure Bounds (t : Token) : Prop where
  ends : Ends allLevels t
  equal : t.kind ≠ .equal

/-- What closes an expression may follow one. -/
theorem Closes.bounds {t : Token} (h : Closes t) : Bounds t :=
  ⟨h.ends, by rcases h with h | h | h <;> simp [h]⟩

/-- An operator belongs to one level. -/
theorem Level.ends_of_node? {level : Level} {levels : List Level} {t : Token}
    {node : Expr → Expr → Expr} (h : level.node? t = some node) (hlevel : level ∉ levels) :
    Ends levels t := by
  unfold Level.node? at h
  refine ⟨fun hk => ?_, fun hk => ?_, fun other hother => ?_⟩
  · simp [hk] at h
  · simp [hk] at h
  · have hne : other ≠ level := fun he => hlevel (he ▸ hother)
    unfold Level.node?
    split at h
    case h_13 => cases h
    all_goals
      next hk =>
      rw [hk]
      cases other <;> first | rfl | exact absurd rfl hne

/-! ## Expressions

The rules contain each other, so every lemma is about phrases with fewer tokens than some number,
and assumes the rule for expressions of fewer. -/

section Parsing

variable {f : Token → Token} {expression operand : Parser Expr} {phrase : Phrase Expr} {k : Nat}

/-- An operator in the place of another one makes a like node. -/
theorem Level.node?_moved {level : Level} {t : Token} {node : Expr → Expr → Expr}
    (hf : ∀ t, (f t).kind = t.kind) (h : level.node? t = some node) :
    ∃ node', level.node? (f t) = some node' ∧ ∀ {l l' r r' : Expr}, l.Alike (Moved f) AnyNode l' →
      r.Alike (Moved f) AnyNode r' → (node l r).Alike (Moved f) AnyNode (node' l' r') := by
  unfold Level.node? at h ⊢
  rw [hf]
  split at h <;> simp only [Option.some.injEq, reduceCtorEq] at h <;> subst h
  all_goals
    refine ⟨_, rfl, fun hl hr => ?_⟩
    constructor
    · rfl
    · exact hl
    · exact hr

/-- Behind an operand stands an operator, or what ends the chain. -/
theorem Tail.follow {level : Level} {levels : List Level} {t : Token}
    (hf : ∀ t, (f t).kind = t.kind) (hlevel : level ∉ levels) (ht : Ends (level :: levels) t)
    {e e' : Expr} {ts : List Token} (h : Tail (Operator level phrase) e ts e') (us : List Token) :
    ∃ t' us', ts.map f ++ t :: us = t' :: us' ∧ Ends levels t' := by
  cases h with
  | nil =>
    exact ⟨t, us, rfl, ht.paren, ht.dot, fun l hl => ht.operator l (List.mem_cons_of_mem _ hl)⟩
  | cons h _ =>
    obtain ⟨hnode, -⟩ := h
    obtain ⟨node', hnode', -⟩ := Level.node?_moved hf hnode
    exact ⟨_, _, rfl, Level.ends_of_node? hnode' hlevel⟩

/-- **A chain is read round by round.** The induction is on its tail; the bound is large enough
because each round takes an operator. -/
theorem complete_chainFrom {level : Level} {levels : List Level} (hf : ∀ t, (f t).kind = t.kind)
    (hlevel : level ∉ levels)
    (hop : Complete f k operand phrase (Ends levels) (Expr.Alike (Moved f) AnyNode)) {t : Token}
    {us : List Token} (ht : Ends (level :: levels) t) {left e : Expr} {ts : List Token}
    (h : Tail (Operator level phrase) left ts e) : ∀ (n : Nat) (left' : Expr),
      left.Alike (Moved f) AnyNode left' → ts.length ≤ n → ts.length + us.length < k →
      (chainFrom level operand n left').Accepts (ts.map f ++ t :: us) (t :: us)
        (e.Alike (Moved f) AnyNode) := by
  induction h with
  | nil =>
    intro n left' hleft _ _
    cases n with
    | zero => exact .pure hleft
    | succ n =>
      unfold chainFrom
      refine .peek ?_
      simp only [ht.operator level List.mem_cons_self]
      exact .pure hleft
  | @cons left _ _ vs e h hrest ih =>
    intro n left' hleft hn hk
    cases h with
    | @mk op node us' right hnode hright =>
      obtain ⟨node', hnode', halike⟩ := Level.node?_moved hf hnode
      obtain ⟨t', rest, heq, ht'⟩ := hrest.follow hf hlevel ht us
      have hlen := congrArg List.length heq
      simp only [List.length_append, List.length_cons, List.length_map] at hlen hn hk
      obtain ⟨n, rfl⟩ := Nat.exists_eq_add_of_lt (show 0 < n by omega)
      simp only [List.map_append, List.map_cons, List.cons_append, List.append_assoc, heq,
        Nat.zero_add]
      unfold chainFrom
      refine .peek ?_
      simp only [hnode']
      refine .next (Level.kind_ne_endOfSource hnode') (by simp) ?_
      refine .bind (hop us' right t' rest hright ht' (by omega)) fun right' hright' => ?_
      rw [← heq]
      exact ih n _ (halike hleft hright') (by omega) (by omega)

/-- The loop is given a round for every token, which is as many as it can take. -/
theorem complete_chain (level : Level) {levels : List Level} (hf : ∀ t, (f t).kind = t.kind)
    (hlevel : level ∉ levels)
    (hop : Complete f k operand phrase (Ends levels) (Expr.Alike (Moved f) AnyNode)) :
    Complete f k (chain level operand) (Chain level phrase) (Ends (level :: levels))
      (Expr.Alike (Moved f) AnyNode) := by
  intro ts e t us h ht hk
  obtain ⟨ts, first, vs, rfl, hfirst, htail⟩ := h.tail
  obtain ⟨t', rest, heq, ht'⟩ := htail.follow hf hlevel ht us
  have hlen := congrArg List.length heq
  simp only [List.length_append, List.length_cons, List.length_map] at hlen hk
  simp only [List.map_append, List.append_assoc, heq]
  unfold chain
  refine .bind (hop ts first t' rest hfirst ht' (by omega)) fun first' hfirst' => .remaining ?_
  rw [← heq]
  refine complete_chainFrom hf hlevel hop ht htail _ first' hfirst' ?_ (by omega)
  simp

/-- There is at most one more item than there are tokens, as a comma stands between any two. -/
theorem Separated.length_le {α : Type} {item : Phrase α} {ts : List Token} {as : List α}
    (h : Separated item ts as) : as.length ≤ ts.length + 1 := by
  induction h with
  | one _ => simp
  | more _ _ _ ih =>
    simp only [List.length_append, List.length_cons]
    omega

/-- Arguments are read one by one, with as many as the limit allows and none reported. -/
theorem complete_argumentsFrom (hf : ∀ t, (f t).kind = t.kind)
    (hex : Complete f k expression phrase Closes (Expr.Alike (Moved f) AnyNode)) {t : Token}
    {us : List Token} (ht : t.kind = .rightParen) {ts : List Token} {es : List Expr}
    (h : Separated phrase ts es) : ∀ (n : Nat) (prior : List Expr), es.length ≤ n →
      prior.length + es.length ≤ maxArguments → ts.length + us.length < k →
      (argumentsFrom expression n prior).Accepts (ts.map f ++ t :: us) (t :: us) fun es' =>
        ∃ more, es' = prior.reverse ++ more ∧ ArgumentsAlike (Moved f) AnyNode es more := by
  induction h with
  | @one ts e he =>
    intro n prior hn hmax hk
    obtain ⟨n, rfl⟩ := Nat.exists_eq_succ_of_ne_zero (Nat.ne_of_gt hn)
    unfold argumentsFrom
    simp only [List.length_singleton] at hmax
    rw [if_neg (by omega)]
    refine .bind (hex ts e t us he (.inl ht) hk) fun e' he' => .accept_no (by simp [ht]) (.pure ?_)
    exact ⟨[e'], by simp, .cons he' .nil⟩
  | @more ts e comma us' es he hcomma hrest ih =>
    intro n prior hn hmax hk
    simp only [List.length_append, List.length_cons] at hn hmax hk
    obtain ⟨n, rfl⟩ := Nat.exists_eq_succ_of_ne_zero (Nat.ne_of_gt (Nat.lt_of_lt_of_le
      (Nat.succ_pos _) hn))
    unfold argumentsFrom
    rw [if_neg (by omega)]
    simp only [List.map_append, List.map_cons, List.cons_append, List.append_assoc]
    refine .bind (hex ts e (f comma) _ he (.inr (.inl ((hf _).trans hcomma))) ?_) fun e' he' => ?_
    · simp only [List.length_append, List.length_cons, List.length_map]
      omega
    · refine .accept_yes ((hf _).trans hcomma) (by decide) (by simp) ?_
      refine .mono (ih n (e' :: prior) (by omega) ?_ (by omega)) ?_
      · simp only [List.length_cons]
        omega
      · rintro _ ⟨more, rfl, hmore⟩
        exact ⟨e' :: more, by simp, .cons he' hmore⟩

/-- A list of arguments is read to its parenthesis, which nothing in an expression starts with. -/
theorem complete_callArguments (hf : ∀ t, (f t).kind = t.kind)
    (hstarts : ∀ {ts e}, phrase ts e → Starts ts)
    (hex : Complete f k expression phrase Closes (Expr.Alike (Moved f) AnyNode)) :
    Complete f k (callArguments expression) (Listed phrase) (fun t => t.kind = .rightParen)
      (ArgumentsAlike (Moved f) AnyNode) := by
  intro ts es t us h ht hk
  unfold callArguments
  cases h with
  | none => exact .sees_yes ht (.pure .nil)
  | some h hmax =>
    obtain ⟨t', ts', rfl, ht'⟩ : Starts ts := by
      cases h with
      | one h => exact hstarts h
      | more h _ _ => exact (hstarts h).append
    simp only [List.map_cons, List.cons_append]
    refine .sees_no (fun hk => ?_) (.remaining ?_)
    · rw [hf] at hk
      simp [hk, startsExpression] at ht'
    · refine .mono (complete_argumentsFrom hf hex ht h _ [] ?_ (by simpa using hmax) hk) ?_
      · have := h.length_le
        simp only [List.length_cons, List.length_append, List.length_map] at this ⊢
        omega
      · rintro _ ⟨more, rfl, hmore⟩
        exact hmore

/-- Calls and fields behind an operand are read one by one, on whatever tree stands before them. -/
theorem complete_suffixesFrom (hf : ∀ t, (f t).kind = t.kind)
    (hstarts : ∀ {ts e}, phrase ts e → Starts ts)
    (hex : Complete f k expression phrase Closes (Expr.Alike (Moved f) AnyNode)) {t : Token}
    {us : List Token} (ht : Ends [] t) {e e' : Expr} {ts : List Token}
    (h : Tail (Suffix phrase) e ts e') : ∀ (n : Nat) (e₁ : Expr), e.Alike (Moved f) AnyNode e₁ →
      ts.length ≤ n → ts.length + us.length < k + 1 →
      (suffixesFrom expression n e₁).Accepts (ts.map f ++ t :: us) (t :: us)
        (e'.Alike (Moved f) AnyNode) := by
  induction h with
  | nil =>
    intro n e₁ he _ _
    cases n with
    | zero => exact .pure he
    | succ n =>
      unfold suffixesFrom
      exact .accept_no ht.paren (.accept_no ht.dot (.pure he))
  | @cons e _ _ vs e' h hrest ih =>
    intro n e₁ he hn hk
    cases h with
    | @call left us' es right hleft harguments hright =>
      simp only [List.length_append, List.length_cons, List.length_nil] at hn hk
      obtain ⟨n, rfl⟩ := Nat.exists_eq_succ_of_ne_zero (show n ≠ 0 by omega)
      simp only [List.map_append, List.map_cons, List.cons_append, List.append_assoc,
        List.nil_append]
      unfold suffixesFrom
      refine .accept_yes ((hf _).trans hleft) (by decide) (by simp) ?_
      refine .bind (complete_callArguments hf hstarts hex us' es (f right) _ harguments
        ((hf _).trans hright) ?_) fun es' hes => ?_
      · simp only [List.length_append, List.length_cons, List.length_map]
        omega
      · refine .expect ((hf _).trans hright) (by decide) (by simp) ?_
        exact ih n _ (.call he rfl hes) (by omega) (by omega)
    | @get dot name hdot hname =>
      simp only [List.length_append, List.length_cons, List.length_nil] at hn hk
      obtain ⟨n, rfl⟩ := Nat.exists_eq_succ_of_ne_zero (show n ≠ 0 by omega)
      simp only [List.map_cons, List.cons_append, List.nil_append]
      unfold suffixesFrom
      refine .accept_no (by simp [hf, hdot]) ?_
      refine .accept_yes ((hf _).trans hdot) (by decide) (by simp) ?_
      refine .expect ((hf _).trans hname) (by decide) (by simp) ?_
      exact ih n _ (.get he rfl) (by omega) (by omega)

/-- An operand is told by its first token, and a parenthesised one contains fewer tokens than it
has. -/
theorem complete_primary (hf : ∀ t, (f t).kind = t.kind)
    (hex : Complete f k expression phrase Closes (Expr.Alike (Moved f) AnyNode)) :
    Complete f (k + 1) (primary expression) (Primary phrase) (fun _ => True)
      (Expr.Alike (Moved f) AnyNode) := by
  intro ts e t us h _ hk
  unfold primary
  cases h with
  | impossible h | surely h | emptiness h | number h | string h =>
    refine .peek ?_
    simp only [hf, h]
    exact .next (by simp [hf, h]) (by simp) (.pure (.literal _))
  | me h =>
    refine .peek ?_
    simp only [hf, h]
    exact .next (by simp [hf, h]) (by simp) (.freshNode fun _ => .pure (.me trivial rfl))
  | name h =>
    refine .peek ?_
    simp only [hf, h]
    exact .next (by simp [hf, h]) (by simp) (.freshNode fun _ => .pure (.variable trivial rfl))
  | @group left ts e right hleft h hright =>
    simp only [List.length_append, List.length_cons, List.length_nil] at hk
    simp only [List.map_append, List.map_cons, List.map_nil, List.cons_append, List.append_assoc,
      List.nil_append]
    refine .peek ?_
    simp only [hf, hleft]
    refine .next (by simp [hf, hleft]) (by simp) ?_
    refine .bind (hex ts e (f right) _ h (.inl ((hf _).trans hright)) ?_) fun e' he => ?_
    · simp only [List.length_cons]
      omega
    · exact .expect ((hf _).trans hright) (by decide) (by simp) (.pure (.group he))

/-- An operand is read with all its suffixes. -/
theorem complete_suffixed (hf : ∀ t, (f t).kind = t.kind)
    (hstarts : ∀ {ts e}, phrase ts e → Starts ts)
    (hex : Complete f k expression phrase Closes (Expr.Alike (Moved f) AnyNode)) :
    Complete f (k + 1) (suffixed expression) (Suffixed phrase) (Ends [])
      (Expr.Alike (Moved f) AnyNode) := by
  intro ts e t us h ht hk
  obtain ⟨ts, first, vs, rfl, hfirst, htail⟩ := h.tail
  simp only [List.length_append] at hk
  simp only [List.map_append, List.append_assoc]
  obtain ⟨t', rest, heq⟩ : ∃ t' rest, vs.map f ++ t :: us = t' :: rest :=
    List.exists_cons_of_ne_nil (by simp)
  have hlen := congrArg List.length heq
  simp only [List.length_append, List.length_cons, List.length_map] at hlen
  unfold suffixed
  rw [heq]
  refine .bind (complete_primary hf hex ts first t' rest hfirst trivial (by omega))
    fun first' hfirst' => .remaining ?_
  rw [← heq]
  refine complete_suffixesFrom hf hstarts hex ht htail _ first' hfirst' ?_ (by omega)
  simp

/-- A suffixed expression does not start with a sign. -/
theorem Suffixed.first {ts : List Token} {e : Expr} (h : Suffixed phrase ts e) :
    ∃ t us, ts = t :: us ∧ t.kind ≠ .bang ∧ t.kind ≠ .minus := by
  induction h with
  | primary h =>
    cases h with
    | impossible h | surely h | emptiness h | number h | string h | me h | name h =>
      exact ⟨_, _, rfl, by simp [h], by simp [h]⟩
    | group h _ _ => exact ⟨_, _, rfl, by simp [h], by simp [h]⟩
  | call _ _ _ _ ih =>
    obtain ⟨t, us, rfl, ht⟩ := ih
    exact ⟨t, _, rfl, ht⟩
  | get _ _ _ ih =>
    obtain ⟨t, us, rfl, ht⟩ := ih
    exact ⟨t, _, rfl, ht⟩

/-- Signs before an operand are read from the left, and the operand after the last of them. -/
theorem complete_signedFrom (hf : ∀ t, (f t).kind = t.kind)
    (hstarts : ∀ {ts e}, phrase ts e → Starts ts)
    (hex : Complete f k expression phrase Closes (Expr.Alike (Moved f) AnyNode)) {t : Token}
    {us : List Token} (ht : Ends [] t) {ts : List Token} {e : Expr} (h : Signed phrase ts e) :
    ∀ n : Nat, ts.length ≤ n → ts.length + us.length < k + 1 →
      (signedFrom expression n).Accepts (ts.map f ++ t :: us) (t :: us)
        (e.Alike (Moved f) AnyNode) := by
  -- By induction on the signs, each of which takes one from the bound.
  induction h with
  | @suffixed ts e h =>
    intro n _ hk
    have hsuffixed := complete_suffixed hf hstarts hex ts e t us h ht hk
    cases n with
    | zero => exact hsuffixed
    | succ n =>
      obtain ⟨t', ts', rfl, hbang, hminus⟩ := h.first
      unfold signedFrom
      simp only [List.map_cons, List.cons_append] at hsuffixed ⊢
      refine .peek ?_
      split
      · next hk => exact absurd ((hf t').symm.trans hk) hbang
      · next hk => exact absurd ((hf t').symm.trans hk) hminus
      · exact hsuffixed
  | @not sign ts e hsign _ ih =>
    intro n hn hk
    simp only [List.length_cons] at hn hk
    obtain ⟨n, rfl⟩ := Nat.exists_eq_succ_of_ne_zero (show n ≠ 0 by omega)
    unfold signedFrom
    simp only [List.map_cons, List.cons_append]
    refine .peek ?_
    simp only [hf, hsign]
    refine .next (by simp [hf, hsign]) (by simp) ?_
    exact .bind (ih n (by omega) (by omega)) fun e' he => .pure (.unary rfl he)
  | @negate sign ts e hsign _ ih =>
    intro n hn hk
    simp only [List.length_cons] at hn hk
    obtain ⟨n, rfl⟩ := Nat.exists_eq_succ_of_ne_zero (show n ≠ 0 by omega)
    unfold signedFrom
    simp only [List.map_cons, List.cons_append]
    refine .peek ?_
    simp only [hf, hsign]
    refine .next (by simp [hf, hsign]) (by simp) ?_
    exact .bind (ih n (by omega) (by omega)) fun e' he => .pure (.unary rfl he)

/-- The levels are read from the tightest outwards, each by the chain of the one inside. -/
theorem complete_operation (hf : ∀ t, (f t).kind = t.kind)
    (hstarts : ∀ {ts e}, phrase ts e → Starts ts)
    (hex : Complete f k expression phrase Closes (Expr.Alike (Moved f) AnyNode)) :
    Complete f (k + 1) (operation expression) (Operation phrase) (Ends allLevels)
      (Expr.Alike (Moved f) AnyNode) := by
  have hsigned : Complete f (k + 1) (signed expression) (Signed phrase) (Ends [])
      (Expr.Alike (Moved f) AnyNode) := by
    intro ts e t us h ht hk
    unfold signed
    exact .remaining (complete_signedFrom hf hstarts hex ht h _ (by simp) hk)
  intro ts e t us h ht hk
  obtain ⟨h⟩ := h
  have hproduct := complete_chain .product hf (by simp) hsigned
  have hsum := complete_chain .sum hf (by simp) hproduct
  have hcomparison := complete_chain .comparison hf (by simp) hsum
  have hequality := complete_chain .equality hf (by simp) hcomparison
  have hconjunction := complete_chain .conjunction hf (by simp) hequality
  exact complete_chain .disjunction hf (by simp) hconjunction ts e t us h ht hk

/-- A name alone, as an operation. -/
theorem Operation.ofSuffixed {ts : List Token} {e : Expr} (h : Suffixed phrase ts e) :
    Operation phrase ts e :=
  .levels (.operand (.operand (.operand (.operand (.operand (.operand (.suffixed h)))))))

/-- An assignment is told from an operation by the sign that follows, and its target by the tree
already read. -/
theorem complete_assignment (hf : ∀ t, (f t).kind = t.kind)
    (hstarts : ∀ {ts e}, phrase ts e → Starts ts)
    (hex : Complete f k expression phrase Bounds (Expr.Alike (Moved f) AnyNode)) :
    Complete f (k + 1) (assignment expression) (Assignment phrase) Bounds
      (Expr.Alike (Moved f) AnyNode) := by
  have hoperation := complete_operation hf hstarts fun ts e t us h ht => hex ts e t us h ht.bounds
  intro ts e t us h ht hk
  unfold assignment
  cases h with
  | operation h =>
    refine .bind (hoperation ts e t us h ht.ends hk) fun e' he => .peek (.accept_no ht.equal ?_)
    exact .pure he
  | @assign name n equals ts value hname hequals hvalue =>
    simp only [List.length_cons] at hk
    have htarget := hoperation [name] (.variable 0 name) (f equals) (ts.map f ++ t :: us)
      (.ofSuffixed (.primary (.name hname))) (ends_of_equal ((hf _).trans hequals))
      (by simp only [List.length_append, List.length_cons, List.length_map, List.length_nil]; omega)
    simp only [List.map_cons, List.map_nil, List.cons_append, List.nil_append] at htarget ⊢
    refine .bind htarget fun target htarget => .peek ?_
    refine .accept_yes ((hf _).trans hequals) (by decide) (by simp) ?_
    refine .bind (hex ts value t us hvalue ht (by omega)) fun value' hvalue' => ?_
    cases htarget with
    | «variable» _ htarget => exact .freshNode fun _ => .pure (.assign trivial htarget hvalue')
  | @set ts object dot name equals us' value hobject hdot hname hequals hvalue =>
    simp only [List.length_append, List.length_cons] at hk
    have htarget := hoperation (ts ++ [dot, name]) (.get object name) (f equals)
      (us'.map f ++ t :: us) (.ofSuffixed (.get hobject hdot hname))
      (ends_of_equal ((hf _).trans hequals))
      (by simp only [List.length_append, List.length_cons, List.length_map, List.length_nil]; omega)
    simp only [List.map_append, List.map_cons, List.map_nil, List.cons_append, List.append_assoc,
      List.nil_append] at htarget ⊢
    refine .bind htarget fun target htarget => .peek ?_
    refine .accept_yes ((hf _).trans hequals) (by decide) (by simp) ?_
    refine .bind (hex us' value t us hvalue ht (by omega)) fun value' hvalue' => ?_
    cases htarget with
    | get hobject' hname' => exact .pure (.set hobject' hname' hvalue')

/-- The nested rule by induction on its depth, which the tokens at hand bound. -/
theorem complete_expressionAt (hf : ∀ t, (f t).kind = t.kind) : ∀ n : Nat,
    Complete f n (expressionAt n) Expression Bounds (Expr.Alike (Moved f) AnyNode)
  | 0 => fun _ _ _ _ _ _ hk => absurd hk (by omega)
  | n + 1 => fun ts e t us h ht hk => by
      obtain ⟨h⟩ := h
      exact complete_assignment hf Expression.starts (complete_expressionAt hf n) ts e t us h ht hk

/-- An expression is parsed, up to a token that it does not go on with. -/
theorem complete_bounded (hf : ∀ t, (f t).kind = t.kind) {ts : List Token} {e : Expr} {t : Token}
    (h : Expression ts e) (ht : Bounds t) (us : List Token) :
    YouthLang.expression.Accepts (ts.map f ++ t :: us) (t :: us) (e.Alike (Moved f) AnyNode) := by
  unfold YouthLang.expression
  refine .remaining (complete_expressionAt hf _ ts e t us h ht ?_)
  simp only [List.length_append, List.length_cons, List.length_map]
  omega

/-- An expression is parsed, up to a token that closes it. -/
theorem complete_expression (hf : ∀ t, (f t).kind = t.kind) {ts : List Token} {e : Expr} {t : Token}
    (h : Expression ts e) (ht : Closes t) (us : List Token) :
    YouthLang.expression.Accepts (ts.map f ++ t :: us) (t :: us) (e.Alike (Moved f) AnyNode) :=
  complete_bounded hf h ht.bounds us

/-! ## Statements

Here as well; a statement is one step deeper than a declaration, as a declaration may be a statement
without having read a token. -/

/-- A part that may be left out is left out exactly where its closing token stands. -/
theorem complete_expressionUnless {kind : TokenKind} (hf : ∀ t, (f t).kind = t.kind)
    {ts : List Token} {e? : Option Expr} {t : Token} (h : Optional Expression ts e?)
    (ht : t.kind = kind) (hclose : Closes t) (us : List Token) :
    (expressionUnless kind).Accepts (ts.map f ++ t :: us) (t :: us)
      (Option.Rel (Expr.Alike (Moved f) AnyNode) e?) := by
  unfold expressionUnless
  cases h with
  | none => exact .sees_yes ht (.pure .none)
  | some h =>
    have hexpression := complete_expression hf h hclose us
    obtain ⟨t', ts', rfl, ht'⟩ := h.starts
    simp only [List.map_cons, List.cons_append] at hexpression ⊢
    refine .sees_no (fun hk => ?_) (.map hexpression fun _ he => .some he)
    rw [hf, ← ht] at hk
    rcases hclose with hk' | hk' | hk' <;> simp [hk, hk', startsExpression] at ht'

/-- A declaration is read to its semicolon, with its value or without. -/
theorem complete_variableDeclaration (hf : ∀ t, (f t).kind = t.kind) {ts : List Token} {s : Stmt}
    (h : Variable ts s) (t : Token) (us : List Token) :
    variableDeclaration.Accepts (ts.map f ++ t :: us) (t :: us) (s.Alike (Moved f) AnyNode) := by
  unfold variableDeclaration
  cases h with
  | bare hname hend =>
    refine .expect ((hf _).trans hname) (by decide) (by simp) ?_
    refine .accept_no (by simp [hf, hend]) ?_
    exact .expect ((hf _).trans hend) (by decide) (by simp) (.pure (.bare rfl))
  | initialized hname hequals h hend =>
    simp only [List.map_append, List.map_cons, List.map_nil, List.cons_append, List.append_assoc,
      List.nil_append]
    refine .expect ((hf _).trans hname) (by decide) (by simp) ?_
    refine .accept_yes ((hf _).trans hequals) (by decide) (by simp) ?_
    have hsome : Parser.Accepts (some <$> YouthLang.expression) _ _ (Option.Rel _ _) :=
      .map (complete_expression hf h (.inr (.inr ((hf _).trans hend))) (t :: us))
        fun _ he => .some he
    refine .bind hsome ?_
    rintro _ ⟨he⟩
    exact .expect ((hf _).trans hend) (by decide) (by simp) (.pure (.declare rfl he))

/-- The first part of a loop is a declaration, an expression or only a semicolon. -/
theorem complete_loopInitializer (hf : ∀ t, (f t).kind = t.kind) {ts : List Token}
    {s? : Option Stmt} (h : Initializer ts s?) (t : Token) (us : List Token) :
    loopInitializer.Accepts (ts.map f ++ t :: us) (t :: us)
      (Option.Rel (Stmt.Alike (Moved f) AnyNode) s?) := by
  unfold loopInitializer
  cases h with
  | none hend => exact .accept_yes ((hf _).trans hend) (by decide) (by simp) (.pure .none)
  | «variable» hword h =>
    refine .accept_no (by simp [hf, hword]) ?_
    refine .accept_yes ((hf _).trans hword) (by decide) (by simp) ?_
    exact .bind (complete_variableDeclaration hf h t us) fun s' hs => .pure (.some hs)
  | expression h hend =>
    have hexpression := complete_expression hf h (.inr (.inr ((hf _).trans hend))) (t :: us)
    obtain ⟨t', ts', rfl, ht'⟩ := h.starts
    simp only [List.map_append, List.map_cons, List.map_nil, List.cons_append, List.append_assoc,
      List.nil_append] at hexpression ⊢
    refine .accept_no (fun hk => ?_) (.accept_no (fun hk => ?_) ?_)
    · rw [hf] at hk
      simp [hk, startsExpression] at ht'
    · rw [hf] at hk
      simp [hk, startsExpression] at ht'
    · refine .bind hexpression fun e' he => ?_
      exact .expect ((hf _).trans hend) (by decide) (by simp) (.pure (.some (.expression he)))

/-- Parameters are read one by one, with as many as the limit allows and none reported. -/
theorem complete_parametersFrom (hf : ∀ t, (f t).kind = t.kind) {t : Token} {us : List Token}
    (ht : t.kind = .rightParen) {ts ps : List Token} (h : Separated Name ts ps) :
    ∀ (n : Nat) (prior : List Token), ps.length ≤ n → prior.length + ps.length ≤ maxArguments →
      (parametersFrom n prior).Accepts (ts.map f ++ t :: us) (t :: us) fun ps' =>
        ∃ more, ps' = prior.reverse ++ more ∧ List.Forall₂ (Moved f) ps more := by
  induction h with
  | one h =>
    intro n prior hn hmax
    obtain ⟨hname⟩ := h
    obtain ⟨n, rfl⟩ := Nat.exists_eq_succ_of_ne_zero (Nat.ne_of_gt hn)
    unfold parametersFrom
    simp only [List.length_singleton] at hmax
    rw [if_neg (by omega)]
    refine .expect ((hf _).trans hname) (by decide) (by simp) (.accept_no (by simp [ht]) (.pure ?_))
    exact ⟨[_], by simp, .cons rfl .nil⟩
  | @more _ name comma us' ps h hcomma _ ih =>
    intro n prior hn hmax
    obtain ⟨hname⟩ := h
    simp only [List.length_cons] at hn hmax
    obtain ⟨n, rfl⟩ := Nat.exists_eq_succ_of_ne_zero (show n ≠ 0 by omega)
    unfold parametersFrom
    rw [if_neg (by omega)]
    simp only [List.map_cons, List.cons_append, List.nil_append]
    refine .expect ((hf _).trans hname) (by decide) (by simp) ?_
    refine .accept_yes ((hf _).trans hcomma) (by decide) (by simp) ?_
    refine .mono (ih n (f name :: prior) (by omega) ?_) ?_
    · simp only [List.length_cons]
      omega
    · rintro _ ⟨more, rfl, hmore⟩
      exact ⟨f name :: more, by simp, .cons rfl hmore⟩

/-- A list of parameters is read to its parenthesis. -/
theorem complete_parameterList (hf : ∀ t, (f t).kind = t.kind) {ts ps : List Token} {t : Token}
    (h : Listed Name ts ps) (ht : t.kind = .rightParen) (us : List Token) :
    parameterList.Accepts (ts.map f ++ t :: us) (t :: us) (List.Forall₂ (Moved f) ps) := by
  unfold parameterList
  cases h with
  | none => exact .sees_yes ht (.pure .nil)
  | some h hmax =>
    obtain ⟨name, ts', rfl, hname⟩ : ∃ t' ts', ts = t' :: ts' ∧ t'.kind = .identifier := by
      cases h with
      | one h => exact ⟨_, _, by cases h; rfl, by cases h; assumption⟩
      | more h _ _ => exact ⟨_, _, by cases h; rfl, by cases h; assumption⟩
    simp only [List.map_cons, List.cons_append]
    refine .sees_no (by simp [hf, hname]) (.remaining ?_)
    refine .mono (complete_parametersFrom hf ht h _ [] ?_ (by simpa using hmax)) ?_
    · have := h.length_le
      simp only [List.length_cons, List.length_append, List.length_map] at this ⊢
      omega
    · rintro _ ⟨more, rfl, hmore⟩
      exact hmore

/-- A token that a declaration may be followed by. -/
def Parts (t : Token) : Prop := t.kind ≠ .elseKey

/-- Behind a declaration stands another one, or what stands behind them all. -/
theorem Repeated.follow {ts : List Token} {body : List Stmt} {t : Token}
    (hf : ∀ t, (f t).kind = t.kind) (h : Repeated (Declaration true) ts body) (ht : Parts t)
    (us : List Token) : ∃ t' us', ts.map f ++ t :: us = t' :: us' ∧ Parts t' := by
  cases h with
  | nil => exact ⟨t, us, rfl, ht⟩
  | cons h _ =>
    obtain ⟨t', ts', rfl, ht'⟩ := h.first
    refine ⟨f t', _, rfl, fun hk => ?_⟩
    rw [hf] at hk
    simp [hk, startsNothing] at ht'

variable {declaration statement : Parser Stmt}

/-- Declarations are read one by one to the parenthesis that ends them, none of which starts one. -/
theorem complete_declarationsFrom (hf : ∀ t, (f t).kind = t.kind)
    (hd : Complete f k declaration (Declaration true) Parts (Stmt.Alike (Moved f) AnyNode)) {t : Token}
    {us : List Token} (ht : t.kind = .rightParen) {ts : List Token} {body : List Stmt}
    (h : Repeated (Declaration true) ts body) : ∀ (n : Nat) (prior : List Stmt), ts.length ≤ n →
      ts.length + us.length < k →
      (declarationsFrom declaration n prior).Accepts (ts.map f ++ t :: us) (t :: us) fun body' =>
        ∃ more, body' = prior.reverse ++ more ∧ BodyAlike (Moved f) AnyNode body more := by
  induction h with
  | nil =>
    intro n prior _ _
    cases n with
    | zero => exact .pure ⟨[], by simp, .nil⟩
    | succ n =>
      unfold declarationsFrom
      refine .peek ?_
      simp only [ht, decide_true, Bool.true_or, if_true]
      exact .pure ⟨[], by simp, .nil⟩
  | @cons ts s vs body h hrest ih =>
    intro n prior hn hk
    obtain ⟨t', ts', hts, ht'⟩ := h.first
    obtain ⟨u, rest, heq, hu⟩ := hrest.follow hf (by simp [Parts, ht] : Parts t) us
    have hlen := congrArg List.length heq
    simp only [List.length_append, List.length_cons, List.length_map] at hlen hn hk
    have hpos : 0 < ts.length := by simp [hts]
    obtain ⟨n, rfl⟩ := Nat.exists_eq_succ_of_ne_zero (show n ≠ 0 by omega)
    have hdeclaration := hd ts s u rest h hu (by omega)
    simp only [List.map_append, List.append_assoc, heq]
    unfold declarationsFrom
    rw [hts] at hdeclaration ⊢
    simp only [List.map_cons, List.cons_append] at hdeclaration ⊢
    refine .peek ?_
    rw [if_neg (by rw [hf]; revert ht'; cases t'.kind <;> simp [startsNothing])]
    refine .bind hdeclaration fun s' hs => ?_
    rw [← heq]
    refine .mono (ih n (s' :: prior) (by omega) (by omega)) ?_
    rintro _ ⟨more, rfl, hmore⟩
    exact ⟨s' :: more, by simp, .cons hs hmore⟩

/-- The declarations of a block and its closing parenthesis. -/
theorem complete_block (hf : ∀ t, (f t).kind = t.kind)
    (hd : Complete f k declaration (Declaration true) Parts (Stmt.Alike (Moved f) AnyNode))
    {ts us : List Token} {body : List Stmt} {right : Token}
    (h : Repeated (Declaration true) ts body) (hright : right.kind = .rightParen) (hus : us ≠ [])
    (hk : ts.length + us.length < k) :
    (block declaration).Accepts (ts.map f ++ f right :: us) us (BodyAlike (Moved f) AnyNode body) := by
  unfold block
  refine .remaining (.bind (complete_declarationsFrom hf hd ((hf _).trans hright) h _ []
    (by simp) hk) ?_)
  rintro _ ⟨more, rfl, hmore⟩
  exact .expect ((hf _).trans hright) (by decide) hus (.pure hmore)

/-- A routine is its name, its parameters and its block, whichever kind it is. -/
theorem complete_routine (kind : Routine) (hf : ∀ t, (f t).kind = t.kind)
    (hd : Complete f k declaration (Declaration true) Parts (Stmt.Alike (Moved f) AnyNode)) :
    Complete f k (routine kind declaration) (Callable true) (fun _ => True)
      (Function.Alike (Moved f) AnyNode) := by
  intro ts g t us h _ hk
  cases h with
  | @mk name left ps parameters right left' ts body right' hname hleft hparameters hright hleft'
      hbody hright' =>
    simp only [List.length_append, List.length_cons, List.length_nil] at hk
    simp only [List.map_append, List.map_cons, List.map_nil, List.cons_append, List.append_assoc,
      List.nil_append]
    unfold routine
    refine .expect ((hf _).trans hname) (by decide) (by simp) ?_
    refine .expect ((hf _).trans hleft) (by decide) (by simp) ?_
    refine .bind (complete_parameterList hf hparameters ((hf _).trans hright) _) fun ps' hps => ?_
    refine .expect ((hf _).trans hright) (by decide) (by simp) ?_
    refine .expect ((hf _).trans hleft') (by decide) (by simp) ?_
    refine .bind (complete_block hf hd hbody hright' (by simp) ?_) fun body' hbody' => ?_
    · simp only [List.length_cons]
      omega
    · exact .pure (.mk rfl hps hbody')

/-- Methods are read one by one to the parenthesis of their class. -/
theorem complete_methodsFrom (hf : ∀ t, (f t).kind = t.kind)
    (hd : Complete f k declaration (Declaration true) Parts (Stmt.Alike (Moved f) AnyNode)) {t : Token}
    {us : List Token} (ht : t.kind = .rightParen) {ts : List Token} {ms : List Function}
    (h : Repeated (Method true) ts ms) : ∀ (n : Nat) (prior : List Function), ts.length ≤ n →
      ts.length + us.length < k →
      (methodsFrom declaration n prior).Accepts (ts.map f ++ t :: us) (t :: us) fun ms' =>
        ∃ more, ms' = prior.reverse ++ more ∧ MethodsAlike (Moved f) AnyNode ms more := by
  induction h with
  | nil =>
    intro n prior _ _
    cases n with
    | zero => exact .pure ⟨[], by simp, .nil⟩
    | succ n =>
      unfold methodsFrom
      refine .peek ?_
      simp only [ht, decide_true, Bool.true_or, if_true]
      exact .pure ⟨[], by simp, .nil⟩
  | @cons _ m vs ms h hrest ih =>
    intro n prior hn hk
    obtain @⟨word, ts, m, hword, hm⟩ := h
    simp only [List.length_append, List.length_cons] at hn hk
    obtain ⟨n, rfl⟩ := Nat.exists_eq_succ_of_ne_zero (show n ≠ 0 by omega)
    obtain ⟨u, rest, heq⟩ : ∃ u rest, vs.map f ++ t :: us = u :: rest :=
      List.exists_cons_of_ne_nil (by simp)
    have hlen := congrArg List.length heq
    simp only [List.length_append, List.length_cons, List.length_map] at hlen
    simp only [List.map_append, List.map_cons, List.cons_append, List.append_assoc, heq]
    unfold methodsFrom
    refine .peek ?_
    rw [if_neg (by simp [hf, hword])]
    refine .expect ((hf _).trans hword) (by decide) (by simp) ?_
    refine .bind (complete_routine .method hf hd ts m u rest hm trivial (by omega)) fun m' hm' => ?_
    rw [← heq]
    refine .mono (ih n (m' :: prior) (by omega) (by omega)) ?_
    rintro _ ⟨more, rfl, hmore⟩
    exact ⟨m' :: more, by simp, .cons hm' hmore⟩

/-- A class is its name and its methods between parentheses. -/
theorem complete_youthDeclaration (hf : ∀ t, (f t).kind = t.kind)
    (hd : Complete f k declaration (Declaration true) Parts (Stmt.Alike (Moved f) AnyNode))
    {name left right t : Token} {ts us : List Token} {ms : List Function}
    (hname : name.kind = .identifier) (hleft : left.kind = .leftParen)
    (h : Repeated (Method true) ts ms) (hright : right.kind = .rightParen)
    (hk : ts.length + (t :: us).length < k) :
    (youthDeclaration declaration).Accepts (f name :: f left :: (ts.map f ++ f right :: t :: us))
      (t :: us) ((Stmt.youth name ms).Alike (Moved f) AnyNode) := by
  unfold youthDeclaration
  refine .expect ((hf _).trans hname) (by decide) (by simp) ?_
  refine .expect ((hf _).trans hleft) (by decide) (by simp) (.remaining ?_)
  refine .bind (complete_methodsFrom hf hd ((hf _).trans hright) h _ [] (by simp) hk) ?_
  rintro _ ⟨more, rfl, hmore⟩
  exact .expect ((hf _).trans hright) (by decide) (by simp) (.pure (.youth rfl hmore))

/-- A loop with like clauses and a like body is a like loop. -/
theorem alike_loopOf {T : Token → Token → Prop} {N : Nat → Nat → Prop} {s? s?' : Option Stmt}
    {condition condition' increment increment' : Option Expr} {body body' : Stmt}
    (hs : Option.Rel (Stmt.Alike T N) s? s?')
    (hcondition : Option.Rel (Expr.Alike T N) condition condition')
    (hincrement : Option.Rel (Expr.Alike T N) increment increment')
    (hbody : body.Alike T N body') :
    (loopOf s? condition increment body).Alike T N
      (loopOf s?' condition' increment' body') := by
  have hround : (roundOf body increment).Alike T N (roundOf body' increment') := by
    cases hincrement with
    | none => exact hbody
    | some h => exact .block (.cons hbody (.cons (.expression h) .nil))
  have htest : (condition.getD (.literal (.truth true))).Alike T N
      (condition'.getD (.literal (.truth true))) := by
    cases hcondition with
    | none => exact .literal _
    | some h => exact h
  cases hs with
  | none => exact .loop htest hround
  | some h => exact .block (.cons h (.cons (.loop htest hround) .nil))

/-- A parser that, with at most `k` tokens left, reads the statements that are not left open before a
second part. -/
def CompleteStatement (f : Token → Token) (k : Nat) (p : Parser Stmt) : Prop :=
  ∀ open? ts s t us, Statement true open? ts s → (open? = true → t.kind ≠ .elseKey) →
    ts.length + us.length < k →
    p.Accepts (ts.map f ++ t :: us) (t :: us) (s.Alike (Moved f) AnyNode)

/-- A condition in parentheses is parsed, and the parser goes on behind them. -/
theorem complete_condition {α : Type} {rest : Expr → Parser α} {post : α → Prop} {what what' : Wanted}
    {left right : Token} {cs us us' : List Token} {condition : Expr} (hf : ∀ t, (f t).kind = t.kind)
    (hleft : left.kind = .leftParen) (h : Expression cs condition) (hright : right.kind = .rightParen)
    (hus : us ≠ []) (hrest : ∀ condition', condition.Alike (Moved f) AnyNode condition' →
      (rest condition').Accepts us us' post) :
    Parser.Accepts (do
      let _ ← expect .leftParen what
      let condition ← YouthLang.expression
      let _ ← expect .rightParen what'
      rest condition) (f left :: (cs.map f ++ f right :: us)) us' post := by
  refine .expect ((hf _).trans hleft) (by decide) (by simp) ?_
  refine .bind (complete_expression hf h (.inl ((hf _).trans hright)) _) fun condition' hcondition' => ?_
  exact .expect ((hf _).trans hright) (by decide) hus (hrest condition' hcondition')

section Compound

variable {open? : Bool} {left right t : Token} {cs ts us : List Token} {condition : Expr}

/-- A loop is read with any of its three parts left out. -/
theorem complete_forStatement {is ns : List Token} {semicolon : Token} {initializer : Option Stmt}
    {condition increment : Option Expr} {body : Stmt} (hf : ∀ t, (f t).kind = t.kind)
    (hst : CompleteStatement f k statement) (hleft : left.kind = .leftParen)
    (hinitializer : Initializer is initializer) (hcondition : Optional Expression cs condition)
    (hend : semicolon.kind = .semicolon) (hincrement : Optional Expression ns increment)
    (hright : right.kind = .rightParen) (h : Statement true open? ts body)
    (ht : open? = true → t.kind ≠ .elseKey) (hk : ts.length + us.length < k) :
    (forStatement statement).Accepts (f left :: (is.map f ++ (cs.map f ++ f semicolon ::
        (ns.map f ++ f right :: (ts.map f ++ t :: us))))) (t :: us)
      ((loopOf initializer condition increment body).Alike (Moved f) AnyNode) := by
  unfold forStatement
  refine .expect ((hf _).trans hleft) (by decide) (by simp) ?_
  obtain ⟨u, rest, heq⟩ : ∃ u rest, cs.map f ++ f semicolon :: (ns.map f ++ f right ::
      (ts.map f ++ t :: us)) = u :: rest := List.exists_cons_of_ne_nil (by simp)
  rw [heq]
  refine .bind (complete_loopInitializer hf hinitializer u rest) fun initializer' hinitializer' => ?_
  rw [← heq]
  refine .bind (complete_expressionUnless hf hcondition ((hf _).trans hend)
    (.inr (.inr ((hf _).trans hend))) _) fun condition' hcondition' => ?_
  refine .expect ((hf _).trans hend) (by decide) (by simp) ?_
  refine .bind (complete_expressionUnless hf hincrement ((hf _).trans hright)
    (.inl ((hf _).trans hright)) _) fun increment' hincrement' => ?_
  refine .expect ((hf _).trans hright) (by decide) (by simp) ?_
  refine .bind (hst open? ts body t us h ht hk) fun body' hbody => .pure ?_
  rw [countingLoop_eq_loopOf]
  exact alike_loopOf hinitializer' hcondition' hincrement' hbody

/-- A loop with a condition alone is read with its body. -/
theorem complete_whileStatement {body : Stmt} (hf : ∀ t, (f t).kind = t.kind)
    (hst : CompleteStatement f k statement) (hleft : left.kind = .leftParen)
    (hcondition : Expression cs condition) (hright : right.kind = .rightParen)
    (h : Statement true open? ts body) (ht : open? = true → t.kind ≠ .elseKey)
    (hk : ts.length + us.length < k) :
    (whileStatement statement).Accepts (f left :: (cs.map f ++ f right :: (ts.map f ++ t :: us)))
      (t :: us) ((Stmt.loop condition body).Alike (Moved f) AnyNode) := by
  unfold whileStatement
  refine complete_condition hf hleft hcondition hright (by simp) fun condition' hcondition' => ?_
  exact .bind (hst open? ts body t us h ht hk) fun body' hbody => .pure (.loop hcondition' hbody)

/-- A branch without a second part, in front of a token that is none. -/
theorem complete_ifStatement_none {yes : Stmt} (hf : ∀ t, (f t).kind = t.kind)
    (hst : CompleteStatement f k statement) (hleft : left.kind = .leftParen)
    (hcondition : Expression cs condition) (hright : right.kind = .rightParen)
    (h : Statement true open? ts yes) (ht : t.kind ≠ .elseKey) (hk : ts.length + us.length < k) :
    (ifStatement statement).Accepts (f left :: (cs.map f ++ f right :: (ts.map f ++ t :: us)))
      (t :: us) ((Stmt.branch condition yes none).Alike (Moved f) AnyNode) := by
  unfold ifStatement
  refine complete_condition hf hleft hcondition hright (by simp) fun condition' hcondition' => ?_
  refine .bind (hst open? ts yes t us h (fun _ => ht) hk) fun yes' hyes => ?_
  exact .accept_no ht (.pure (.branch hcondition' hyes))

/-- A branch with a second part, which belongs to the nearest branch that is open. -/
theorem complete_ifStatement_some {open?' : Bool} {word : Token} {us' : List Token} {yes no : Stmt}
    (hf : ∀ t, (f t).kind = t.kind) (hst : CompleteStatement f k statement)
    (hleft : left.kind = .leftParen) (hcondition : Expression cs condition)
    (hright : right.kind = .rightParen) (hyes : Statement true open? ts yes) (hnearest : open? = false)
    (hword : word.kind = .elseKey) (hno : Statement true open?' us' no)
    (ht : open?' = true → t.kind ≠ .elseKey) (hk : ts.length + (us'.length + us.length + 1) < k) :
    (ifStatement statement).Accepts (f left :: (cs.map f ++ f right :: (ts.map f ++ f word ::
        (us'.map f ++ t :: us)))) (t :: us)
      ((Stmt.branch condition yes (some no)).Alike (Moved f) AnyNode) := by
  have hlen : (us'.map f ++ t :: us).length = us'.length + us.length + 1 := by
    simp [Nat.add_assoc]
  unfold ifStatement
  refine complete_condition hf hleft hcondition hright (by simp) fun condition' hcondition' => ?_
  refine .bind (hst open? ts yes (f word) _ hyes (by simp [hnearest]) (by omega)) fun yes' hyes' => ?_
  refine .accept_yes ((hf _).trans hword) (by decide) (by simp) ?_
  refine .bind (hst open?' us' no t us hno ht (by omega)) fun no' hno' => ?_
  exact .pure (.branches hcondition' hyes' hno')

end Compound

/-- **A statement is told by its first token**, and an `else` behind it belongs to the nearest
choice that is still open. -/
theorem complete_statement {parse : Rule → Parser Stmt} (hf : ∀ t, (f t).kind = t.kind)
    (hd : Complete f k (parse .declaration) (Declaration true) Parts (Stmt.Alike (Moved f) AnyNode))
    (hst : CompleteStatement f k (parse .statement)) :
    CompleteStatement f (k + 1) (YouthLang.statement parse) := by
  intro open? ts s t us h ht hk
  unfold YouthLang.statement
  cases h with
  -- The four kinds with a statement inside leave the `else` behind them to that one.
  | @counting word left is s? cs condition semicolon ns increment right _ ts body hword hleft
      hinitializer hcondition hend hincrement hright h =>
    simp only [List.length_append, List.length_cons] at hk
    simp only [List.map_append, List.map_cons, List.cons_append, List.append_assoc]
    refine .peek ?_
    simp only [hf, hword]
    exact .next (by simp [hf, hword]) (by simp)
      (complete_forStatement hf hst hleft hinitializer hcondition hend hincrement hright h ht (by omega))
  | @branch word left cs condition right _ ts yes hword hleft hcondition hright hyes =>
    simp only [List.length_append, List.length_cons] at hk
    simp only [List.map_append, List.map_cons, List.cons_append, List.append_assoc]
    refine .peek ?_
    simp only [hf, hword]
    exact .next (by simp [hf, hword]) (by simp)
      (complete_ifStatement_none hf hst hleft hcondition hright hyes (ht rfl) (by omega))
  | @branches word left cs condition right first ts yes word' _ us' no hword hleft hcondition
      hright hyes hnearest hword' hno =>
    simp only [List.length_append, List.length_cons] at hk
    simp only [List.map_append, List.map_cons, List.cons_append, List.append_assoc]
    refine .peek ?_
    simp only [hf, hword]
    exact .next (by simp [hf, hword]) (by simp) (complete_ifStatement_some hf hst hleft hcondition
      hright hyes (hnearest rfl) hword' hno ht (by omega))
  | @loop word left cs condition right _ ts body hword hleft hcondition hright hbody =>
    simp only [List.length_append, List.length_cons] at hk
    simp only [List.map_append, List.map_cons, List.cons_append, List.append_assoc]
    refine .peek ?_
    simp only [hf, hword]
    exact .next (by simp [hf, hword]) (by simp)
      (complete_whileStatement hf hst hleft hcondition hright hbody ht (by omega))
  -- These end with a semicolon or a parenthesis, which closes the expression before it.
  | tell hword h hend =>
    simp only [List.map_append, List.map_cons, List.map_nil, List.cons_append, List.append_assoc,
      List.nil_append]
    refine .peek ?_
    simp only [hf, hword]
    refine .next (by simp [hf, hword]) (by simp) ?_
    refine .bind (complete_expression hf h (.inr (.inr ((hf _).trans hend))) _) fun e' he => ?_
    exact .expect ((hf _).trans hend) (by decide) (by simp) (.pure (.tell he))
  | give hword h hend =>
    simp only [List.map_append, List.map_cons, List.map_nil, List.cons_append, List.append_assoc,
      List.nil_append]
    refine .peek ?_
    simp only [hf, hword]
    refine .next (by simp [hf, hword]) (by simp) ?_
    refine .bind (complete_expressionUnless hf h ((hf _).trans hend)
      (.inr (.inr ((hf _).trans hend))) _) fun e?' he => ?_
    refine .expect ((hf _).trans hend) (by decide) (by simp) (.pure ?_)
    cases he with
    | none => exact .giveNothing rfl
    | some he => exact .give rfl he
  -- A block ends with its own parenthesis, whatever the declarations in it leave open.
  | block hleft h hright =>
    simp only [List.length_append, List.length_cons] at hk
    simp only [List.map_append, List.map_cons, List.map_nil, List.cons_append, List.append_assoc,
      List.nil_append]
    refine .peek ?_
    simp only [hf, hleft]
    refine .next (by simp [hf, hleft]) (by simp) ?_
    refine .bind (complete_block hf hd h hright (by simp) ?_) fun body' hbody => ?_
    · simp only [List.length_cons]
      omega
    · exact .pure (.block hbody)
  -- What begins an expression is none of the six words or signs tried before.
  | @expression t' ts e semicolon hfirst h hend =>
    have hexpression := complete_expression hf h (.inr (.inr ((hf _).trans hend))) (t :: us)
    obtain ⟨t', ts', heq, ht'⟩ := h.starts
    obtain ⟨rfl, rfl⟩ := List.cons.inj heq
    simp only [List.map_append, List.map_cons, List.map_nil, List.cons_append, List.append_assoc,
      List.nil_append] at hexpression ⊢
    refine .peek ?_
    rw [hf]
    split
    · next hk => simp [hk, startsExpression] at ht'
    · next hk => simp [hk, startsExpression] at ht'
    · next hk => simp [hk, startsExpression] at ht'
    · next hk => simp [hk, startsExpression] at ht'
    · next hk => simp [hk, startsExpression] at ht'
    · next hk => exact absurd hk hfirst
    · refine .bind hexpression fun e' he => ?_
      exact .expect ((hf _).trans hend) (by decide) (by simp) (.pure (.expression he))

/-- A declaration is told by its keyword; all else is a statement. -/
theorem complete_declarationBody {parse : Rule → Parser Stmt} (hf : ∀ t, (f t).kind = t.kind)
    (hd : Complete f k (parse .declaration) (Declaration true) Parts (Stmt.Alike (Moved f) AnyNode))
    (hst : CompleteStatement f (k + 1) (parse .statement)) :
    Complete f (k + 1) (declarationBody parse) (Declaration true) Parts
      (Stmt.Alike (Moved f) AnyNode) := by
  intro ts s t us h ht hk
  unfold declarationBody
  cases h with
  | youth hword hname hleft h hright =>
    simp only [List.length_append, List.length_cons, List.length_nil] at hk
    simp only [List.map_append, List.map_cons, List.map_nil, List.cons_append, List.append_assoc,
      List.nil_append]
    refine .peek ?_
    simp only [hf, hword]
    refine .next (by simp [hf, hword]) (by simp) ?_
    refine complete_youthDeclaration hf hd hname hleft h hright ?_
    simp only [List.length_cons]
    omega
  | @function word ts g hword h =>
    simp only [List.length_cons] at hk
    refine .peek ?_
    simp only [hf, hword]
    refine .next (by simp [hf, hword]) (by simp) ?_
    refine .bind (complete_routine .function hf hd ts g t us h trivial (by omega)) fun g' hg => ?_
    exact .pure (.function hg)
  | «variable» hword h =>
    refine .peek ?_
    simp only [hf, hword]
    exact .next (by simp [hf, hword]) (by simp) (complete_variableDeclaration hf h t us)
  | statement h =>
    have hstatement := hst _ ts s t us h (fun _ => ht) hk
    obtain ⟨t', ts', rfl, -, ht'⟩ := h.first
    simp only [List.map_cons, List.cons_append] at hstatement ⊢
    refine .peek ?_
    rw [hf]
    split
    · next hk => simp [hk, startsDeclaration] at ht'
    · next hk => simp [hk, startsDeclaration] at ht'
    · next hk => simp [hk, startsDeclaration] at ht'
    · exact hstatement

/-- Where a rule accepts there is nothing to recover from. -/
theorem accepts_recovering {p : Parser Stmt} {ts rest : List Token} {post : Stmt → Prop}
    (h : p.Accepts ts rest post) : (recovering p).Accepts ts rest post := by
  intro c hc
  obtain ⟨s, c', heq, hrest⟩ := h c hc
  exact ⟨s, c', by simp only [recovering, heq], hrest⟩

/-- Declarations and statements together, by induction on the depth: a statement is one step deeper
than the declaration it stands for. -/
theorem complete_statementAt (hf : ∀ t, (f t).kind = t.kind) : ∀ n k : Nat,
    (2 * k ≤ n → Complete f k (statementAt n .declaration) (Declaration true) Parts
      (Stmt.Alike (Moved f) AnyNode))
    ∧ (2 * k ≤ n + 1 → CompleteStatement f k (statementAt n .statement))
  | 0, k => by
      refine ⟨fun hn => ?_, fun hn => ?_⟩
      · exact fun _ _ _ _ _ _ hk => absurd hk (by omega)
      · exact fun _ _ _ _ _ _ _ hk => absurd hk (by omega)
  | n + 1, 0 => ⟨fun _ _ _ _ _ _ _ hk => absurd hk (by omega),
      fun _ _ _ _ _ _ _ _ hk => absurd hk (by omega)⟩
  | n + 1, k + 1 => by
      refine ⟨fun hn ts s t us h ht hk => accepts_recovering ?_, fun hn => ?_⟩
      · exact complete_declarationBody hf ((complete_statementAt hf n k).1 (by omega))
          ((complete_statementAt hf n (k + 1)).2 (by omega)) ts s t us h ht hk
      · exact complete_statement hf ((complete_statementAt hf n k).1 (by omega))
          ((complete_statementAt hf n k).2 (by omega))

/-- A declaration is parsed, up to a token that may follow it. -/
theorem complete_declaration (hf : ∀ t, (f t).kind = t.kind) {ts : List Token} {s : Stmt} {t : Token}
    (h : Declaration true ts s) (ht : Parts t) (us : List Token) :
    YouthLang.declaration.Accepts (ts.map f ++ t :: us) (t :: us) (s.Alike (Moved f) AnyNode) := by
  unfold YouthLang.declaration
  refine .remaining ((complete_statementAt hf _ (ts.map f ++ t :: us).length).1 (Nat.le_refl _)
    ts s t us h ht ?_)
  simp only [List.length_append, List.length_cons, List.length_map]
  omega

/-! ## Programs -/

/-- The declarations of a program are parsed, and the parser goes on behind them. -/
theorem complete_programFrom (hf : ∀ t, (f t).kind = t.kind) {t : Token} (ht : Parts t)
    {us ts : List Token} {program : List Stmt} (h : Program true ts program) :
    ∀ (n : Nat) (prior : List Stmt) (c : Cursor), c.tokens = ts.map f ++ t :: us →
      c.size ≤ n → ∃ n' more c', programFrom n prior c = programFrom n' (more.reverse ++ prior) c'
        ∧ BodyAlike (Moved f) AnyNode program more ∧ c'.tokens = t :: us ∧ c'.mistakes = c.mistakes
        ∧ c'.size ≤ n' := by
  unfold Program at h
  induction h with
  | nil => exact fun n prior c hc hn => ⟨n, [], c, rfl, .nil, hc, rfl, hn⟩
  | @cons ts s vs program h hrest ih =>
    intro n prior c hc hn
    obtain ⟨u, rest, heq, hu⟩ := hrest.follow hf ht us
    rw [List.map_append, List.append_assoc, heq] at hc
    obtain ⟨s', c', hdone, htokens, hclean, hs⟩ := complete_declaration hf h hu rest c hc
    obtain ⟨t', ts', rfl, ht'⟩ := h.first
    obtain ⟨n, rfl⟩ := Nat.exists_eq_succ_of_ne_zero
      (Nat.ne_of_gt (Nat.lt_of_lt_of_le c.size_pos hn))
    have hend : c.atEnd = false := by
      have hcurrent : c.current = f t' := (List.cons.inj hc).1
      rw [Cursor.atEnd, hcurrent, hf]
      revert ht'
      cases t'.kind <;> simp [startsNothing]
    have hsize : c'.size ≤ n := by
      rw [← Cursor.length_tokens, hc] at hn
      rw [← Cursor.length_tokens, htokens]
      simp only [List.map_cons, List.cons_append, List.length_cons, List.length_append] at hn ⊢
      omega
    rw [← heq] at htokens
    obtain ⟨n', more, c'', hprogram, halike, htokens', hclean', hsize'⟩ :=
      ih n (s' :: prior) c' htokens hsize
    refine ⟨n', s' :: more, c'', ?_, .cons hs halike, htokens', hclean'.trans hclean, hsize'⟩
    rw [programFrom, if_neg (by simp [hend])]
    simp only [hdone, hprogram, List.reverse_cons, List.append_assoc, List.cons_append,
      List.nil_append]

end Parsing

end YouthLang.Grammar

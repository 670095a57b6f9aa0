import YouthLang.Proofs.Alike
import YouthLang.Proofs.Settled

/-!
# Proofs/Linked — the same code behind other globals

A source that is walked behind another one sees the globals of both.  Its scopes are then those that it
has on its own, with the earlier declarations at the bottom of the outermost one (`graft`).  Two trees
from the same program, each settled in its scopes, have nodes that are `Linked`: they were met in scopes
that differ by such a graft only.
-/

namespace YouthLang

/-! ## Grafts -/

/-- The scopes with some more declarations at the bottom of the outermost one. -/
def graft (base : Scope) : List Scope → List Scope
  | [] => []
  | [scope] => [scope ++ base]
  | scope :: outer => scope :: graft base outer

section Graft

variable {base : Scope} {scopes outer : List Scope} {scope : Scope} {name : Text}

theorem graft_cons (h : outer ≠ []) : graft base (scope :: outer) = scope :: graft base outer := by
  cases outer with
  | nil => exact absurd rfl h
  | cons scope' outer => rfl

@[simp] theorem graft_nil (scopes : List Scope) : graft [] scopes = scopes := by
  induction scopes with
  | nil => rfl
  | cons scope outer ih =>
    cases outer with
    | nil => simp [graft]
    | cons scope' outer => rw [graft_cons (by simp), ih]

theorem length_graft : (graft base scopes).length = scopes.length := by
  induction scopes with
  | nil => rfl
  | cons scope outer ih =>
    cases outer with
    | nil => rfl
    | cons scope' outer =>
      rw [graft_cons (by simp), List.length_cons, ih]
      rfl

theorem noted_graft (b : Bool) :
    noted name b (graft base scopes) = graft base (noted name b scopes) := by
  match scopes with
  | [] => rfl
  | [_] => rfl
  | _ :: _ :: _ => rfl

theorem declared_graft : declared name (graft base scopes) = graft base (declared name scopes) := by
  rw [declared, noted_graft, noted_graft, declared]

theorem Stmt.extend_graft (s : Stmt) :
    s.extend (graft base scopes) = graft base (s.extend scopes) := by
  cases s with
  | declare name _ => exact declared_graft
  | function declaration => exact declared_graft
  | youth name _ => exact declared_graft
  | _ => rfl

theorem noted_ne_nil (h : scopes ≠ []) (b : Bool) : noted name b scopes ≠ [] := by
  cases scopes with
  | nil => exact absurd rfl h
  | cons scope outer => simp [noted]

theorem declared_ne_nil (h : scopes ≠ []) : declared name scopes ≠ [] :=
  noted_ne_nil (noted_ne_nil h false) true

theorem Stmt.extend_ne_nil (h : scopes ≠ []) (s : Stmt) : s.extend scopes ≠ [] := by
  cases s with
  | declare name _ => exact declared_ne_nil h
  | function declaration => exact declared_ne_nil h
  | youth name _ => exact declared_ne_nil h
  | _ => exact h

/-- A name that is found in a graft is found where it was, or is a global of the graft. -/
theorem findIdx?_graft (h : scopes ≠ []) :
    (graft base scopes).findIdx? (fun scope => (scope.lookup name).isSome)
      = (scopes.findIdx? fun scope => (scope.lookup name).isSome).or
        (if (base.lookup name).isSome then some (scopes.length - 1) else none) := by
  induction scopes with
  | nil => exact absurd rfl h
  | cons scope outer ih =>
    cases outer with
    | nil =>
      have hlookup : (scope ++ base).lookup name = (scope.lookup name).or (base.lookup name) :=
        List.lookup_append
      simp only [graft, List.findIdx?_cons, List.findIdx?_nil, hlookup]
      cases scope.lookup name <;> cases base.lookup name <;> simp
    | cons scope' outer =>
      rw [graft_cons (by simp), List.findIdx?_cons, ih (by simp),
        @List.findIdx?_cons _ scope (scope' :: outer)]
      generalize (scope' :: outer).findIdx? (fun scope => (scope.lookup name).isSome) = found
      cases scope.lookup name <;> cases found <;> cases base.lookup name <;> simp

end Graft

/-! ## Links -/

/-- Two tokens that differ in their lines only, as a relation allows. -/
structure Token.Alike (L : Nat → Nat → Prop) (t t' : Token) : Prop where
  kind : t.kind = t'.kind
  lexeme : t.lexeme = t'.lexeme
  column : t.place.column = t'.place.column
  line : L t.place.line t'.place.line

/-- Two relations that lead from one token to alike ones. -/
def Meets (T T' : Token → Token → Prop) (L : Nat → Nat → Prop) : Prop :=
  ∀ t t₁ t₂, T t t₁ → T' t t₂ → t₁.Alike L t₂

/-- Two nodes that were met in scopes which differ by a graft only. -/
def Linked (ok ok' : Visit → Prop) (n n' : Nat) : Prop :=
  ∃ v v' base, (ok v ∧ v.node = n) ∧ (ok' v' ∧ v'.node = n')
    ∧ Scope.Complete base ∧ v.scopes = graft base v'.scopes

section Links

variable {T T' : Token → Token → Prop} {L : Nat → Nat → Prop} {ok ok' : Visit → Prop}
  {base : Scope}

theorem Linked.of_settled {ref ref' : Reference} {scopes : List Scope} (hbase : base.Complete)
    (h : ok ⟨ref, graft base scopes⟩) (h' : ok' ⟨ref', scopes⟩) :
    Linked ok ok' ref.node ref'.node := ⟨_, _, base, ⟨h, rfl⟩, ⟨h', rfl⟩, hbase, rfl⟩

theorem parameterScope_eq (ps ps' : List Token) (h : List.Forall₂ (Token.Alike L) ps ps') :
    parameterScope ps = parameterScope ps' := by
  have hmap : ps.map Token.lexeme = ps'.map Token.lexeme := by
    induction h with
    | nil => rfl
    | cons h _ ih => rw [List.map_cons, List.map_cons, h.lexeme, ih]
  have hfold : ∀ ps : List Token, parameterScope ps
      = (ps.map Token.lexeme).foldl (fun scope p => (p, true) :: (p, false) :: scope) [] :=
    fun ps => by rw [List.foldl_map]; rfl
  rw [hfold, hfold, hmap]

mutual

/-- Two expressions from the same one, settled in scopes that differ by a graft, are linked. -/
theorem Expr.Alike.link (hT : Meets T T' L) (hbase : base.Complete) {a e e' : Expr}
    {scopes : List Scope} (h : Expr.Alike T AnyNode a e) (h' : Expr.Alike T' AnyNode a e')
    (hs : e.Settled ok (graft base scopes)) (hs' : e'.Settled ok' scopes) :
    Expr.Alike (Token.Alike L) (Linked ok ok') e e' := by
  match h, h' with
  | .literal v, .literal _ => exact .literal v
  | .variable _ hname, .variable _ hname' =>
    refine .variable ?_ (hT _ _ _ hname hname')
    exact .of_settled hbase (hs _ List.mem_cons_self) (hs' _ List.mem_cons_self)
  | .me _ ht, .me _ ht' =>
    refine .me ?_ (hT _ _ _ ht ht')
    exact .of_settled hbase (hs _ List.mem_cons_self) (hs' _ List.mem_cons_self)
  | .group h, .group h' => exact .group (h.link hT hbase h' hs hs')
  | .unary ht h, .unary ht' h' => exact .unary (hT _ _ _ ht ht') (h.link hT hbase h' hs hs')
  | .binary ht hl hr, .binary ht' hl' hr' =>
    obtain ⟨hsl, hsr⟩ := List.forall_mem_append.mp hs
    obtain ⟨hsl', hsr'⟩ := List.forall_mem_append.mp hs'
    exact .binary (hT _ _ _ ht ht') (hl.link hT hbase hl' hsl hsl') (hr.link hT hbase hr' hsr hsr')
  | .logical ht hl hr, .logical ht' hl' hr' =>
    obtain ⟨hsl, hsr⟩ := List.forall_mem_append.mp hs
    obtain ⟨hsl', hsr'⟩ := List.forall_mem_append.mp hs'
    exact .logical (hT _ _ _ ht ht') (hl.link hT hbase hl' hsl hsl') (hr.link hT hbase hr' hsr hsr')
  | .assign _ hname h, .assign _ hname' h' =>
    obtain ⟨hwrite, hvalue⟩ := List.forall_mem_cons.mp hs
    obtain ⟨hwrite', hvalue'⟩ := List.forall_mem_cons.mp hs'
    exact .assign (.of_settled hbase hwrite hwrite') (hT _ _ _ hname hname')
      (h.link hT hbase h' hvalue hvalue')
  | .get h hname, .get h' hname' => exact .get (h.link hT hbase h' hs hs') (hT _ _ _ hname hname')
  | .set ho hname h, .set ho' hname' h' =>
    obtain ⟨hobject, hvalue⟩ := List.forall_mem_append.mp hs
    obtain ⟨hobject', hvalue'⟩ := List.forall_mem_append.mp hs'
    exact .set (ho.link hT hbase ho' hobject hobject') (hT _ _ _ hname hname')
      (h.link hT hbase h' hvalue hvalue')
  | .call h hparen hes, .call h' hparen' hes' =>
    obtain ⟨hcallee, harguments⟩ := List.forall_mem_append.mp hs
    obtain ⟨hcallee', harguments'⟩ := List.forall_mem_append.mp hs'
    exact .call (h.link hT hbase h' hcallee hcallee') (hT _ _ _ hparen hparen')
      (hes.link hT hbase hes' harguments harguments')

theorem ArgumentsAlike.link (hT : Meets T T' L) (hbase : base.Complete) {as es es' : List Expr}
    {scopes : List Scope} (h : ArgumentsAlike T AnyNode as es)
    (h' : ArgumentsAlike T' AnyNode as es')
    (hs : ∀ ref ∈ argumentReferences es, ok ⟨ref, graft base scopes⟩)
    (hs' : ∀ ref ∈ argumentReferences es', ok' ⟨ref, scopes⟩) :
    ArgumentsAlike (Token.Alike L) (Linked ok ok') es es' := by
  match h, h' with
  | .nil, .nil => exact .nil
  | .cons h hes, .cons h' hes' =>
    obtain ⟨he, hrest⟩ := List.forall_mem_append.mp hs
    obtain ⟨he', hrest'⟩ := List.forall_mem_append.mp hs'
    exact .cons (h.link hT hbase h' he he') (hes.link hT hbase hes' hrest hrest')

end

theorem forall₂_link (hT : Meets T T' L) {ts ts₁ ts₂ : List Token} (h : List.Forall₂ T ts ts₁)
    (h' : List.Forall₂ T' ts ts₂) : List.Forall₂ (Token.Alike L) ts₁ ts₂ := by
  induction h generalizing ts₂ with
  | nil => cases h'; exact .nil
  | cons h _ ih =>
    cases h' with
    | cons h' hrest' => exact .cons (hT _ _ _ h h') (ih hrest')

/-- Two statements from the same one open the same scopes behind them. -/
theorem Stmt.Alike.extend (hT : Meets T T' L) {a s s' : Stmt} (h : Stmt.Alike T AnyNode a s)
    (h' : Stmt.Alike T' AnyNode a s') (scopes : List Scope) : s.extend scopes = s'.extend scopes := by
  match h, h' with
  | .bare hname, .bare hname' => simp only [Stmt.extend, (hT _ _ _ hname hname').lexeme]
  | .declare hname _, .declare hname' _ => simp only [Stmt.extend, (hT _ _ _ hname hname').lexeme]
  | .function h, .function h' => simp only [Stmt.extend, (hT _ _ _ h.name h'.name).lexeme]
  | .youth hname _, .youth hname' _ => simp only [Stmt.extend, (hT _ _ _ hname hname').lexeme]
  | .failed, .failed | .expression _, .expression _ | .tell _, .tell _
  | .giveNothing _, .giveNothing _ | .give _ _, .give _ _ | .block _, .block _
  | .branch _ _, .branch _ _ | .branches _ _ _, .branches _ _ _ | .loop _ _, .loop _ _ => rfl

mutual

/-- Two statements from the same one, settled in scopes that differ by a graft, are linked. -/
theorem Stmt.Alike.link (hT : Meets T T' L) (hbase : base.Complete) {a s s' : Stmt}
    {scopes : List Scope} {b b' : Bool} (hne : scopes ≠ []) (h : Stmt.Alike T AnyNode a s)
    (h' : Stmt.Alike T' AnyNode a s') (hs : s.Settled ok (graft base scopes) b)
    (hs' : s'.Settled ok' scopes b') : Stmt.Alike (Token.Alike L) (Linked ok ok') s s' := by
  match h, h' with
  | .failed, .failed => exact .failed
  | .expression h, .expression h' => exact .expression (h.link hT hbase h' hs hs')
  | .tell h, .tell h' => exact .tell (h.link hT hbase h' hs hs')
  | .bare hname, .bare hname' => exact .bare (hT _ _ _ hname hname')
  | .declare hname h, .declare hname' h' =>
    have hvalue := hs.2
    rw [noted_graft, (hT _ _ _ hname hname').lexeme] at hvalue
    exact .declare (hT _ _ _ hname hname') (h.link hT hbase h' hvalue hs'.2)
  | .giveNothing ht, .giveNothing ht' => exact .giveNothing (hT _ _ _ ht ht')
  | .give ht h, .give ht' h' => exact .give (hT _ _ _ ht ht') (h.link hT hbase h' hs.2 hs'.2)
  | .block h, .block h' =>
    have hbody : BodySettled ok _ _ _ := hs
    rw [← graft_cons hne] at hbody
    exact .block (h.link hT hbase (List.cons_ne_nil _ _) h' hbody hs')
  | .branch hc hyes, .branch hc' hyes' =>
    exact .branch (hc.link hT hbase hc' hs.1 hs'.1)
      (hyes.link hT hbase hne hyes' hs.2.2 hs'.2.2)
  | .branches hc hyes hno, .branches hc' hyes' hno' =>
    exact .branches (hc.link hT hbase hc' hs.1 hs'.1)
      (hyes.link hT hbase hne hyes' hs.2.1.2 hs'.2.1.2)
      (hno.link hT hbase hne hno' hs.2.2.2 hs'.2.2.2)
  | .loop hc h, .loop hc' h' =>
    exact .loop (hc.link hT hbase hc' hs.1 hs'.1) (h.link hT hbase hne h' hs.2.2 hs'.2.2)
  | .function h, .function h' =>
    have hbody : Function.Settled ok _ _ := hs
    rw [declared_graft, (hT _ _ _ h.name h'.name).lexeme] at hbody
    exact .function (h.link hT hbase (declared_ne_nil hne) h' hbody hs')
  | .youth hname h, .youth hname' h' =>
    have hmethods : MethodsSettled ok _ _ := hs
    rw [declared_graft, (hT _ _ _ hname hname').lexeme, ← graft_cons (declared_ne_nil hne)]
      at hmethods
    exact .youth (hT _ _ _ hname hname')
      (h.link hT hbase (List.cons_ne_nil _ _) h' hmethods hs')

theorem Function.Alike.link (hT : Meets T T' L) (hbase : base.Complete) {a f f' : Function}
    {scopes : List Scope} (hne : scopes ≠ []) (h : Function.Alike T AnyNode a f)
    (h' : Function.Alike T' AnyNode a f') (hs : f.Settled ok (graft base scopes))
    (hs' : f'.Settled ok' scopes) : Function.Alike (Token.Alike L) (Linked ok ok') f f' := by
  match h, h' with
  | .mk hname hps h, .mk hname' hps' h' =>
    have hparameters := forall₂_link hT hps hps'
    have hbody : BodySettled ok _ _ _ := hs
    rw [parameterScope_eq _ _ hparameters, ← graft_cons hne] at hbody
    exact .mk (hT _ _ _ hname hname') hparameters
      (h.link hT hbase (List.cons_ne_nil _ _) h' hbody hs')

theorem BodyAlike.link (hT : Meets T T' L) (hbase : base.Complete) {as body body' : List Stmt}
    {scopes : List Scope} {b b' : Bool} (hne : scopes ≠ []) (h : BodyAlike T AnyNode as body)
    (h' : BodyAlike T' AnyNode as body') (hs : BodySettled ok (graft base scopes) b body)
    (hs' : BodySettled ok' scopes b' body') :
    BodyAlike (Token.Alike L) (Linked ok ok') body body' := by
  match h, h' with
  | .nil, .nil => exact .nil
  | .cons h hbody, .cons h' hbody' =>
    have hrest := hs.2
    rw [Stmt.extend_graft, h.extend hT h'] at hrest
    exact .cons (h.link hT hbase hne h' hs.1 hs'.1)
      (hbody.link hT hbase (Stmt.extend_ne_nil hne _) hbody' hrest hs'.2)

theorem MethodsAlike.link (hT : Meets T T' L) (hbase : base.Complete)
    {as ms ms' : List Function} {scopes : List Scope} (hne : scopes ≠ [])
    (h : MethodsAlike T AnyNode as ms) (h' : MethodsAlike T' AnyNode as ms')
    (hs : MethodsSettled ok (graft base scopes) ms) (hs' : MethodsSettled ok' scopes ms') :
    MethodsAlike (Token.Alike L) (Linked ok ok') ms ms' := by
  match h, h' with
  | .nil, .nil => exact .nil
  | .cons h hms, .cons h' hms' =>
    exact .cons (h.link hT hbase hne h' hs.1 hs'.1) (hms.link hT hbase hne hms' hs.2 hs'.2)

end

end Links

end YouthLang

import YouthLang.Proofs.Formed
import YouthLang.Proofs.Visits

/-!
# Proofs/Settled — a program judged piece by piece

Whether a piece of a program uses its names rightly depends only on the scopes around it.
`Stmt.Settled ok` says so for a piece on its own: every node in it, seen with the scopes that are open
there, is `ok`, and a value is only given back inside a function.  The walk of `Scope` establishes it
for a whole program at once (`settled_of_resolve`); a run, which takes the program apart, hands it on
from a piece to its parts.
-/

namespace YouthLang

/-! ## The judgement

A piece is settled in scopes, node by node.  What a statement declares is added for the statements
behind it, as the walk does. -/

/-- The scopes behind a statement. -/
def Stmt.extend (scopes : List Scope) : Stmt → List Scope
  | .declare name _ => declared name.lexeme scopes
  | .function declaration => declared declaration.name.lexeme scopes
  | .youth name _ => declared name.lexeme scopes
  | _ => scopes

/-- The scopes behind a list of statements. -/
def bodyExtend (scopes : List Scope) (body : List Stmt) : List Scope :=
  body.foldl Stmt.extend scopes

/-- Every node of an expression is ok with the scopes around it. -/
def Expr.Settled (ok : Visit → Prop) (scopes : List Scope) (e : Expr) : Prop :=
  ∀ ref ∈ e.references, ok ⟨ref, scopes⟩

mutual

/-- Every node of a statement is ok with the scopes open there, a variable is new to its scope, and a
value is only given back inside a function. -/
def Stmt.Settled (ok : Visit → Prop) (scopes : List Scope) (inFunction : Bool) : Stmt → Prop
  | .failed => True
  | .expression value => value.Settled ok scopes
  | .tell value => value.Settled ok scopes
  | .declare _ none => True
  | .declare name (some value) =>
    (scopes.headD []).lookup name.lexeme = none ∧ value.Settled ok (noted name.lexeme false scopes)
  | .give _ none => inFunction = true
  | .give _ (some value) => inFunction = true ∧ value.Settled ok scopes
  | .block body => BodySettled ok ([] :: scopes) inFunction body
  | .branch condition yes none =>
    condition.Settled ok scopes ∧ yes.declares = false ∧ yes.Settled ok scopes inFunction
  | .branch condition yes (some no) =>
    condition.Settled ok scopes ∧ (yes.declares = false ∧ yes.Settled ok scopes inFunction)
      ∧ no.declares = false ∧ no.Settled ok scopes inFunction
  | .loop condition body =>
    condition.Settled ok scopes ∧ body.declares = false ∧ body.Settled ok scopes inFunction
  | .function declaration => declaration.Settled ok (declared declaration.name.lexeme scopes)
  | .youth name methods =>
    MethodsSettled ok ([(receiver, true)] :: declared name.lexeme scopes) methods

/-- The same for a function. -/
def Function.Settled (ok : Visit → Prop) (scopes : List Scope) : Function → Prop
  | .mk _ parameters body => BodySettled ok (parameterScope parameters :: scopes) true body

/-- The same for a list of statements. -/
def BodySettled (ok : Visit → Prop) (scopes : List Scope) (inFunction : Bool) : List Stmt → Prop
  | [] => True
  | s :: rest =>
    s.Settled ok scopes inFunction ∧ BodySettled ok (s.extend scopes) inFunction rest

/-- The same for a list of methods. -/
def MethodsSettled (ok : Visit → Prop) (scopes : List Scope) : List Function → Prop
  | [] => True
  | m :: rest => m.Settled ok scopes ∧ MethodsSettled ok scopes rest

end

/-- Of settled methods each is settled. -/
theorem MethodsSettled.of_mem {ok : Visit → Prop} {scopes : List Scope} : ∀ {ms : List Function},
    MethodsSettled ok scopes ms → ∀ m ∈ ms, m.Settled ok scopes
  | m :: ms, h, x, hx => by
      rcases List.mem_cons.mp hx with rfl | hx
      · exact h.1
      · exact h.2.of_mem x hx

/-- A body is settled when its first part is, and the rest behind it. -/
theorem BodySettled.append {ok : Visit → Prop} {inFunction : Bool} : ∀ {scopes : List Scope}
    {body rest : List Stmt}, BodySettled ok scopes inFunction (body ++ rest) ↔
      BodySettled ok scopes inFunction body
        ∧ BodySettled ok (bodyExtend scopes body) inFunction rest
  | scopes, [], rest => by simp [BodySettled, bodyExtend]
  | scopes, s :: body, rest => by
      have ih := @BodySettled.append ok inFunction (s.extend scopes) body rest
      simp only [List.cons_append, BodySettled, ih, and_assoc]
      rfl

/-- A statement that declares nothing leaves the scopes as they are. -/
theorem Stmt.extend_of_declares_eq_false {s : Stmt} (h : s.declares = false) (scopes : List Scope) :
    s.extend scopes = scopes := by
  cases s <;> first | rfl | simp [Stmt.declares] at h

/-- A name noted stays in the innermost scope. -/
@[simp] theorem tail_noted (name : Text) (b : Bool) (scopes : List Scope) :
    (noted name b scopes).tail = scopes.tail := by
  cases scopes <;> rfl

/-- So does one declared. -/
@[simp] theorem tail_declared (name : Text) (scopes : List Scope) :
    (declared name scopes).tail = scopes.tail := by simp [declared]

/-- A statement touches only the innermost scope. -/
@[simp] theorem Stmt.tail_extend (s : Stmt) (scopes : List Scope) :
    (s.extend scopes).tail = scopes.tail := by
  cases s <;> simp [Stmt.extend]

/-- So does all that a body declares. -/
@[simp] theorem tail_bodyExtend (body : List Stmt) (scopes : List Scope) :
    (bodyExtend scopes body).tail = scopes.tail := by
  induction body generalizing scopes with
  | nil => rfl
  | cons s body ih => exact (ih (s.extend scopes)).trans (s.tail_extend scopes)

/-! ## A walk without mistakes settles a program -/

/-- A token spelled as the language spells it: only the receiver is called by its name. -/
def Token.Spelled (t : Token) : Prop :=
  (t.kind = .identifier → t.lexeme ≠ receiver) ∧ (t.kind = .meKey → t.lexeme = receiver)

/-- Every declaration of a scope is complete. -/
def Scope.Complete (scope : Scope) : Prop := ∀ name, scope.lookup name ≠ some false

/-- Only in the innermost scope may a declaration be incomplete, and not that of the receiver. -/
def HalfComplete (scopes : List Scope) : Prop :=
  (∀ scope ∈ scopes.tail, scope.Complete) ∧ (scopes.headD []).lookup receiver ≠ some false

/-- Where every name is complete, only the innermost scope may come to hold one that is not. -/
theorem halfComplete_of_forall {scopes : List Scope} (h : ∀ scope ∈ scopes, scope.Complete) :
    HalfComplete scopes := by
  refine ⟨fun scope hs => h scope (List.mem_of_mem_tail hs), ?_⟩
  cases scopes with
  | nil => simp
  | cons scope outer => exact h scope List.mem_cons_self receiver

/-- A declaration under way is the only incomplete one. -/
theorem halfComplete_noted {name : Text} (hname : name ≠ receiver) {scopes : List Scope}
    (h : ∀ scope ∈ scopes, scope.Complete) : HalfComplete (noted name false scopes) := by
  obtain ⟨ht, hr⟩ := halfComplete_of_forall h
  refine ⟨by simpa using ht, ?_⟩
  cases scopes with
  | nil => simp [noted]
  | cons scope outer =>
    have hne : (receiver == name) = false := by simpa using hname.symm
    simpa [noted, List.lookup_cons, hne] using hr

/-- A name that is declared and then complete leaves its scope complete. -/
theorem Scope.Complete.declared {scope : Scope} (h : scope.Complete) (name : Text) :
    Scope.Complete ((name, true) :: (name, false) :: scope) := by
  intro other
  by_cases he : other = name
  · simp [he]
  · have hne : (other == name) = false := by simpa using he
    simpa [List.lookup_cons, hne] using h other

/-- So it leaves all scopes. -/
theorem complete_declared {scopes : List Scope} (h : ∀ scope ∈ scopes, scope.Complete)
    (name : Text) : ∀ scope ∈ YouthLang.declared name scopes, scope.Complete := by
  cases scopes with
  | nil => simp [YouthLang.declared, noted]
  | cons scope outer =>
    simp only [YouthLang.declared, noted, List.mem_cons, forall_eq_or_imp] at h ⊢
    exact ⟨h.1.declared name, h.2⟩

/-- So does every statement. -/
theorem Stmt.complete_extend {scopes : List Scope} (h : ∀ scope ∈ scopes, scope.Complete)
    (s : Stmt) : ∀ scope ∈ s.extend scopes, scope.Complete := by
  cases s with
  | declare name _ => exact complete_declared h name.lexeme
  | function declaration => exact complete_declared h declaration.name.lexeme
  | youth name _ => exact complete_declared h name.lexeme
  | _ => exact h

/-- Parameters are complete from the start. -/
theorem complete_parameterScope (ps : List Token) : (parameterScope ps).Complete := by
  have h : ∀ (ps : List Token) (scope : Scope), scope.Complete →
      Scope.Complete (ps.foldl (fun scope p => (p.lexeme, true) :: (p.lexeme, false) :: scope)
        scope) := by
    intro ps
    induction ps with
    | nil => exact fun _ h => h
    | cons p ps ih => exact fun _ h => ih _ (h.declared p.lexeme)
  exact h ps [] fun name => by simp

/-- A node outside the initializer of its own name refers to a complete declaration. -/
theorem Visit.firm_or_inOwnInitializer (v : Visit)
    (h : ∀ scope ∈ v.scopes.tail, scope.Complete) : v.Firm ∨ v.InOwnInitializer := by
  by_cases hv : v.InOwnInitializer
  · exact Or.inr hv
  · refine Or.inl fun d scope hd hs => ?_
    have hsome : (scope.lookup v.name).isSome := by
      obtain ⟨hlt, hp, -⟩ := List.findIdx?_eq_some_iff_getElem.mp hd
      obtain rfl : v.scopes[d] = scope := by
        simpa [List.getElem?_eq_getElem hlt] using hs
      exact hp
    obtain ⟨complete, hl⟩ := Option.isSome_iff_exists.mp hsome
    have hne : scope.lookup v.name ≠ some false := by
      cases d with
      | zero =>
        have hhead : v.scopes.headD [] = scope := by
          simp [List.headD_eq_head?_getD, List.head?_eq_getElem?, hs]
        exact fun hl => hv (by rw [Visit.InOwnInitializer, hhead]; exact hl)
      | succ d =>
        have htail : v.scopes.tail[d]? = some scope := by simpa using hs
        exact h scope (List.mem_of_getElem? htail) v.name
    cases complete with
    | true => exact hl
    | false => exact absurd hl hne

mutual

/-- A walk over an expression visits every node with the scopes it started with; without mistakes, no
node reads a name in that name's own initializer. -/
theorem Expr.mem_visits (r : Resolution) : ∀ e : Expr, (e.resolve r).mistakes = [] →
    ∀ v ∈ e.visits r, v.scopes = r.scopes ∧ (v.reference.use = .read → ¬ v.InOwnInitializer)
  | .literal _, _, v, hv => by simp [Expr.visits] at hv
  | .variable node name, h, v, hv => by
      obtain rfl := List.mem_singleton.mp hv
      refine ⟨rfl, fun _ hown => ?_⟩
      have hown : r.innermost.lookup name.lexeme = some false := hown
      simp [Expr.resolve, hown] at h
  | .me _ _, _, v, hv => by
      obtain rfl := List.mem_singleton.mp hv
      exact ⟨rfl, fun h => by simp at h⟩
  | .group inner, h, v, hv => inner.mem_visits r h v hv
  | .unary _ _ operand, h, v, hv => operand.mem_visits r h v hv
  | .binary _ _ left right, h, v, hv => by
      rcases List.mem_append.mp hv with hv | hv
      · exact left.mem_visits r (right.clean_of_resolve _ h) v hv
      · simpa using right.mem_visits _ h v hv
  | .logical _ _ left right, h, v, hv => by
      rcases List.mem_append.mp hv with hv | hv
      · exact left.mem_visits r (right.clean_of_resolve _ h) v hv
      · simpa using right.mem_visits _ h v hv
  | .assign node name value, h, v, hv => by
      simp only [Expr.resolve, Resolution.mistakes_resolve] at h
      rcases List.mem_append.mp hv with hv | hv
      · exact value.mem_visits r h v hv
      · obtain rfl := List.mem_singleton.mp hv
        exact ⟨value.scopes_resolve r, fun h => by simp at h⟩
  | .get object _, h, v, hv => object.mem_visits r h v hv
  | .set object _ value, h, v, hv => by
      rcases List.mem_append.mp hv with hv | hv
      · exact value.mem_visits r (object.clean_of_resolve _ h) v hv
      · simpa using object.mem_visits _ h v hv
  | .call callee _ arguments, h, v, hv => by
      rcases List.mem_append.mp hv with hv | hv
      · exact callee.mem_visits r (clean_of_resolveArguments _ arguments h) v hv
      · simpa using mem_argumentVisits _ arguments h v hv

/-- Arguments are visited in the scopes of their call, and read no name in its own initializer. -/
theorem mem_argumentVisits (r : Resolution) : ∀ es : List Expr,
    (resolveArguments r es).mistakes = [] → ∀ v ∈ argumentVisits r es,
      v.scopes = r.scopes ∧ (v.reference.use = .read → ¬ v.InOwnInitializer)
  | [], _, v, hv => by simp [argumentVisits] at hv
  | e :: rest, h, v, hv => by
      rcases List.mem_append.mp hv with hv | hv
      · exact e.mem_visits r (clean_of_resolveArguments _ rest h) v hv
      · simpa using mem_argumentVisits _ rest h v hv

end

/-- A walk over an expression without mistakes settles it. -/
theorem Expr.settled {ok : Visit → Prop} {r : Resolution} {e : Expr}
    (hclean : (e.resolve r).mistakes = [])
    (hformed : ∀ ref ∈ e.references, ref.Formed Token.Spelled) (hhalf : HalfComplete r.scopes)
    (hok : ∀ v ∈ e.visits r, v.Legible → ok v) : e.Settled ok r.scopes := by
  intro ref href
  obtain ⟨v, hv, rfl⟩ := List.mem_map.mp ((e.visits_perm r).mem_iff.mpr href)
  obtain ⟨hscopes, hread⟩ := e.mem_visits r hclean v hv
  have hlegible : v.Legible := by
    rcases v.firm_or_inOwnInitializer (hscopes ▸ hhalf.1) with hfirm | hown
    · exact Or.inl hfirm
    · cases huse : v.reference.use with
      | read => exact absurd hown (hread huse)
      | write => exact Or.inr ⟨huse, hown⟩
      | receiver =>
        obtain ⟨hkind, hspelled⟩ := hformed _ href
        have hname : v.name = receiver := hspelled.2 (by rw [hkind, huse]; rfl)
        rw [Visit.InOwnInitializer, hscopes, hname] at hown
        exact absurd hown hhalf.2
  have := hok v hv hlegible
  rwa [← hscopes]

mutual

/-- A walk over a formed statement declares what the statement declares, and comes back to where it
stood. -/
theorem Stmt.resolve_setting {allowed : Token → Prop} (r : Resolution) : ∀ s : Stmt,
    s.Formed allowed →
      (s.resolve r).scopes = s.extend r.scopes ∧ (s.resolve r).inFunction = r.inFunction
  | .failed, _ => ⟨rfl, rfl⟩
  | .expression value, _ => ⟨value.scopes_resolve r, value.inFunction_resolve r⟩
  | .tell value, _ => ⟨value.scopes_resolve r, value.inFunction_resolve r⟩
  | .declare name none, _ => by simp [Stmt.resolve, Stmt.extend, declared]
  | .declare name (some value), _ => by simp [Stmt.resolve, Stmt.extend, declared]
  | .give _ none, _ => by
      simp only [Stmt.resolve, Stmt.extend]
      split <;> exact ⟨rfl, rfl⟩
  | .give _ (some value), _ => by
      simp only [Stmt.resolve, Stmt.extend, Expr.scopes_resolve, Expr.inFunction_resolve]
      split <;> exact ⟨rfl, rfl⟩
  | .block body, h => by
      obtain ⟨hs, hf⟩ := resolveBody_setting (r.enter []) body h
      exact ⟨(congrArg List.tail hs).trans (tail_bodyExtend body _), hf⟩
  | .branch condition yes none, h => by
      obtain ⟨hs, hf⟩ := yes.resolve_setting (condition.resolve r) h.2
      rw [yes.extend_of_declares_eq_false h.1] at hs
      exact ⟨hs.trans (condition.scopes_resolve r), hf.trans (condition.inFunction_resolve r)⟩
  | .branch condition yes (some no), h => by
      obtain ⟨hdy, hy, hdn, hn⟩ := h
      obtain ⟨hs, hf⟩ := yes.resolve_setting (condition.resolve r) hy
      obtain ⟨hs', hf'⟩ := no.resolve_setting (yes.resolve (condition.resolve r)) hn
      rw [yes.extend_of_declares_eq_false hdy] at hs
      rw [no.extend_of_declares_eq_false hdn] at hs'
      exact ⟨hs'.trans (hs.trans (condition.scopes_resolve r)),
        hf'.trans (hf.trans (condition.inFunction_resolve r))⟩
  | .loop condition body, h => by
      obtain ⟨hs, hf⟩ := body.resolve_setting (condition.resolve r) h.2
      rw [body.extend_of_declares_eq_false h.1] at hs
      exact ⟨hs.trans (condition.scopes_resolve r), hf.trans (condition.inFunction_resolve r)⟩
  | .function declaration, h => by
      obtain ⟨hs, hf⟩ := declaration.resolve_setting
        ((r.declare declaration.name).define declaration.name) h
      exact ⟨hs.trans (by simp [Stmt.extend, declared]), hf.trans (by simp)⟩
  | .youth name methods, h => by
      obtain ⟨hs, hf⟩ := resolveMethods_setting
        { ((r.declare name).define name).enter [(receiver, true)] with inYouth := true } methods h.2
      refine ⟨(congrArg List.tail hs).trans ?_, hf.trans (by simp [Resolution.enter])⟩
      simp [Stmt.extend, Resolution.enter, declared]

/-- A function leaves the scopes around it and the mark for functions. -/
theorem Function.resolve_setting {allowed : Token → Prop} (r : Resolution) : ∀ f : Function,
    f.Formed allowed → (f.resolve r).scopes = r.scopes ∧ (f.resolve r).inFunction = r.inFunction
  | .mk _ parameters body, h => by
      obtain ⟨hs, -⟩ := resolveBody_setting
        { parameters.foldl (fun r p => (r.declare p).define p) (r.enter [])
          with inFunction := true } body h.2.2
      have hp := scopes_parameters (r.enter []) [] r.scopes rfl parameters
      refine ⟨(congrArg List.tail hs).trans ?_, rfl⟩
      rw [tail_bodyExtend]
      exact congrArg List.tail hp

/-- A body leaves the scopes with what it declares. -/
theorem resolveBody_setting {allowed : Token → Prop} (r : Resolution) : ∀ body : List Stmt,
    BodyFormed allowed body → (resolveBody r body).scopes = bodyExtend r.scopes body
      ∧ (resolveBody r body).inFunction = r.inFunction
  | [], _ => ⟨rfl, rfl⟩
  | s :: rest, h => by
      obtain ⟨hs, hf⟩ := s.resolve_setting r h.1
      obtain ⟨hs', hf'⟩ := resolveBody_setting (s.resolve r) rest h.2
      exact ⟨hs'.trans (by rw [hs]; rfl), hf'.trans hf⟩

/-- Methods leave them as they were. -/
theorem resolveMethods_setting {allowed : Token → Prop} (r : Resolution) : ∀ ms : List Function,
    MethodsFormed allowed ms → (resolveMethods r ms).scopes = r.scopes
      ∧ (resolveMethods r ms).inFunction = r.inFunction
  | [], _ => ⟨rfl, rfl⟩
  | m :: rest, h => by
      obtain ⟨hs, hf⟩ := m.resolve_setting r h.1
      obtain ⟨hs', hf'⟩ := resolveMethods_setting (m.resolve r) rest h.2
      exact ⟨hs'.trans hs, hf'.trans hf⟩

end

/-- The receiver's name is not declared by a program. -/
theorem Token.IsName.ne_receiver {t : Token} (h : t.IsName Token.Spelled) : t.lexeme ≠ receiver :=
  h.2.1 h.1

/-- What a part of a program is visited as, the program is. -/
theorem forall_of_append_left {ok : Visit → Prop} {vs ws : List Visit}
    (h : ∀ v ∈ vs ++ ws, v.Legible → ok v) : ∀ v ∈ vs, v.Legible → ok v :=
  fun v hv => h v (List.mem_append_left ws hv)

/-- What holds of the legible visits of two parts holds of those of the second. -/
theorem forall_of_append_right {ok : Visit → Prop} {vs ws : List Visit}
    (h : ∀ v ∈ vs ++ ws, v.Legible → ok v) : ∀ v ∈ ws, v.Legible → ok v :=
  fun v hv => h v (List.mem_append_right vs hv)

mutual

/-- **A walk over a statement without mistakes settles it.** -/
theorem Stmt.settled {ok : Visit → Prop} (r : Resolution) : ∀ s : Stmt,
    (s.resolve r).mistakes = [] → s.Formed Token.Spelled →
    (∀ ref ∈ s.references, ref.Formed Token.Spelled) → (∀ scope ∈ r.scopes, scope.Complete) →
    (∀ v ∈ s.visits r, v.Legible → ok v) → s.Settled ok r.scopes r.inFunction
  | .failed, _, _, _, _, _ => trivial
  | .expression value, hclean, _, hrefs, hcomplete, hok =>
      value.settled hclean hrefs (halfComplete_of_forall hcomplete) hok
  | .tell value, hclean, _, hrefs, hcomplete, hok =>
      value.settled hclean hrefs (halfComplete_of_forall hcomplete) hok
  | .declare _ none, _, _, _, _, _ => trivial
  -- The initializer is walked with the name noted and not yet complete.
  | .declare name (some value), hclean, hformed, hrefs, hcomplete, hok => by
      have hname : name.lexeme ≠ receiver := Token.IsName.ne_receiver hformed
      have hhalf : HalfComplete (r.declare name).scopes := by
        rw [Resolution.scopes_declare]
        exact halfComplete_noted hname hcomplete
      simp only [Stmt.resolve, Resolution.mistakes_define] at hclean
      have hnew := (r.mistakes_declare_eq_nil name).mp (value.clean_of_resolve _ hclean)
      have := value.settled hclean hrefs hhalf hok
      rw [Resolution.scopes_declare] at this
      exact ⟨hnew.2, this⟩
  -- Outside of a function the walk would have reported it.
  | .give _ none, hclean, _, _, _, _ => by
      simp only [Stmt.resolve] at hclean
      split at hclean
      · next h => exact h
      · exact absurd hclean (by simp)
  | .give _ (some value), hclean, _, hrefs, hcomplete, hok => by
      have hf : r.inFunction = true := by
        have := value.clean_of_resolve _ hclean
        cases hf : r.inFunction with
        | true => rfl
        | false => simp [hf] at this
      simp only [Stmt.resolve, Stmt.visits, hf, if_true] at hclean hok
      exact ⟨hf, value.settled hclean hrefs (halfComplete_of_forall hcomplete) hok⟩
  | .block body, hclean, hformed, hrefs, hcomplete, hok => by
      refine bodySettled (r.enter []) body hclean hformed hrefs ?_ hok
      simp only [Resolution.enter, List.mem_cons, forall_eq_or_imp]
      exact ⟨fun name => by simp, hcomplete⟩
  -- Each part is walked behind the ones before it, which leave the scopes as they were.
  | .branch condition yes none, hclean, hformed, hrefs, hcomplete, hok => by
      have hc := yes.clean_of_resolve _ hclean
      simp only [Stmt.references, List.mem_append] at hrefs
      have hcond := condition.settled hc (fun ref h => hrefs ref (Or.inl h))
        (halfComplete_of_forall hcomplete) (forall_of_append_left hok)
      have hyes := yes.settled _ hclean hformed.2 (fun ref h => hrefs ref (Or.inr h))
        (by simpa using hcomplete) (forall_of_append_right hok)
      simp only [Expr.scopes_resolve, Expr.inFunction_resolve] at hyes
      exact ⟨hcond, hformed.1, hyes⟩
  -- A branch declares nothing, so the other one is walked in the same scopes.
  | .branch condition yes (some no), hclean, hformed, hrefs, hcomplete, hok => by
      obtain ⟨hdy, hfy, hdn, hfn⟩ := hformed
      have hy := no.clean_of_resolve _ hclean
      have hc := yes.clean_of_resolve _ hy
      simp only [Stmt.references, List.mem_append] at hrefs
      have hcond := condition.settled hc (fun ref h => hrefs ref (Or.inl (Or.inl h)))
        (halfComplete_of_forall hcomplete) (forall_of_append_left (forall_of_append_left hok))
      have hyes := yes.settled _ hy hfy (fun ref h => hrefs ref (Or.inl (Or.inr h)))
        (by simpa using hcomplete) (forall_of_append_right (forall_of_append_left hok))
      obtain ⟨hs, hf⟩ := yes.resolve_setting (condition.resolve r) hfy
      rw [yes.extend_of_declares_eq_false hdy] at hs
      have hno := no.settled _ hclean hfn (fun ref h => hrefs ref (Or.inr h))
        (by simpa [hs] using hcomplete) (forall_of_append_right hok)
      simp only [hs, hf, Expr.scopes_resolve, Expr.inFunction_resolve] at hyes hno
      exact ⟨hcond, ⟨hdy, hyes⟩, hdn, hno⟩
  | .loop condition body, hclean, hformed, hrefs, hcomplete, hok => by
      have hc := body.clean_of_resolve _ hclean
      simp only [Stmt.references, List.mem_append] at hrefs
      have hcond := condition.settled hc (fun ref h => hrefs ref (Or.inl h))
        (halfComplete_of_forall hcomplete) (forall_of_append_left hok)
      have hbody := body.settled _ hclean hformed.2 (fun ref h => hrefs ref (Or.inr h))
        (by simpa using hcomplete) (forall_of_append_right hok)
      simp only [Expr.scopes_resolve, Expr.inFunction_resolve] at hbody
      exact ⟨hcond, hformed.1, hbody⟩
  -- The function's own name is complete before its body is walked.
  | .function declaration, hclean, hformed, hrefs, hcomplete, hok => by
      have := declaration.settled _ hclean hformed hrefs
        (by simpa [declared] using complete_declared hcomplete declaration.name.lexeme) hok
      simpa [Stmt.Settled, declared] using this
  -- Around the methods stands a scope with the receiver alone.
  | .youth name methods, hclean, hformed, hrefs, hcomplete, hok => by
      have hc : ∀ scope ∈ [(receiver, true)] :: declared name.lexeme r.scopes,
          Scope.Complete scope := by
        simp only [List.mem_cons, forall_eq_or_imp]
        refine ⟨fun other => ?_, complete_declared hcomplete name.lexeme⟩
        simp only [List.lookup_cons, List.lookup_nil]
        split <;> simp
      have := methodsSettled _ methods hclean hformed.2 hrefs
        (by simpa [Resolution.enter, declared] using hc) hok
      simpa [Stmt.Settled, declared, Resolution.enter] using this

/-- A function is settled when it is resolved without a mistake. -/
theorem Function.settled {ok : Visit → Prop} (r : Resolution) : ∀ f : Function,
    (f.resolve r).mistakes = [] → f.Formed Token.Spelled →
    (∀ ref ∈ f.references, ref.Formed Token.Spelled) → (∀ scope ∈ r.scopes, scope.Complete) →
    (∀ v ∈ f.visits r, v.Legible → ok v) → f.Settled ok r.scopes
  | .mk _ parameters body, hclean, hformed, hrefs, hcomplete, hok => by
      have hp := scopes_parameters (r.enter []) [] r.scopes rfl parameters
      have := bodySettled _ body hclean hformed.2.2 hrefs
        (by
          simp only [hp, List.mem_cons, forall_eq_or_imp]
          exact ⟨complete_parameterScope parameters, hcomplete⟩) hok
      rw [Function.Settled, parameterScope, ← hp]
      exact this

/-- So is a body, each statement behind those before it. -/
theorem bodySettled {ok : Visit → Prop} (r : Resolution) : ∀ body : List Stmt,
    (resolveBody r body).mistakes = [] → BodyFormed Token.Spelled body →
    (∀ ref ∈ bodyReferences body, ref.Formed Token.Spelled) →
    (∀ scope ∈ r.scopes, scope.Complete) → (∀ v ∈ bodyVisits r body, v.Legible → ok v) →
      BodySettled ok r.scopes r.inFunction body
  | [], _, _, _, _, _ => trivial
  | s :: rest, hclean, hformed, hrefs, hcomplete, hok => by
      simp only [bodyReferences, List.mem_append] at hrefs
      have hs := s.settled r (clean_of_resolveBody _ rest hclean) hformed.1
        (fun ref h => hrefs ref (Or.inl h)) hcomplete (forall_of_append_left hok)
      obtain ⟨hscopes, hfunction⟩ := s.resolve_setting r hformed.1
      have hrest := bodySettled _ rest hclean hformed.2 (fun ref h => hrefs ref (Or.inr h))
        (by rw [hscopes]; exact s.complete_extend hcomplete) (forall_of_append_right hok)
      rw [hscopes, hfunction] at hrest
      exact ⟨hs, hrest⟩

/-- So are methods. -/
theorem methodsSettled {ok : Visit → Prop} (r : Resolution) : ∀ ms : List Function,
    (resolveMethods r ms).mistakes = [] → MethodsFormed Token.Spelled ms →
    (∀ ref ∈ methodReferences ms, ref.Formed Token.Spelled) →
    (∀ scope ∈ r.scopes, scope.Complete) → (∀ v ∈ methodVisits r ms, v.Legible → ok v) →
      MethodsSettled ok r.scopes ms
  | [], _, _, _, _, _ => trivial
  | m :: rest, hclean, hformed, hrefs, hcomplete, hok => by
      simp only [methodReferences, List.mem_append] at hrefs
      have hm := m.settled r (clean_of_resolveMethods _ rest hclean) hformed.1
        (fun ref h => hrefs ref (Or.inl h)) hcomplete (forall_of_append_left hok)
      obtain ⟨hscopes, -⟩ := m.resolve_setting r hformed.1
      have hrest := methodsSettled _ rest hclean hformed.2 (fun ref h => hrefs ref (Or.inr h))
        (by rw [hscopes]; exact hcomplete) (forall_of_append_right hok)
      rw [hscopes] at hrest
      exact ⟨hm, hrest⟩

end

/-- The table of a program without mistakes answers each of its visits. -/
theorem getElem?_distances_resolve {statements : List Stmt}
    (hclean : (resolve statements).diagnostics = [])
    (hnodes : ((bodyReferences statements).map Reference.node).Nodup) :
    ∀ v ∈ visitsOf statements, (resolve statements).distances[v.node]? = v.distance? := by
  have hclean : (resolveBody ⟨[[]], false, false, ∅, []⟩ statements).mistakes = [] := by
    simpa [resolve] using hclean
  have hperm := (bodyVisits_perm ⟨[[]], false, false, ∅, []⟩ statements).map Reference.node
  rw [List.map_map] at hperm
  have hd : (resolve statements).distances = recordAll ∅ (visitsOf statements) :=
    distances_resolveBody ⟨[[]], false, false, ∅, []⟩ statements hclean
  rw [hd]
  exact getElem?_recordAll (hperm.nodup_iff.mpr hnodes) (by simp)

/-- **A program without mistakes is settled**, with a table that answers each of its nodes. -/
theorem settled_of_resolve {ok : Visit → Prop} {statements : List Stmt}
    (hclean : (resolve statements).diagnostics = [])
    (hformed : BodyFormed Token.Spelled statements)
    (hrefs : ∀ ref ∈ bodyReferences statements, ref.Formed Token.Spelled)
    (hnodes : ((bodyReferences statements).map Reference.node).Nodup)
    (hok : ∀ v ∈ visitsOf statements, v.Legible →
      (resolve statements).distances[v.node]? = v.distance? → ok v) :
    BodySettled ok [[]] false statements := by
  have hanswers := getElem?_distances_resolve hclean hnodes
  have hclean : (resolveBody ⟨[[]], false, false, ∅, []⟩ statements).mistakes = [] := by
    simpa [resolve] using hclean
  refine bodySettled ⟨[[]], false, false, ∅, []⟩ statements hclean hformed hrefs ?_ ?_
  · simp only [List.mem_singleton, forall_eq]
    exact fun name => by simp
  · exact fun v hv hlegible => hok v hv hlegible (hanswers v hv)

end YouthLang

import YouthLang.Scope
import YouthLang.Tree.References

/-!
# Proofs/Visits — what the walk over a program sees at each node

The walk of `Scope` meets every node that uses a name exactly once.  A *visit* is such a node together
with the scopes that are open there, and `Stmt.visits` lists the visits of a walk, in its order.  Two
facts:

* `Stmt.visits_perm` — the nodes visited are the references of the program, in some order.
* `Stmt.distances_resolve` — a walk that finds no mistake enters exactly its visits into the table.
-/

namespace YouthLang

/-- A node met on a walk, and the scopes open there, innermost first. -/
structure Visit where
  reference : Reference
  scopes : List Scope

namespace Visit

variable (v : Visit)

/-- The number of the node. -/
def node : Nat := v.reference.node

/-- The name that the node uses. -/
def name : Text := v.reference.token.lexeme

/-- The number of scopes between the node and the innermost one that declares its name. -/
def distance? : Option Nat := v.scopes.findIdx? fun scope => (scope.lookup v.name).isSome

/-- The declaration that the node refers to, if there is one, is complete. -/
def Firm : Prop :=
  ∀ d scope, v.distance? = some d → v.scopes[d]? = some scope → scope.lookup v.name = some true

/-- The node stands in the initializer of a declaration of its own name. -/
def InOwnInitializer : Prop := (v.scopes.headD []).lookup v.name = some false

instance : Decidable v.InOwnInitializer :=
  inferInstanceAs (Decidable ((v.scopes.headD []).lookup v.name = some false))

/-- The node is no write into a declaration that is not complete. -/
def Legible : Prop := v.Firm ∨ v.reference.use = .write ∧ v.InOwnInitializer

/-- The distances with the visit entered. -/
def record (distances : Distances) : Distances :=
  match v.distance? with
  | some d => distances.insert v.node d
  | none => distances

end Visit

/-! ## The visits of a walk

A visit is a node with the scopes at the moment when the walk meets it.  They are listed by the
recursion of the walk itself. -/

mutual

/-- The visits of the walk over an expression. -/
def Expr.visits (r : Resolution) : Expr → List Visit
  | .literal _ => []
  | .variable node name => [⟨⟨.read, name, node⟩, r.scopes⟩]
  | .me node keyword => [⟨⟨.receiver, keyword, node⟩, r.scopes⟩]
  | .group inner => inner.visits r
  | .unary _ _ operand => operand.visits r
  | .binary _ _ left right => left.visits r ++ right.visits (left.resolve r)
  | .logical _ _ left right => left.visits r ++ right.visits (left.resolve r)
  | .assign node name value =>
    value.visits r ++ [⟨⟨.write, name, node⟩, (value.resolve r).scopes⟩]
  | .get object _ => object.visits r
  | .set object _ value => value.visits r ++ object.visits (value.resolve r)
  | .call callee _ arguments => callee.visits r ++ argumentVisits (callee.resolve r) arguments

/-- The visits of the walk over a list of expressions. -/
def argumentVisits (r : Resolution) : List Expr → List Visit
  | [] => []
  | e :: rest => e.visits r ++ argumentVisits (e.resolve r) rest

end

mutual

/-- The visits of the walk over a statement. -/
def Stmt.visits (r : Resolution) : Stmt → List Visit
  | .failed => []
  | .expression value => value.visits r
  | .tell value => value.visits r
  | .declare _ none => []
  | .declare name (some value) => value.visits (r.declare name)
  | .give _ none => []
  | .give keyword (some value) =>
    value.visits (if r.inFunction then r else r.report keyword .giveOutside)
  | .block body => bodyVisits (r.enter []) body
  | .branch condition yes none => condition.visits r ++ yes.visits (condition.resolve r)
  | .branch condition yes (some no) =>
    condition.visits r ++ yes.visits (condition.resolve r)
      ++ no.visits (yes.resolve (condition.resolve r))
  | .loop condition body => condition.visits r ++ body.visits (condition.resolve r)
  | .function declaration =>
    declaration.visits ((r.declare declaration.name).define declaration.name)
  | .youth name methods =>
    methodVisits
      { ((r.declare name).define name).enter [(receiver, true)] with inYouth := true } methods

/-- The visits of the walk over a function. -/
def Function.visits (r : Resolution) : Function → List Visit
  | .mk _ parameters body =>
    bodyVisits
      { parameters.foldl (fun r p => (r.declare p).define p) (r.enter []) with inFunction := true }
      body

/-- The visits of the walk over a list of statements. -/
def bodyVisits (r : Resolution) : List Stmt → List Visit
  | [] => []
  | s :: rest => s.visits r ++ bodyVisits (s.resolve r) rest

/-- The visits of the walk over a list of methods. -/
def methodVisits (r : Resolution) : List Function → List Visit
  | [] => []
  | m :: rest => m.visits r ++ methodVisits (m.resolve r) rest

end

/-- The visits of the walk over a program. -/
def visitsOf (statements : List Stmt) : List Visit :=
  bodyVisits ⟨[[]], false, false, ∅, []⟩ statements

/-! ## Every reference is visited once -/

mutual

/-- The nodes visited in an expression are its references. -/
theorem Expr.visits_perm (r : Resolution) :
    ∀ e : Expr, ((e.visits r).map Visit.reference).Perm e.references
  | .literal _ => by simp [Expr.visits, Expr.references]
  | .variable _ _ => by simp [Expr.visits, Expr.references]
  | .me _ _ => by simp [Expr.visits, Expr.references]
  | .group inner => inner.visits_perm r
  | .unary _ _ operand => operand.visits_perm r
  | .binary _ _ left right => by
      simp only [Expr.visits, Expr.references, List.map_append]
      exact (left.visits_perm r).append (right.visits_perm _)
  | .logical _ _ left right => by
      simp only [Expr.visits, Expr.references, List.map_append]
      exact (left.visits_perm r).append (right.visits_perm _)
  | .assign node name value => by
      simp only [Expr.visits, Expr.references, List.map_append, List.map_cons, List.map_nil]
      exact List.perm_append_comm.trans ((value.visits_perm r).cons _)
  | .get object _ => object.visits_perm r
  | .set object _ value => by
      simp only [Expr.visits, Expr.references, List.map_append]
      exact List.perm_append_comm.trans ((object.visits_perm _).append (value.visits_perm r))
  | .call callee _ arguments => by
      simp only [Expr.visits, Expr.references, List.map_append]
      exact (callee.visits_perm r).append (argumentVisits_perm _ arguments)

/-- The references in a list of arguments are visited once each. -/
theorem argumentVisits_perm (r : Resolution) :
    ∀ es : List Expr, ((argumentVisits r es).map Visit.reference).Perm (argumentReferences es)
  | [] => by simp [argumentVisits, argumentReferences]
  | e :: rest => by
      simp only [argumentVisits, argumentReferences, List.map_append]
      exact (e.visits_perm r).append (argumentVisits_perm _ rest)

end

mutual

/-- **The nodes visited in a statement are its references**, each once. -/
theorem Stmt.visits_perm (r : Resolution) :
    ∀ s : Stmt, ((s.visits r).map Visit.reference).Perm s.references
  | .failed => by simp [Stmt.visits, Stmt.references]
  | .expression value => value.visits_perm r
  | .tell value => value.visits_perm r
  | .declare _ none => by simp [Stmt.visits, Stmt.references]
  | .declare _ (some value) => value.visits_perm _
  | .give _ none => by simp [Stmt.visits, Stmt.references]
  | .give _ (some value) => value.visits_perm _
  | .block body => bodyVisits_perm _ body
  | .branch condition yes none => by
      simp only [Stmt.visits, Stmt.references, List.map_append]
      exact (condition.visits_perm r).append (yes.visits_perm _)
  | .branch condition yes (some no) => by
      simp only [Stmt.visits, Stmt.references, List.map_append]
      exact ((condition.visits_perm r).append (yes.visits_perm _)).append (no.visits_perm _)
  | .loop condition body => by
      simp only [Stmt.visits, Stmt.references, List.map_append]
      exact (condition.visits_perm r).append (body.visits_perm _)
  | .function declaration => declaration.visits_perm _
  | .youth _ methods => methodVisits_perm _ methods

/-- Those in a routine are visited once each. -/
theorem Function.visits_perm (r : Resolution) :
    ∀ f : Function, ((f.visits r).map Visit.reference).Perm f.references
  | .mk _ _ body => bodyVisits_perm _ body

/-- Those in a body are. -/
theorem bodyVisits_perm (r : Resolution) :
    ∀ body : List Stmt, ((bodyVisits r body).map Visit.reference).Perm (bodyReferences body)
  | [] => by simp [bodyVisits, bodyReferences]
  | s :: rest => by
      simp only [bodyVisits, bodyReferences, List.map_append]
      exact (s.visits_perm r).append (bodyVisits_perm _ rest)

/-- Those in methods are. -/
theorem methodVisits_perm (r : Resolution) :
    ∀ ms : List Function, ((methodVisits r ms).map Visit.reference).Perm (methodReferences ms)
  | [] => by simp [methodVisits, methodReferences]
  | m :: rest => by
      simp only [methodVisits, methodReferences, List.map_append]
      exact (m.visits_perm r).append (methodVisits_perm _ rest)

end

/-! ## What a walk leaves as it was -/

/-- The scopes with a name entered in the innermost one. -/
def noted (name : Text) (complete : Bool) : List Scope → List Scope
  | [] => []
  | scope :: outer => ((name, complete) :: scope) :: outer

/-- The scopes with a name completely declared in the innermost one. -/
def declared (name : Text) (scopes : List Scope) : List Scope :=
  noted name true (noted name false scopes)

/-- The scope that the parameters of a function make. -/
def parameterScope (parameters : List Token) : Scope :=
  parameters.foldl (fun scope p => (p.lexeme, true) :: (p.lexeme, false) :: scope) []

namespace Resolution

variable (r : Resolution) (t : Token) (name : Text) (b : Bool) (cause : ScopeCause)

/-- What is reported stays reported. -/
@[simp] theorem scopes_report : (r.report t cause).scopes = r.scopes := rfl
@[simp] theorem inFunction_report : (r.report t cause).inFunction = r.inFunction := rfl
@[simp] theorem inYouth_report : (r.report t cause).inYouth = r.inYouth := rfl
@[simp] theorem distances_report : (r.report t cause).distances = r.distances := rfl
@[simp] theorem mistakes_report_ne_nil : (r.report t cause).mistakes ≠ [] := by simp [report]

@[simp] theorem scopes_note : (r.note name b).scopes = noted name b r.scopes := by
  unfold note noted
  split <;> simp_all

@[simp] theorem inFunction_note : (r.note name b).inFunction = r.inFunction := by
  unfold note
  split <;> rfl

@[simp] theorem inYouth_note : (r.note name b).inYouth = r.inYouth := by
  unfold note
  split <;> rfl

@[simp] theorem distances_note : (r.note name b).distances = r.distances := by
  unfold note
  split <;> rfl

@[simp] theorem mistakes_note : (r.note name b).mistakes = r.mistakes := by
  unfold note
  split <;> rfl

@[simp] theorem scopes_declare : (r.declare t).scopes = noted t.lexeme false r.scopes := by
  unfold declare
  split <;> simp

@[simp] theorem inFunction_declare : (r.declare t).inFunction = r.inFunction := by
  unfold declare
  split <;> simp

@[simp] theorem inYouth_declare : (r.declare t).inYouth = r.inYouth := by
  unfold declare
  split <;> simp

@[simp] theorem distances_declare : (r.declare t).distances = r.distances := by
  unfold declare
  split <;> simp

/-- A name that its scope has already cannot be declared without a mistake. -/
theorem mistakes_declare_eq_nil :
    (r.declare t).mistakes = [] ↔ r.mistakes = [] ∧ r.innermost.lookup t.lexeme = none := by
  cases h : r.innermost.lookup t.lexeme with
  | none => simp [declare, h]
  | some complete => simp [declare, h]

@[simp] theorem scopes_define : (r.define t).scopes = noted t.lexeme true r.scopes :=
  r.scopes_note t.lexeme true

@[simp] theorem inFunction_define : (r.define t).inFunction = r.inFunction :=
  r.inFunction_note t.lexeme true

@[simp] theorem inYouth_define : (r.define t).inYouth = r.inYouth := r.inYouth_note t.lexeme true

@[simp] theorem distances_define : (r.define t).distances = r.distances :=
  r.distances_note t.lexeme true

@[simp] theorem mistakes_define : (r.define t).mistakes = r.mistakes :=
  r.mistakes_note t.lexeme true

@[simp] theorem scopes_resolve (n : Nat) : (r.resolve n name).scopes = r.scopes := by
  unfold resolve
  split <;> rfl

@[simp] theorem inFunction_resolve (n : Nat) : (r.resolve n name).inFunction = r.inFunction := by
  unfold resolve
  split <;> rfl

@[simp] theorem inYouth_resolve (n : Nat) : (r.resolve n name).inYouth = r.inYouth := by
  unfold resolve
  split <;> rfl

@[simp] theorem mistakes_resolve (n : Nat) : (r.resolve n name).mistakes = r.mistakes := by
  unfold resolve
  split <;> rfl

/-- A node whose name is looked up is entered as its visit says. -/
theorem distances_resolve (use : Use) (n : Nat) :
    (r.resolve n t.lexeme).distances = Visit.record ⟨⟨use, t, n⟩, r.scopes⟩ r.distances := by
  have hd : Visit.distance? ⟨⟨use, t, n⟩, r.scopes⟩ = r.distance? t.lexeme := rfl
  rw [resolve, Visit.record, hd]
  cases r.distance? t.lexeme <;> rfl

end Resolution

mutual

/-- A walk over an expression changes neither the scopes nor where it stands. -/
theorem Expr.resolve_setting (r : Resolution) : ∀ e : Expr,
    (e.resolve r).scopes = r.scopes ∧ (e.resolve r).inFunction = r.inFunction
      ∧ (e.resolve r).inYouth = r.inYouth
  | .literal _ => ⟨rfl, rfl, rfl⟩
  | .variable _ _ => by
      simp only [Expr.resolve]
      split <;> simp
  | .me _ _ => by
      simp only [Expr.resolve]
      split <;> simp
  | .group inner => inner.resolve_setting r
  | .unary _ _ operand => operand.resolve_setting r
  | .binary _ _ left right => by
      have hl := left.resolve_setting r
      have hr := right.resolve_setting (left.resolve r)
      exact ⟨hr.1.trans hl.1, hr.2.1.trans hl.2.1, hr.2.2.trans hl.2.2⟩
  | .logical _ _ left right => by
      have hl := left.resolve_setting r
      have hr := right.resolve_setting (left.resolve r)
      exact ⟨hr.1.trans hl.1, hr.2.1.trans hl.2.1, hr.2.2.trans hl.2.2⟩
  | .assign _ _ value => by
      have hv := value.resolve_setting r
      simpa only [Expr.resolve, Resolution.scopes_resolve, Resolution.inFunction_resolve,
        Resolution.inYouth_resolve] using hv
  | .get object _ => object.resolve_setting r
  | .set object _ value => by
      have hv := value.resolve_setting r
      have ho := object.resolve_setting (value.resolve r)
      exact ⟨ho.1.trans hv.1, ho.2.1.trans hv.2.1, ho.2.2.trans hv.2.2⟩
  | .call callee _ arguments => by
      have hc := callee.resolve_setting r
      have ha := resolveArguments_setting (callee.resolve r) arguments
      exact ⟨ha.1.trans hc.1, ha.2.1.trans hc.2.1, ha.2.2.trans hc.2.2⟩

/-- Arguments leave the scopes and the setting as they were. -/
theorem resolveArguments_setting (r : Resolution) : ∀ es : List Expr,
    (resolveArguments r es).scopes = r.scopes ∧ (resolveArguments r es).inFunction = r.inFunction
      ∧ (resolveArguments r es).inYouth = r.inYouth
  | [] => ⟨rfl, rfl, rfl⟩
  | e :: rest => by
      have he := e.resolve_setting r
      have hr := resolveArguments_setting (e.resolve r) rest
      exact ⟨hr.1.trans he.1, hr.2.1.trans he.2.1, hr.2.2.trans he.2.2⟩

end

section

variable (r : Resolution) (e : Expr)

@[simp] theorem Expr.scopes_resolve : (e.resolve r).scopes = r.scopes := (e.resolve_setting r).1

@[simp] theorem Expr.inFunction_resolve : (e.resolve r).inFunction = r.inFunction :=
  (e.resolve_setting r).2.1

end

/-- The scopes behind the parameters of a function. -/
theorem scopes_parameters (r : Resolution) (scope : Scope) (outer : List Scope)
    (h : r.scopes = scope :: outer) : ∀ ps : List Token,
    (ps.foldl (fun r p => (r.declare p).define p) r).scopes
      = ps.foldl (fun scope p => (p.lexeme, true) :: (p.lexeme, false) :: scope) scope :: outer
  | [] => h
  | p :: ps => by
      simp only [List.foldl_cons]
      exact scopes_parameters _ _ outer (by simp [h, noted]) ps

/-! ## Mistakes are never forgotten -/

mutual

/-- No mistake is taken back by an expression. -/
theorem Expr.clean_of_resolve (r : Resolution) :
    ∀ e : Expr, (e.resolve r).mistakes = [] → r.mistakes = []
  | .literal _, h => h
  | .variable _ _, h => by
      simp only [Expr.resolve, Resolution.mistakes_resolve] at h
      split at h
      · exact absurd h (by simp)
      · exact h
  | .me _ _, h => by
      simp only [Expr.resolve] at h
      split at h
      · simpa using h
      · exact absurd h (by simp)
  | .group inner, h => inner.clean_of_resolve r h
  | .unary _ _ operand, h => operand.clean_of_resolve r h
  | .binary _ _ left right, h => left.clean_of_resolve r (right.clean_of_resolve _ h)
  | .logical _ _ left right, h => left.clean_of_resolve r (right.clean_of_resolve _ h)
  | .assign _ _ value, h => by
      simp only [Expr.resolve, Resolution.mistakes_resolve] at h
      exact value.clean_of_resolve r h
  | .get object _, h => object.clean_of_resolve r h
  | .set object _ value, h => value.clean_of_resolve r (object.clean_of_resolve _ h)
  | .call callee _ arguments, h =>
      callee.clean_of_resolve r (clean_of_resolveArguments _ arguments h)

/-- Nor by arguments. -/
theorem clean_of_resolveArguments (r : Resolution) :
    ∀ es : List Expr, (resolveArguments r es).mistakes = [] → r.mistakes = []
  | [], h => h
  | e :: rest, h => e.clean_of_resolve r (clean_of_resolveArguments _ rest h)

end

/-- Nor by parameters. -/
theorem clean_of_parameters (r : Resolution) : ∀ ps : List Token,
    (ps.foldl (fun r p => (r.declare p).define p) r).mistakes = [] → r.mistakes = []
  | [], h => h
  | p :: ps, h => by
      have := clean_of_parameters _ ps h
      rw [Resolution.mistakes_define, Resolution.mistakes_declare_eq_nil] at this
      exact this.1

mutual

/-- Nor by a statement. -/
theorem Stmt.clean_of_resolve (r : Resolution) :
    ∀ s : Stmt, (s.resolve r).mistakes = [] → r.mistakes = []
  | .failed, h => h
  | .expression value, h => value.clean_of_resolve r h
  | .tell value, h => value.clean_of_resolve r h
  | .declare name none, h => by
      simp only [Stmt.resolve, Resolution.mistakes_define] at h
      exact ((r.mistakes_declare_eq_nil name).mp h).1
  | .declare name (some value), h => by
      simp only [Stmt.resolve, Resolution.mistakes_define] at h
      exact ((r.mistakes_declare_eq_nil name).mp (value.clean_of_resolve _ h)).1
  | .give _ none, h => by
      simp only [Stmt.resolve] at h
      split at h
      · exact h
      · exact absurd h (by simp)
  | .give _ (some value), h => by
      have := value.clean_of_resolve _ h
      split at this
      · exact this
      · exact absurd this (by simp)
  | .block body, h => clean_of_resolveBody (r.enter []) body h
  | .branch condition yes none, h => condition.clean_of_resolve r (yes.clean_of_resolve _ h)
  | .branch condition yes (some no), h =>
      condition.clean_of_resolve r (yes.clean_of_resolve _ (no.clean_of_resolve _ h))
  | .loop condition body, h => condition.clean_of_resolve r (body.clean_of_resolve _ h)
  | .function declaration, h => by
      have := declaration.clean_of_resolve _ h
      rw [Resolution.mistakes_define, Resolution.mistakes_declare_eq_nil] at this
      exact this.1
  | .youth name methods, h => by
      have := clean_of_resolveMethods _ methods h
      exact ((r.mistakes_declare_eq_nil name).mp (((r.declare name).mistakes_define name) ▸ this)).1

/-- Nor by a routine. -/
theorem Function.clean_of_resolve (r : Resolution) :
    ∀ f : Function, (f.resolve r).mistakes = [] → r.mistakes = []
  | .mk _ parameters body, h => by
      have hbody := clean_of_resolveBody _ body h
      exact clean_of_parameters (r.enter []) parameters hbody

/-- Nor by a body. -/
theorem clean_of_resolveBody (r : Resolution) :
    ∀ body : List Stmt, (resolveBody r body).mistakes = [] → r.mistakes = []
  | [], h => h
  | s :: rest, h => s.clean_of_resolve r (clean_of_resolveBody _ rest h)

/-- Nor by methods. -/
theorem clean_of_resolveMethods (r : Resolution) :
    ∀ ms : List Function, (resolveMethods r ms).mistakes = [] → r.mistakes = []
  | [], h => h
  | m :: rest, h => m.clean_of_resolve r (clean_of_resolveMethods _ rest h)

end

/-! ## The table holds the visits

No node is met twice, so nothing that is entered is overwritten later. -/

/-- The distances with visits entered in order. -/
def recordAll (distances : Distances) (vs : List Visit) : Distances :=
  vs.foldl (fun distances v => v.record distances) distances

@[simp] theorem recordAll_nil (distances : Distances) : recordAll distances [] = distances := rfl

@[simp] theorem recordAll_append (distances : Distances) (vs ws : List Visit) :
    recordAll distances (vs ++ ws) = recordAll (recordAll distances vs) ws :=
  List.foldl_append

@[simp] theorem recordAll_singleton (distances : Distances) (v : Visit) :
    recordAll distances [v] = v.record distances := rfl

mutual

/-- An expression without mistakes leaves its visits in the table. -/
theorem Expr.distances_resolve (r : Resolution) : ∀ e : Expr, (e.resolve r).mistakes = [] →
    (e.resolve r).distances = recordAll r.distances (e.visits r)
  | .literal _, _ => rfl
  | .variable node name, _ => by
      simp only [Expr.resolve, Expr.visits, recordAll_singleton]
      split <;> simp [Resolution.distances_resolve _ name .read]
  | .me node keyword, h => by
      simp only [Expr.resolve, Expr.visits, recordAll_singleton] at h ⊢
      split at h
      · next hy => simp [hy, Resolution.distances_resolve _ keyword .receiver]
      · exact absurd h (by simp)
  | .group inner, h => inner.distances_resolve r h
  | .unary _ _ operand, h => operand.distances_resolve r h
  | .binary _ _ left right, h => by
      have hl := left.distances_resolve r (right.clean_of_resolve _ h)
      rw [Expr.visits, recordAll_append, ← hl]
      exact right.distances_resolve _ h
  | .logical _ _ left right, h => by
      have hl := left.distances_resolve r (right.clean_of_resolve _ h)
      rw [Expr.visits, recordAll_append, ← hl]
      exact right.distances_resolve _ h
  | .assign node name value, h => by
      simp only [Expr.resolve, Resolution.mistakes_resolve] at h
      simp only [Expr.resolve, Expr.visits, recordAll_append, recordAll_singleton]
      rw [← value.distances_resolve r h]
      exact Resolution.distances_resolve _ name .write node
  | .get object _, h => object.distances_resolve r h
  | .set object _ value, h => by
      have hv := value.distances_resolve r (object.clean_of_resolve _ h)
      rw [Expr.visits, recordAll_append, ← hv]
      exact object.distances_resolve _ h
  | .call callee _ arguments, h => by
      have hc := callee.distances_resolve r (clean_of_resolveArguments _ arguments h)
      rw [Expr.visits, recordAll_append, ← hc]
      exact distances_resolveArguments _ arguments h

/-- So do arguments. -/
theorem distances_resolveArguments (r : Resolution) : ∀ es : List Expr,
    (resolveArguments r es).mistakes = [] →
      (resolveArguments r es).distances = recordAll r.distances (argumentVisits r es)
  | [], _ => rfl
  | e :: rest, h => by
      have he := e.distances_resolve r (clean_of_resolveArguments _ rest h)
      rw [argumentVisits, recordAll_append, ← he]
      exact distances_resolveArguments _ rest h

end

/-- Parameters are no references, so they leave none. -/
theorem distances_parameters (r : Resolution) : ∀ ps : List Token,
    (ps.foldl (fun r p => (r.declare p).define p) r).distances = r.distances
  | [] => rfl
  | p :: ps => by
      rw [List.foldl_cons, distances_parameters _ ps]
      simp

mutual

/-- **A walk that finds no mistake enters exactly its visits into the table.** -/
theorem Stmt.distances_resolve (r : Resolution) : ∀ s : Stmt, (s.resolve r).mistakes = [] →
    (s.resolve r).distances = recordAll r.distances (s.visits r)
  | .failed, _ => rfl
  | .expression value, h => value.distances_resolve r h
  | .tell value, h => value.distances_resolve r h
  | .declare _ none, _ => by simp [Stmt.resolve, Stmt.visits]
  | .declare name (some value), h => by
      simp only [Stmt.resolve, Resolution.mistakes_define] at h
      simpa [Stmt.resolve, Stmt.visits] using value.distances_resolve (r.declare name) h
  | .give _ none, _ => by
      simp only [Stmt.resolve, Stmt.visits, recordAll_nil]
      split <;> rfl
  | .give keyword (some value), h => by
      simp only [Stmt.resolve, Stmt.visits] at h ⊢
      split at h <;> simpa [*] using value.distances_resolve _ h
  | .block body, h => distances_resolveBody (r.enter []) body h
  | .branch condition yes none, h => by
      have hc := condition.distances_resolve r (yes.clean_of_resolve _ h)
      rw [Stmt.visits, recordAll_append, ← hc]
      exact yes.distances_resolve _ h
  | .branch condition yes (some no), h => by
      have hy := no.clean_of_resolve _ h
      have hc := condition.distances_resolve r (yes.clean_of_resolve _ hy)
      rw [Stmt.visits, recordAll_append, recordAll_append, ← hc, ← yes.distances_resolve _ hy]
      exact no.distances_resolve _ h
  | .loop condition body, h => by
      have hc := condition.distances_resolve r (body.clean_of_resolve _ h)
      rw [Stmt.visits, recordAll_append, ← hc]
      exact body.distances_resolve _ h
  | .function declaration, h => by
      simpa [Stmt.resolve, Stmt.visits] using declaration.distances_resolve _ h
  | .youth name methods, h => by
      have := distances_resolveMethods _ methods h
      simpa [Stmt.resolve, Stmt.visits, Resolution.leave, Resolution.enter] using this

/-- A routine without mistakes leaves its visits in the table. -/
theorem Function.distances_resolve (r : Resolution) : ∀ f : Function, (f.resolve r).mistakes = [] →
    (f.resolve r).distances = recordAll r.distances (f.visits r)
  | .mk _ parameters body, h => by
      have := distances_resolveBody _ body h
      simpa [Function.resolve, Function.visits, Resolution.leave, distances_parameters,
        Resolution.enter] using this

/-- So does a body. -/
theorem distances_resolveBody (r : Resolution) : ∀ body : List Stmt,
    (resolveBody r body).mistakes = [] →
      (resolveBody r body).distances = recordAll r.distances (bodyVisits r body)
  | [], _ => rfl
  | s :: rest, h => by
      have hs := s.distances_resolve r (clean_of_resolveBody _ rest h)
      rw [bodyVisits, recordAll_append, ← hs]
      exact distances_resolveBody _ rest h

/-- So do methods. -/
theorem distances_resolveMethods (r : Resolution) : ∀ ms : List Function,
    (resolveMethods r ms).mistakes = [] →
      (resolveMethods r ms).distances = recordAll r.distances (methodVisits r ms)
  | [], _ => rfl
  | m :: rest, h => by
      have hm := m.distances_resolve r (clean_of_resolveMethods _ rest h)
      rw [methodVisits, recordAll_append, ← hm]
      exact distances_resolveMethods _ rest h

end

/-- The entry of a node that no visit is about stays as it was. -/
theorem getElem?_recordAll_of_forall_ne {n : Nat} : ∀ (vs : List Visit) (distances : Distances),
    (∀ v ∈ vs, v.node ≠ n) → (recordAll distances vs)[n]? = distances[n]?
  | [], _, _ => rfl
  | v :: vs, distances, h => by
      have hrest := getElem?_recordAll_of_forall_ne vs (v.record distances)
        fun w hw => h w (List.mem_cons_of_mem v hw)
      have hv : v.node ≠ n := h v List.mem_cons_self
      refine hrest.trans ?_
      rw [Visit.record]
      split
      · simp [Std.HashMap.getElem?_insert, hv]
      · rfl

/-- **Where no two visits share a node, the table answers every one of them.** -/
theorem getElem?_recordAll {distances : Distances} : ∀ {vs : List Visit},
    (vs.map Visit.node).Nodup → (∀ v ∈ vs, distances[v.node]? = none) →
      ∀ v ∈ vs, (recordAll distances vs)[v.node]? = v.distance?
  | w :: vs, hnd, hfresh, v, hv => by
      obtain ⟨hw, hnd⟩ := List.nodup_cons.mp hnd
      have hne : ∀ x ∈ vs, x.node ≠ w.node := fun x hx he =>
        hw (he ▸ List.mem_map_of_mem hx)
      have hrec : ∀ n, n ≠ w.node → (w.record distances)[n]? = distances[n]? := fun n hn => by
        rw [Visit.record]
        split
        · simp [Std.HashMap.getElem?_insert, hn.symm]
        · rfl
      rcases List.mem_cons.mp hv with rfl | hv
      · refine (getElem?_recordAll_of_forall_ne vs (v.record distances) hne).trans ?_
        rw [Visit.record]
        split
        · next d hd => simp [hd]
        · next hd => rw [hd]; exact hfresh v List.mem_cons_self
      · refine getElem?_recordAll hnd (fun x hx => ?_) v hv
        rw [hrec _ (hne x hx)]
        exact hfresh x (List.mem_cons_of_mem w hx)

end YouthLang

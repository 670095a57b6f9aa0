import YouthLang.Proofs.Carried

/-!
# Proofs/Mentions — where the receiver is mentioned

A mention of the receiver belongs to the methods of the innermost youth around it, and the number of
scopes from the scope of that youth inwards to the mention can be read off the tree
(`Function.mentions`).  The walk finds no mention outside of a youth (`mentions_of_resolve`), and enters
just that number for it, since nothing but a youth declares the receiver's name
(`Stmt.placed_of_settled`).
-/

namespace YouthLang

/-! ## Mentions -/

/-- The nodes at which an expression mentions the receiver, with no scope between. -/
def Expr.mentions (e : Expr) : List (Nat × Nat) :=
  (e.references.filter fun ref => ref.use = .receiver).map fun ref => (ref.node, 0)

/-- Mentions seen from one scope further out. -/
def inward (mentions : List (Nat × Nat)) : List (Nat × Nat) :=
  mentions.map fun (node, scopes) => (node, scopes + 1)

mutual

/-- The nodes at which a statement mentions the receiver of the youth around it, each with the number of
scopes between.  A youth in the statement has a receiver of its own. -/
def Stmt.mentions : Stmt → List (Nat × Nat)
  | .failed | .declare _ none | .give _ none | .youth _ _ => []
  | .expression e | .tell e | .declare _ (some e) | .give _ (some e) => e.mentions
  | .block body => inward (bodyMentions body)
  | .branch condition yes none => condition.mentions ++ yes.mentions
  | .branch condition yes (some no) => condition.mentions ++ yes.mentions ++ no.mentions
  | .loop condition body => condition.mentions ++ body.mentions
  | .function f => f.mentions

/-- The same for a function. -/
def Function.mentions : Function → List (Nat × Nat)
  | .mk _ _ body => inward (bodyMentions body)

/-- The same for a list of statements. -/
def bodyMentions : List Stmt → List (Nat × Nat)
  | [] => []
  | s :: rest => s.mentions ++ bodyMentions rest

end

mutual

/-- The methods of all youths in a statement. -/
def Stmt.methods : Stmt → List Function
  | .failed | .expression _ | .tell _ | .declare _ _ | .give _ _ => []
  | .block body => bodyMethods body
  | .branch _ yes none => yes.methods
  | .branch _ yes (some no) => yes.methods ++ no.methods
  | .loop _ body => body.methods
  | .function f => f.methods
  | .youth _ methods => allMethods methods

/-- The methods of all youths in a function. -/
def Function.methods : Function → List Function
  | .mk _ _ body => bodyMethods body

/-- The methods of all youths in a list of statements. -/
def bodyMethods : List Stmt → List Function
  | [] => []
  | s :: rest => s.methods ++ bodyMethods rest

/-- Some methods, and those of all youths in them. -/
def allMethods : List Function → List Function
  | [] => []
  | m :: rest => m :: m.methods ++ allMethods rest

end

/-- The table has each mention of a method as many scopes out as the scope of its youth is. -/
def Placed (distances : Distances) (methods : List Function) : Prop :=
  ∀ m ∈ methods, ∀ node scopes, (node, scopes) ∈ m.mentions → distances[node]? = some scopes

/-- Two lists of methods are placed when each is. -/
theorem Placed.append {distances : Distances} {ms ms' : List Function} :
    Placed distances (ms ++ ms') ↔ Placed distances ms ∧ Placed distances ms' :=
  List.forall_mem_append

/-! ## The parts of a body -/

/-- Told from outside of a scope, a mention is one scope nearer. -/
theorem mem_inward {mentions : List (Nat × Nat)} {node scopes : Nat} :
    (node, scopes) ∈ inward mentions ↔ ∃ k, scopes = k + 1 ∧ (node, k) ∈ mentions := by
  simp only [inward, List.mem_map, Prod.mk.injEq, Prod.exists]
  constructor
  · rintro ⟨_, k, hmem, rfl, rfl⟩
    exact ⟨k, rfl, hmem⟩
  · rintro ⟨k, rfl, hmem⟩
    exact ⟨node, k, hmem, rfl, rfl⟩

/-- Fewer references mention the receiver less often. -/
theorem Expr.mentions_subset {e e' : Expr} (h : e.references ⊆ e'.references) :
    e.mentions ⊆ e'.mentions := by
  intro mention hmention
  obtain ⟨ref, href, rfl⟩ := List.mem_map.mp hmention
  obtain ⟨href, huse⟩ := List.mem_filter.mp href
  exact List.mem_map.mpr ⟨ref, List.mem_filter.mpr ⟨h href, huse⟩, rfl⟩

section

variable {body : List Stmt} {s : Stmt} {methods : List Function} {F : Function}

/-- A statement's mentions are among those of its body. -/
theorem mentions_subset_of_mem (hs : s ∈ body) : s.mentions ⊆ bodyMentions body := by
  induction body with
  | nil => exact absurd hs (by simp)
  | cons first rest ih =>
    rcases List.mem_cons.mp hs with rfl | hs
    · exact List.subset_append_left _ _
    · exact List.subset_append_of_subset_right _ (ih hs)

/-- So are the methods declared in it among those of the body. -/
theorem methods_subset_of_mem (hs : s ∈ body) : s.methods ⊆ bodyMethods body := by
  induction body with
  | nil => exact absurd hs (by simp)
  | cons first rest ih =>
    rcases List.mem_cons.mp hs with rfl | hs
    · exact List.subset_append_left _ _
    · exact List.subset_append_of_subset_right _ (ih hs)

/-- And its references among those of the body. -/
theorem references_subset_of_mem (hs : s ∈ body) : s.references ⊆ bodyReferences body := by
  induction body with
  | nil => exact absurd hs (by simp)
  | cons first rest ih =>
    rcases List.mem_cons.mp hs with rfl | hs
    · exact List.subset_append_left _ _
    · exact List.subset_append_of_subset_right _ (ih hs)

/-- A method and those declared inside it are among all methods. -/
theorem allMethods_subset_of_mem (hF : F ∈ methods) : F :: F.methods ⊆ allMethods methods := by
  induction methods with
  | nil => exact absurd hF (by simp)
  | cons first rest ih =>
    rcases List.mem_cons.mp hF with rfl | hF
    · exact List.subset_append_left _ _
    · exact List.subset_append_of_subset_right _ (ih hF)

/-- A method's references are among those of its class. -/
theorem methodReferences_subset_of_mem (hF : F ∈ methods) :
    F.references ⊆ methodReferences methods := by
  induction methods with
  | nil => exact absurd hF (by simp)
  | cons first rest ih =>
    rcases List.mem_cons.mp hF with rfl | hF
    · exact List.subset_append_left _ _
    · exact List.subset_append_of_subset_right _ (ih hF)

/-- An argument's references are among those of the call. -/
theorem argumentReferences_subset_of_mem {e : Expr} {es : List Expr} (he : e ∈ es) :
    e.references ⊆ argumentReferences es := by
  induction es with
  | nil => exact absurd he (by simp)
  | cons first rest ih =>
    rcases List.mem_cons.mp he with rfl | he
    · exact List.subset_append_left _ _
    · exact List.subset_append_of_subset_right _ (ih he)

/-- Statements of a well-formed body are well-formed. -/
theorem BodyFormed.of_mem {allowed : Token → Prop} (h : BodyFormed allowed body) (hs : s ∈ body) :
    s.Formed allowed := by
  induction body with
  | nil => exact absurd hs (by simp)
  | cons first rest ih =>
    rcases List.mem_cons.mp hs with rfl | hs
    · exact h.1
    · exact ih h.2 hs

/-- So are methods of a well-formed class. -/
theorem MethodsFormed.of_mem {allowed : Token → Prop} (h : MethodsFormed allowed methods)
    (hF : F ∈ methods) : F.Formed allowed := by
  induction methods with
  | nil => exact absurd hF (by simp)
  | cons first rest ih =>
    rcases List.mem_cons.mp hF with rfl | hF
    · exact h.1
    · exact ih h.2 hF

end

/-! ## No mention outside of a youth -/

/-- An expression without a mention has no reference to the receiver. -/
theorem Expr.mentions_eq_nil_iff {e : Expr} :
    e.mentions = [] ↔ ∀ ref ∈ e.references, ref.use ≠ .receiver := by
  simp [Expr.mentions, List.filter_eq_nil_iff]

mutual

/-- A walk over an expression outside of a youth finds every mention of a receiver to be a mistake. -/
theorem Expr.mentions_of_resolve {r : Resolution} (hy : r.inYouth = false) : ∀ e : Expr,
    (e.resolve r).mistakes = [] → ∀ ref ∈ e.references, ref.use ≠ .receiver
  | .literal _, _ => by simp [Expr.references]
  | .variable _ _, _ => by simp [Expr.references]
  | .me _ _, h => by simp [Expr.resolve, hy] at h
  | .group inner, h => inner.mentions_of_resolve hy h
  | .unary _ _ operand, h => operand.mentions_of_resolve hy h
  | .binary _ _ left right, h | .logical _ _ left right, h => by
      have hl := left.mentions_of_resolve hy (right.clean_of_resolve _ h)
      have hr := right.mentions_of_resolve ((left.resolve_setting r).2.2.trans hy) h
      exact List.forall_mem_append.mpr ⟨hl, hr⟩
  | .assign _ _ value, h => by
      simp only [Expr.resolve, Resolution.mistakes_resolve] at h
      exact List.forall_mem_cons.mpr ⟨by simp, value.mentions_of_resolve hy h⟩
  | .get object _, h => object.mentions_of_resolve hy h
  | .set object _ value, h => by
      have hv := value.mentions_of_resolve hy (object.clean_of_resolve _ h)
      have ho := object.mentions_of_resolve ((value.resolve_setting r).2.2.trans hy) h
      exact List.forall_mem_append.mpr ⟨ho, hv⟩
  | .call callee _ arguments, h => by
      have hc := callee.mentions_of_resolve hy (clean_of_resolveArguments _ arguments h)
      have ha := mentions_of_resolveArguments ((callee.resolve_setting r).2.2.trans hy) arguments h
      exact List.forall_mem_append.mpr ⟨hc, ha⟩

/-- Outside of a class, arguments that resolve without a mistake do not mention the receiver. -/
theorem mentions_of_resolveArguments {r : Resolution} (hy : r.inYouth = false) : ∀ es : List Expr,
    (resolveArguments r es).mistakes = [] → ∀ ref ∈ argumentReferences es, ref.use ≠ .receiver
  | [], _ => by simp [argumentReferences]
  | e :: rest, h => by
      have he := e.mentions_of_resolve hy (clean_of_resolveArguments _ rest h)
      have hr := mentions_of_resolveArguments ((e.resolve_setting r).2.2.trans hy) rest h
      exact List.forall_mem_append.mpr ⟨he, hr⟩

end

/-- To declare parameters does not enter a class. -/
theorem inYouth_parameters (r : Resolution) (parameters : List Token) :
    (parameters.foldl (fun r p => (r.declare p).define p) r).inYouth = r.inYouth := by
  induction parameters generalizing r with
  | nil => rfl
  | cons p rest ih => exact (ih _).trans (by simp)

mutual

/-- A walk over a statement comes back to where it stood. -/
theorem Stmt.inYouth_resolve (r : Resolution) : ∀ s : Stmt, (s.resolve r).inYouth = r.inYouth
  | .failed => rfl
  | .expression e | .tell e => (e.resolve_setting r).2.2
  | .declare name none => by simp [Stmt.resolve]
  | .declare name (some e) => by simp [Stmt.resolve, (e.resolve_setting (r.declare name)).2.2]
  | .give _ none => by
      simp only [Stmt.resolve]
      split <;> rfl
  | .give _ (some e) => by
      simp only [Stmt.resolve]
      split <;> exact (e.resolve_setting _).2.2
  | .block body => inYouth_resolveBody (r.enter []) body
  | .branch condition yes none =>
      (yes.inYouth_resolve _).trans (condition.resolve_setting r).2.2
  | .branch condition yes (some no) =>
      ((no.inYouth_resolve _).trans (yes.inYouth_resolve _)).trans (condition.resolve_setting r).2.2
  | .loop condition body => (body.inYouth_resolve _).trans (condition.resolve_setting r).2.2
  | .function f => (f.inYouth_resolve _).trans (by simp)
  | .youth _ _ => rfl

/-- A function leaves the walk where it was, in a class or outside. -/
theorem Function.inYouth_resolve (r : Resolution) : ∀ f : Function,
    (f.resolve r).inYouth = r.inYouth
  | .mk _ parameters body =>
      (inYouth_resolveBody _ body).trans (inYouth_parameters (r.enter []) parameters)

/-- So does a body. -/
theorem inYouth_resolveBody (r : Resolution) : ∀ body : List Stmt,
    (resolveBody r body).inYouth = r.inYouth
  | [] => rfl
  | s :: rest => (inYouth_resolveBody _ rest).trans (s.inYouth_resolve r)

end

mutual

/-- **No statement outside of a youth mentions a receiver**, if the walk over it finds no mistake. -/
theorem Stmt.mentions_of_resolve {r : Resolution} (hy : r.inYouth = false) : ∀ s : Stmt,
    (s.resolve r).mistakes = [] → s.mentions = []
  | .failed, _ | .declare _ none, _ | .give _ none, _ | .youth _ _, _ => rfl
  | .expression e, h | .tell e, h => Expr.mentions_eq_nil_iff.mpr (e.mentions_of_resolve hy h)
  | .declare name (some e), h => by
      simp only [Stmt.resolve, Resolution.mistakes_define] at h
      exact Expr.mentions_eq_nil_iff.mpr (e.mentions_of_resolve (by simpa using hy) h)
  | .give _ (some e), h =>
      Expr.mentions_eq_nil_iff.mpr (e.mentions_of_resolve (by split <;> simpa using hy) h)
  | .block body, h => by
      rw [Stmt.mentions, mentions_of_resolveBody (r := r.enter []) hy body h, inward, List.map_nil]
  | .branch condition yes none, h => by
      have hcondition := Expr.mentions_eq_nil_iff.mpr
        (condition.mentions_of_resolve hy (yes.clean_of_resolve _ h))
      have hyes := yes.mentions_of_resolve ((condition.resolve_setting r).2.2.trans hy) h
      rw [Stmt.mentions, hcondition, hyes, List.append_nil]
  | .branch condition yes (some no), h => by
      have hclean := no.clean_of_resolve _ h
      have hyouth := (condition.resolve_setting r).2.2.trans hy
      have hcondition := Expr.mentions_eq_nil_iff.mpr
        (condition.mentions_of_resolve hy (yes.clean_of_resolve _ hclean))
      have hyes := yes.mentions_of_resolve hyouth hclean
      have hno := no.mentions_of_resolve ((yes.inYouth_resolve _).trans hyouth) h
      rw [Stmt.mentions, hcondition, hyes, hno, List.append_nil, List.append_nil]
  | .loop condition body, h => by
      have hcondition := Expr.mentions_eq_nil_iff.mpr
        (condition.mentions_of_resolve hy (body.clean_of_resolve _ h))
      have hbody := body.mentions_of_resolve ((condition.resolve_setting r).2.2.trans hy) h
      rw [Stmt.mentions, hcondition, hbody, List.append_nil]
  | .function f, h => f.mentions_of_resolve (by simpa using hy) h

/-- The same for a function. -/
theorem Function.mentions_of_resolve {r : Resolution} (hy : r.inYouth = false) : ∀ f : Function,
    (f.resolve r).mistakes = [] → f.mentions = []
  | .mk _ parameters body, h => by
      have hbody := @mentions_of_resolveBody
        { parameters.foldl (fun (r : Resolution) p => (r.declare p).define p) (r.enter [])
          with inFunction := true } ((inYouth_parameters (r.enter []) parameters).trans hy) body h
      rw [Function.mentions, hbody, inward, List.map_nil]

/-- And for a body. -/
theorem mentions_of_resolveBody {r : Resolution} (hy : r.inYouth = false) : ∀ body : List Stmt,
    (resolveBody r body).mistakes = [] → bodyMentions body = []
  | [], _ => rfl
  | s :: rest, h => by
      have hs := s.mentions_of_resolve hy (clean_of_resolveBody _ rest h)
      have hrest := mentions_of_resolveBody ((s.inYouth_resolve r).trans hy) rest h
      rw [bodyMentions, hs, hrest, List.append_nil]

end

/-! ## The distance of a mention -/

/-- The number of scopes out to the innermost youth. -/
def youthDistance? (scopes : List Scope) : Option Nat :=
  scopes.findIdx? fun scope => (scope.lookup receiver).isSome

/-- A name other than the receiver's does not change how far the class is. -/
theorem youthDistance?_noted {name : Text} {b : Bool} (hname : name ≠ receiver)
    (scopes : List Scope) : youthDistance? (noted name b scopes) = youthDistance? scopes := by
  cases scopes with
  | nil => rfl
  | cons scope outer =>
    have hne : (receiver == name) = false := by simpa using hname.symm
    simp [youthDistance?, noted, List.findIdx?_cons, List.lookup_cons, hne]

/-- Nor does its declaration. -/
theorem youthDistance?_declared {name : Text} (hname : name ≠ receiver) (scopes : List Scope) :
    youthDistance? (declared name scopes) = youthDistance? scopes :=
  (youthDistance?_noted hname _).trans (youthDistance?_noted hname scopes)

/-- A scope that does not declare the receiver is one more step out. -/
theorem youthDistance?_cons {scope : Scope} (h : scope.lookup receiver = none)
    (scopes : List Scope) :
    youthDistance? (scope :: scopes) = (youthDistance? scopes).map (· + 1) := by
  simp [youthDistance?, List.findIdx?_cons, h]

/-- No parameter has the receiver's name, which is a keyword. -/
theorem lookup_receiver_parameterScope {ps : List Token} (hps : ∀ p ∈ ps, p.lexeme ≠ receiver) :
    (parameterScope ps).lookup receiver = none := by
  have key : ∀ (ps : List Token) (scope : Scope), (∀ p ∈ ps, p.lexeme ≠ receiver) →
      scope.lookup receiver = none →
        (ps.foldl (fun scope p => (p.lexeme, true) :: (p.lexeme, false) :: scope) scope).lookup
          receiver = none := by
    intro ps
    induction ps with
    | nil => exact fun _ _ h => h
    | cons p ps ih =>
      intro scope hps h
      obtain ⟨hp, hps⟩ := List.forall_mem_cons.mp hps
      have hne : (receiver == p.lexeme) = false := by simpa using hp.symm
      exact ih _ hps (by simpa [List.lookup_cons, hne] using h)
  exact key ps [] hps rfl

/-- A statement's own name, if it declares one, leaves the distance as it is. -/
theorem Stmt.youthDistance?_extend {s : Stmt} (hformed : s.Formed Token.Spelled)
    (scopes : List Scope) : youthDistance? (s.extend scopes) = youthDistance? scopes := by
  cases s with
  | declare name _ => exact youthDistance?_declared (Token.IsName.ne_receiver hformed) scopes
  | function f =>
    obtain ⟨name, parameters, body⟩ := f
    exact youthDistance?_declared (Token.IsName.ne_receiver hformed.1) scopes
  | youth name _ => exact youthDistance?_declared (Token.IsName.ne_receiver hformed.1) scopes
  | _ => rfl

/-- The table has each mention of the innermost youth as far out as that youth is. -/
def Reaches (distances : Distances) (scopes : List Scope) (mentions : List (Nat × Nat)) : Prop :=
  ∀ d, youthDistance? scopes = some d → ∀ node k, (node, k) ∈ mentions →
    distances[node]? = some (d + k)

section

variable {distances : Distances} {scopes : List Scope} {mentions mentions' : List (Nat × Nat)}

/-- Without a mention there is nothing to reach. -/
theorem Reaches.nil : Reaches distances scopes [] := fun _ _ _ _ h => absurd h (by simp)

/-- Mentions one behind the other reach their class when all of them do. -/
theorem Reaches.append (h : Reaches distances scopes mentions)
    (h' : Reaches distances scopes mentions') : Reaches distances scopes (mentions ++ mentions') :=
  fun d hd node k hmem => (List.mem_append.mp hmem).elim (h d hd node k) (h' d hd node k)

/-- Only the distance of the class matters, not the scopes themselves. -/
theorem Reaches.of_eq {scopes' : List Scope} (h : Reaches distances scopes' mentions)
    (heq : youthDistance? scopes' = youthDistance? scopes) : Reaches distances scopes mentions :=
  fun d hd => h d (heq.trans hd)

/-- **A scope without a receiver is looked through**, so a mention in it reaches one scope
further. -/
theorem Reaches.inward {scope : Scope} (hscope : scope.lookup receiver = none)
    (h : Reaches distances (scope :: scopes) mentions) :
    Reaches distances scopes (inward mentions) := by
  intro d hd node k hmem
  obtain ⟨k', rfl, hinner⟩ := mem_inward.mp hmem
  have hd' : youthDistance? (scope :: scopes) = some (d + 1) := by
    rw [youthDistance?_cons hscope, hd, Option.map_some]
  rw [h (d + 1) hd' node k' hinner, Nat.add_assoc, Nat.add_comm 1 k']

/-- A settled expression reaches the class that its place is in. -/
theorem Expr.reaches {e : Expr}
    (hsettled : e.Settled (fun v => distances[v.node]? = v.distance?) scopes)
    (hformed : ∀ ref ∈ e.references, ref.Formed Token.Spelled) :
    Reaches distances scopes e.mentions := by
  intro d hd node k hmem
  obtain ⟨ref, href, heq⟩ := List.mem_map.mp hmem
  obtain ⟨rfl, rfl⟩ := Prod.mk.inj heq
  obtain ⟨href, huse⟩ := List.mem_filter.mp href
  obtain ⟨hkind, hspelled⟩ := hformed ref href
  have huse : ref.use = .receiver := by simpa using huse
  have hname : ref.token.lexeme = receiver := hspelled.2 (by rw [hkind, huse]; rfl)
  have hdistance : Visit.distance? ⟨ref, scopes⟩ = youthDistance? scopes := by
    simp only [Visit.distance?, Visit.name, hname, youthDistance?]
  exact (hsettled ref href).trans (hdistance.trans hd)

end

mutual

/-- **Every mention of a receiver has its distance in the table**: as far as the youth around the
statement, or as far as that of a method in it. -/
theorem Stmt.placed_of_settled {distances : Distances} {scopes : List Scope} {b : Bool} :
    ∀ s : Stmt, s.Settled (fun v => distances[v.node]? = v.distance?) scopes b →
      s.Formed Token.Spelled → (∀ ref ∈ s.references, ref.Formed Token.Spelled) →
      Reaches distances scopes s.mentions ∧ Placed distances s.methods
  | .failed, _, _, _ | .declare _ none, _, _, _ | .give _ none, _, _, _ =>
      ⟨.nil, by simp [Stmt.methods, Placed]⟩
  | .expression e, hs, _, hrefs | .tell e, hs, _, hrefs =>
      ⟨e.reaches hs hrefs, by simp [Stmt.methods, Placed]⟩
  | .declare name (some e), hs, hformed, hrefs =>
      ⟨(e.reaches hs.2 hrefs).of_eq (youthDistance?_noted (Token.IsName.ne_receiver hformed) scopes),
        by simp [Stmt.methods, Placed]⟩
  | .give _ (some e), hs, _, hrefs => ⟨e.reaches hs.2 hrefs, by simp [Stmt.methods, Placed]⟩
  | .block body, hs, hformed, hrefs => by
      obtain ⟨hreaches, hplaced⟩ := placed_of_bodySettled body hs hformed hrefs
      exact ⟨.inward rfl hreaches, hplaced⟩
  | .branch condition yes none, hs, hformed, hrefs => by
      obtain ⟨hcondition, hyes⟩ := List.forall_mem_append.mp hrefs
      obtain ⟨hreaches, hplaced⟩ := yes.placed_of_settled hs.2.2 hformed.2 hyes
      exact ⟨.append (condition.reaches hs.1 hcondition) hreaches, hplaced⟩
  | .branch condition yes (some no), hs, hformed, hrefs => by
      obtain ⟨hrefs, hno⟩ := List.forall_mem_append.mp hrefs
      obtain ⟨hcondition, hyes⟩ := List.forall_mem_append.mp hrefs
      obtain ⟨hreaches, hplaced⟩ := yes.placed_of_settled hs.2.1.2 hformed.2.1 hyes
      obtain ⟨hreaches', hplaced'⟩ := no.placed_of_settled hs.2.2.2 hformed.2.2.2 hno
      exact ⟨.append (.append (condition.reaches hs.1 hcondition) hreaches) hreaches',
        Placed.append.mpr ⟨hplaced, hplaced'⟩⟩
  | .loop condition body, hs, hformed, hrefs => by
      obtain ⟨hcondition, hbody⟩ := List.forall_mem_append.mp hrefs
      obtain ⟨hreaches, hplaced⟩ := body.placed_of_settled hs.2.2 hformed.2 hbody
      exact ⟨.append (condition.reaches hs.1 hcondition) hreaches, hplaced⟩
  | .function f, hs, hformed, hrefs => by
      obtain ⟨hreaches, hplaced⟩ := f.placed_of_settled hs hformed hrefs
      have hextend := Stmt.youthDistance?_extend (s := .function f) hformed scopes
      exact ⟨hreaches.of_eq hextend, hplaced⟩
  | .youth name methods, hs, hformed, hrefs =>
      ⟨.nil, placed_of_methodsSettled methods hs hformed.2 hrefs⟩

/-- A settled function places its methods, its own scope being one without a receiver. -/
theorem Function.placed_of_settled {distances : Distances} {scopes : List Scope} :
    ∀ f : Function, f.Settled (fun v => distances[v.node]? = v.distance?) scopes →
      f.Formed Token.Spelled → (∀ ref ∈ f.references, ref.Formed Token.Spelled) →
      Reaches distances scopes f.mentions ∧ Placed distances f.methods
  | .mk _ parameters body, hs, hformed, hrefs => by
      obtain ⟨hreaches, hplaced⟩ := placed_of_bodySettled body hs hformed.2.2 hrefs
      have hscope := lookup_receiver_parameterScope fun p hp =>
        Token.IsName.ne_receiver (hformed.2.1 p hp)
      exact ⟨.inward hscope hreaches, hplaced⟩

/-- A settled body places its methods, statement by statement. -/
theorem placed_of_bodySettled {distances : Distances} {b : Bool} : ∀ (body : List Stmt)
    {scopes : List Scope}, BodySettled (fun v => distances[v.node]? = v.distance?) scopes b body →
      BodyFormed Token.Spelled body → (∀ ref ∈ bodyReferences body, ref.Formed Token.Spelled) →
      Reaches distances scopes (bodyMentions body) ∧ Placed distances (bodyMethods body)
  | [], _, _, _, _ => ⟨.nil, by simp [bodyMethods, Placed]⟩
  | s :: rest, scopes, hs, hformed, hrefs => by
      obtain ⟨hfirst, hrest⟩ := List.forall_mem_append.mp hrefs
      obtain ⟨hreaches, hplaced⟩ := s.placed_of_settled hs.1 hformed.1 hfirst
      obtain ⟨hreaches', hplaced'⟩ := placed_of_bodySettled rest hs.2 hformed.2 hrest
      have hextend := s.youthDistance?_extend hformed.1 scopes
      exact ⟨.append hreaches (hreaches'.of_eq hextend), Placed.append.mpr ⟨hplaced, hplaced'⟩⟩

/-- In a method, the youth is just outside. -/
theorem placed_of_methodsSettled {distances : Distances} {scopes : List Scope} :
    ∀ ms : List Function,
      MethodsSettled (fun v => distances[v.node]? = v.distance?) ([(receiver, true)] :: scopes) ms →
      MethodsFormed Token.Spelled ms → (∀ ref ∈ methodReferences ms, ref.Formed Token.Spelled) →
      Placed distances (allMethods ms)
  | [], _, _, _ => by simp [allMethods, Placed]
  | m :: rest, hs, hformed, hrefs => by
      obtain ⟨hfirst, hrest⟩ := List.forall_mem_append.mp hrefs
      obtain ⟨hreaches, hplaced⟩ := m.placed_of_settled hs.1 hformed.1 hfirst
      have hyouth : youthDistance? ([(receiver, true)] :: scopes) = some 0 := by
        simp [youthDistance?, List.findIdx?_cons]
      have hm : Placed distances (m :: m.methods) := by
        refine List.forall_mem_cons.mpr ⟨fun node k hmem => ?_, hplaced⟩
        rw [hreaches 0 hyouth node k hmem, Nat.zero_add]
      exact Placed.append.mpr ⟨hm, placed_of_methodsSettled rest hs.2 hformed.2 hrest⟩

end

end YouthLang

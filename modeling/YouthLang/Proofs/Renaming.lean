import Mathlib.Data.List.Pairwise
import Mathlib.Logic.Equiv.Basic
import YouthLang.Proofs.Linked

/-!
# Proofs/Renaming — a variable under another name

A variable of a block, a function or a method is told by the token that declares it, which has a place of
its own.  `renameVariable` gives it another name, in that token and at the nodes that use it: those with
its name whose distance leads to the scope that declares it.

Where the new name is not used, the scope of the variable has its two names swapped by this, since nothing
else in it has either, and every other scope is as it was.  Programs that differ in this way are
`BodyRenamed`: a relation that the walk and the run can follow piece by piece.  A program without mistakes
and the same with a variable renamed are so (`bodyRenamed`).
-/

namespace YouthLang

/-! ## The renaming

A renaming is told by the token that declares the variable and by its new name.  Nodes are told by
their distance, so a namesake in another scope keeps its name. -/

/-- A variable, told by the token that declares it, and the name it is given instead. -/
structure Renaming where
  token : Token
  name : Text

/-- The variable that a statement declares in the scope it stands in. -/
def Stmt.introduced? : Stmt → Option Token
  | .declare name _ => some name
  | _ => none

/-- The variables that a list of statements declares in the scope it stands in. -/
def variablesOf (body : List Stmt) : List Token := body.filterMap Stmt.introduced?

/-- The distance of a node leads to a marked scope. -/
def leadsTo (marks : List Bool) (D : Distances) (node : Nat) : Bool :=
  D[node]?.any fun d => marks.getD d false

namespace Renaming

variable (R : Renaming)

/-- A token that declares a variable in a scope, which may be that of the renamed one. -/
def declared (here : Bool) (t : Token) : Token :=
  if here ∧ t = R.token then { t with lexeme := R.name } else t

/-- The token of a node, which may lead to the scope of the renamed variable. -/
def used (here : Bool) (t : Token) : Token :=
  if here ∧ t.lexeme = R.token.lexeme then { t with lexeme := R.name } else t

end Renaming

section Rename

variable (R : Renaming) (D : Distances)

mutual

/-- An expression with a variable renamed.  Of the scopes around it, that of the variable is marked. -/
def Expr.rename (marks : List Bool) : Expr → Expr
  | .literal value => .literal value
  | .variable node name => .variable node (R.used (leadsTo marks D node) name)
  | .me node keyword => .me node keyword
  | .group inner => .group (inner.rename marks)
  | .unary op token operand => .unary op token (operand.rename marks)
  | .binary op token left right => .binary op token (left.rename marks) (right.rename marks)
  | .logical op token left right => .logical op token (left.rename marks) (right.rename marks)
  | .assign node name value =>
    .assign node (R.used (leadsTo marks D node) name) (value.rename marks)
  | .get object name => .get (object.rename marks) name
  | .set object name value => .set (object.rename marks) name (value.rename marks)
  | .call callee paren arguments =>
    .call (callee.rename marks) paren (renameArguments marks arguments)

/-- The same for a list of expressions. -/
def renameArguments (marks : List Bool) : List Expr → List Expr
  | [] => []
  | e :: rest => e.rename marks :: renameArguments marks rest

end

mutual

/-- A statement with a variable renamed. -/
def Stmt.rename (marks : List Bool) : Stmt → Stmt
  | .failed => .failed
  | .expression value => .expression (value.rename R D marks)
  | .tell value => .tell (value.rename R D marks)
  | .declare name none => .declare (R.declared (marks.headD false) name) none
  | .declare name (some value) =>
    .declare (R.declared (marks.headD false) name) (some (value.rename R D marks))
  | .give keyword none => .give keyword none
  | .give keyword (some value) => .give keyword (some (value.rename R D marks))
  | .block body => .block (renameBody (decide (R.token ∈ variablesOf body) :: marks) body)
  | .branch condition yes none => .branch (condition.rename R D marks) (yes.rename marks) none
  | .branch condition yes (some no) =>
    .branch (condition.rename R D marks) (yes.rename marks) (some (no.rename marks))
  | .loop condition body => .loop (condition.rename R D marks) (body.rename marks)
  | .function declaration => .function (declaration.rename marks)
  | .youth name methods => .youth name (renameMethods (false :: marks) methods)

/-- The same for a function. -/
def Function.rename (marks : List Bool) : Function → Function
  | .mk name parameters body =>
    let here := decide (R.token ∈ parameters ++ variablesOf body)
    .mk name (parameters.map (R.declared here)) (renameBody (here :: marks) body)

/-- The same for a list of statements. -/
def renameBody (marks : List Bool) : List Stmt → List Stmt
  | [] => []
  | s :: rest => s.rename marks :: renameBody marks rest

/-- The same for a list of methods. -/
def renameMethods (marks : List Bool) : List Function → List Function
  | [] => []
  | m :: rest => m.rename marks :: renameMethods marks rest

end

/-- **A program with a variable renamed**, if one of its blocks, functions or methods declares it: the
globals keep their names. -/
def renameVariable (statements : List Stmt) : List Stmt := renameBody R D [false] statements

end Rename

/-! ## Renamed trees -/

/-- Things by name, under other names. -/
def respell {α : Type} (σ : Equiv.Perm Text) (entries : List (Text × α)) : List (Text × α) :=
  entries.map fun entry => (σ entry.1, entry.2)

namespace Renaming

variable (R : Renaming)

/-- How the names of a scope change: in that of the variable, its two names are swapped. -/
def spell (here : Bool) : Equiv.Perm Text :=
  if here then Equiv.swap R.token.lexeme R.name else Equiv.refl Text

/-- A token and what it becomes in a scope, or for a use of that scope. -/
structure Respells (here : Bool) (t t' : Token) : Prop where
  eq : t' = { t with lexeme := R.spell here t.lexeme }
  ne : here = true → t.lexeme ≠ R.name

end Renaming

section Renamed

variable (R : Renaming) (D : Distances)

mutual

/-- Two expressions that differ in the names at some nodes only, in those that lead to a marked scope. -/
inductive Expr.Renamed (marks : List Bool) : Expr → Expr → Prop
  | literal (v : Literal) : Expr.Renamed marks (.literal v) (.literal v)
  | variable {n t t'} (h : R.Respells (leadsTo marks D n) t t') :
      Expr.Renamed marks (.variable n t) (.variable n t')
  | me {n t t'} (h : R.Respells (leadsTo marks D n) t t') : Expr.Renamed marks (.me n t) (.me n t')
  | group {e e'} (h : Expr.Renamed marks e e') : Expr.Renamed marks (.group e) (.group e')
  | unary {op t e e'} (h : Expr.Renamed marks e e') :
      Expr.Renamed marks (.unary op t e) (.unary op t e')
  | binary {op t l l' r r'} (hl : Expr.Renamed marks l l') (hr : Expr.Renamed marks r r') :
      Expr.Renamed marks (.binary op t l r) (.binary op t l' r')
  | logical {op t l l' r r'} (hl : Expr.Renamed marks l l') (hr : Expr.Renamed marks r r') :
      Expr.Renamed marks (.logical op t l r) (.logical op t l' r')
  | assign {n t t' e e'} (ht : R.Respells (leadsTo marks D n) t t') (h : Expr.Renamed marks e e') :
      Expr.Renamed marks (.assign n t e) (.assign n t' e')
  | get {e e' t} (h : Expr.Renamed marks e e') : Expr.Renamed marks (.get e t) (.get e' t)
  | set {o o' t e e'} (ho : Expr.Renamed marks o o') (h : Expr.Renamed marks e e') :
      Expr.Renamed marks (.set o t e) (.set o' t e')
  | call {e e' t es es'} (h : Expr.Renamed marks e e') (hes : ArgumentsRenamed marks es es') :
      Expr.Renamed marks (.call e t es) (.call e' t es')

/-- The same for lists of expressions. -/
inductive ArgumentsRenamed (marks : List Bool) : List Expr → List Expr → Prop
  | nil : ArgumentsRenamed marks [] []
  | cons {e e' es es'} (h : Expr.Renamed marks e e') (hes : ArgumentsRenamed marks es es') :
      ArgumentsRenamed marks (e :: es) (e' :: es')

end

mutual

/-- Two statements that differ in the names of marked scopes only.  What a function or a youth is
called is told to the user, so it is the same in both. -/
inductive Stmt.Renamed : List Bool → Stmt → Stmt → Prop
  | failed {marks} : Stmt.Renamed marks .failed .failed
  | expression {marks e e'} (h : Expr.Renamed R D marks e e') :
      Stmt.Renamed marks (.expression e) (.expression e')
  | tell {marks e e'} (h : Expr.Renamed R D marks e e') : Stmt.Renamed marks (.tell e) (.tell e')
  | bare {marks t t'} (ht : R.Respells (marks.headD false) t t') :
      Stmt.Renamed marks (.declare t none) (.declare t' none)
  | declare {marks t t' e e'} (ht : R.Respells (marks.headD false) t t')
      (h : Expr.Renamed R D marks e e') :
      Stmt.Renamed marks (.declare t (some e)) (.declare t' (some e'))
  | giveNothing {marks t} : Stmt.Renamed marks (.give t none) (.give t none)
  | give {marks t e e'} (h : Expr.Renamed R D marks e e') :
      Stmt.Renamed marks (.give t (some e)) (.give t (some e'))
  | block {marks here body body'} (h : BodyRenamed (here :: marks) body body') :
      Stmt.Renamed marks (.block body) (.block body')
  | branch {marks c c' yes yes'} (hc : Expr.Renamed R D marks c c')
      (hyes : Stmt.Renamed marks yes yes') :
      Stmt.Renamed marks (.branch c yes none) (.branch c' yes' none)
  | branches {marks c c' yes yes' no no'} (hc : Expr.Renamed R D marks c c')
      (hyes : Stmt.Renamed marks yes yes') (hno : Stmt.Renamed marks no no') :
      Stmt.Renamed marks (.branch c yes (some no)) (.branch c' yes' (some no'))
  | loop {marks c c' body body'} (hc : Expr.Renamed R D marks c c')
      (h : Stmt.Renamed marks body body') : Stmt.Renamed marks (.loop c body) (.loop c' body')
  | function {marks f f'} (hname : R.Respells (marks.headD false) f.name f.name)
      (h : Function.Renamed marks f f') : Stmt.Renamed marks (.function f) (.function f')
  | youth {marks name ms ms'} (hname : R.Respells (marks.headD false) name name)
      (h : MethodsRenamed (false :: marks) ms ms') :
      Stmt.Renamed marks (.youth name ms) (.youth name ms')

/-- The same for functions. -/
inductive Function.Renamed : List Bool → Function → Function → Prop
  | mk {marks here name ps ps' body body'} (hps : List.Forall₂ (R.Respells here) ps ps')
      (h : BodyRenamed (here :: marks) body body') :
      Function.Renamed marks (.mk name ps body) (.mk name ps' body')

/-- The same for lists of statements. -/
inductive BodyRenamed : List Bool → List Stmt → List Stmt → Prop
  | nil {marks} : BodyRenamed marks [] []
  | cons {marks s s' body body'} (h : Stmt.Renamed marks s s')
      (hbody : BodyRenamed marks body body') : BodyRenamed marks (s :: body) (s' :: body')

/-- The same for lists of methods. -/
inductive MethodsRenamed : List Bool → List Function → List Function → Prop
  | nil {marks} : MethodsRenamed marks [] []
  | cons {marks f f' ms ms'} (h : Function.Renamed marks f f')
      (hms : MethodsRenamed marks ms ms') : MethodsRenamed marks (f :: ms) (f' :: ms')

end

end Renamed

section Spelling

variable {R : Renaming} {here : Bool} {t t' : Token}

namespace Renaming

/-- Outside of its scope no name is spelled anew. -/
@[simp] theorem spell_false : R.spell false = Equiv.refl Text := rfl

/-- A name that is neither the old nor the new one is spelled as before. -/
theorem spell_of_ne {name : Text} (hold : name ≠ R.token.lexeme) (hnew : name ≠ R.name) :
    R.spell here name = name := by
  cases here with
  | false => rfl
  | true => exact Equiv.swap_apply_of_ne_of_ne hold hnew

namespace Respells

/-- Outside of the scope a token is respelled as itself. -/
theorem refl : R.Respells false t t := ⟨rfl, by simp⟩

/-- A token with neither name is the same everywhere. -/
theorem of_ne (h : here = true → t.lexeme ≠ R.token.lexeme ∧ t.lexeme ≠ R.name) :
    R.Respells here t t := by
  cases here with
  | false => exact .refl
  | true =>
    obtain ⟨hold, hnew⟩ := h rfl
    exact ⟨by rw [spell_of_ne hold hnew], fun _ => hnew⟩

/-- At its declaration the variable is respelled, and a namesake declared elsewhere is not. -/
theorem declared (hnew : t.lexeme ≠ R.name)
    (h : here = true → t.lexeme = R.token.lexeme → t = R.token) :
    R.Respells here t (R.declared here t) := by
  by_cases ht : here = true ∧ t = R.token
  · obtain ⟨rfl, rfl⟩ := ht
    exact ⟨by simp [Renaming.declared, spell], fun _ => hnew⟩
  · rw [Renaming.declared, if_neg ht]
    exact .of_ne fun hhere => ⟨fun he => ht ⟨hhere, h hhere he⟩, hnew⟩

/-- At its uses it is respelled where they lead to its scope. -/
theorem used (hnew : t.lexeme ≠ R.name) : R.Respells here t (R.used here t) := by
  by_cases ht : here = true ∧ t.lexeme = R.token.lexeme
  · obtain ⟨rfl, he⟩ := ht
    exact ⟨by simp [Renaming.used, spell, he], fun _ => hnew⟩
  · rw [Renaming.used, if_neg ht]
    exact .of_ne fun hhere => ⟨fun he => ht ⟨hhere, he⟩, hnew⟩

/-- What a token respelled reads is the new spelling of what it read. -/
theorem lexeme (h : R.Respells here t t') : t'.lexeme = R.spell here t.lexeme := by rw [h.eq]

end Respells

end Renaming

/-! Names are looked up under their new names as they were under the old ones. -/

section Respell

variable {α : Type} (σ : Equiv.Perm Text) (entries : List (Text × α)) (name : Text)

/-- Bindings respelled as themselves are the same. -/
@[simp] theorem respell_refl : respell (Equiv.refl Text) entries = entries := by simp [respell]

/-- What is looked up under its new name is what was found under the old one. -/
@[simp] theorem lookup_respell : (respell σ entries).lookup (σ name) = entries.lookup name := by
  induction entries with
  | nil => rfl
  | cons entry rest ih =>
    obtain ⟨key, x⟩ := entry
    have hkey : (σ name == σ key) = (name == key) := by
      simp only [beq_eq_decide, σ.injective.eq_iff]
    simp only [respell, List.map_cons, List.lookup_cons, hkey]
    cases name == key with
    | true => rfl
    | false => exact ih

end Respell

end Spelling

/-! ## Where nothing is renamed -/

section Unmarked

variable {R : Renaming} {D : Distances} {marks : List Bool}

/-- A use that leads to the scope stands inside of it. -/
theorem mem_of_leadsTo {node : Nat} (h : leadsTo marks D node = true) : true ∈ marks := by
  unfold leadsTo at h
  cases hd : D[node]? with
  | none => simp [hd] at h
  | some d =>
    rw [hd, Option.any_some, List.getD_eq_getElem?_getD] at h
    cases hmark : marks[d]? with
    | none => simp [hmark] at h
    | some here =>
      obtain rfl : here = true := by simpa [hmark] using h
      exact List.mem_of_getElem? hmark

/-- Outside of the scope no use leads to it. -/
theorem Renaming.Respells.of_leadsTo (h : true ∉ marks) {n : Nat} {t : Token} :
    R.Respells (leadsTo marks D n) t t := .of_ne fun hn => absurd (mem_of_leadsTo hn) h

/-- Nor does a declaration stand in it. -/
theorem Renaming.Respells.of_headD (h : true ∉ marks) {t : Token} :
    R.Respells (marks.headD false) t t := by
  refine .of_ne fun hhead => absurd ?_ h
  cases marks with
  | nil => exact absurd hhead Bool.false_ne_true
  | cons here marks => exact List.mem_cons.mpr (.inl hhead.symm)

mutual

/-- An expression without marked scopes around it is renamed to itself. -/
theorem Expr.Renamed.refl (h : true ∉ marks) : ∀ e : Expr, Expr.Renamed R D marks e e
  | .literal v => .literal v
  | .variable _ _ => .variable (.of_leadsTo h)
  | .me _ _ => .me (.of_leadsTo h)
  | .group inner => .group (.refl h inner)
  | .unary _ _ operand => .unary (.refl h operand)
  | .binary _ _ left right => .binary (.refl h left) (.refl h right)
  | .logical _ _ left right => .logical (.refl h left) (.refl h right)
  | .assign _ _ value => .assign (.of_leadsTo h) (.refl h value)
  | .get object _ => .get (.refl h object)
  | .set object _ value => .set (.refl h object) (.refl h value)
  | .call callee _ arguments => .call (.refl h callee) (.refl h arguments)

/-- Arguments outside of the scope are left alone. -/
theorem ArgumentsRenamed.refl (h : true ∉ marks) :
    ∀ es : List Expr, ArgumentsRenamed R D marks es es
  | [] => .nil
  | e :: rest => .cons (.refl h e) (.refl h rest)

end

mutual

/-- A statement without marked scopes around it is renamed to itself. -/
theorem Stmt.Renamed.refl {marks : List Bool} (h : true ∉ marks) :
    ∀ s : Stmt, Stmt.Renamed R D marks s s
  | .failed => .failed
  | .expression value => .expression (.refl h value)
  | .tell value => .tell (.refl h value)
  | .declare _ none => .bare (.of_headD h)
  | .declare _ (some value) => .declare (.of_headD h) (.refl h value)
  | .give _ none => .giveNothing
  | .give _ (some value) => .give (.refl h value)
  | .block body => .block (@BodyRenamed.refl (false :: marks) (by simpa using h) body)
  | .branch condition yes none => .branch (.refl h condition) (.refl h yes)
  | .branch condition yes (some no) => .branches (.refl h condition) (.refl h yes) (.refl h no)
  | .loop condition body => .loop (.refl h condition) (.refl h body)
  | .function declaration => .function (.of_headD h) (.refl h declaration)
  | .youth _ methods => .youth (.of_headD h) (.refl (by simpa using h) methods)

/-- So are functions. -/
theorem Function.Renamed.refl {marks : List Bool} (h : true ∉ marks) :
    ∀ f : Function, Function.Renamed R D marks f f
  | .mk _ _ body =>
    .mk (List.forall₂_same.mpr fun _ _ => .refl)
      (@BodyRenamed.refl (false :: marks) (by simpa using h) body)

/-- So are bodies. -/
theorem BodyRenamed.refl {marks : List Bool} (h : true ∉ marks) :
    ∀ body : List Stmt, BodyRenamed R D marks body body
  | [] => .nil
  | s :: rest => .cons (.refl h s) (.refl h rest)

/-- So are methods. -/
theorem MethodsRenamed.refl {marks : List Bool} (h : true ∉ marks) :
    ∀ ms : List Function, MethodsRenamed R D marks ms ms
  | [] => .nil
  | m :: rest => .cons (.refl h m) (.refl h rest)

end

end Unmarked

/-! ## What a scope declares it declares once

A second declaration of a name would be a mistake.  So in the scope of the variable no other token
declares its name. -/

/-- The token that a statement declares in the scope it stands in. -/
def Stmt.declared? : Stmt → Option Token
  | .declare name _ => some name
  | .function declaration => some declaration.name
  | .youth name _ => some name
  | _ => none

/-- Two statements that do not declare the same name. -/
def Stmt.Apart (s s' : Stmt) : Prop :=
  ∀ t t', s.declared? = some t → s'.declared? = some t' → t.lexeme ≠ t'.lexeme

/-- A statement that declares nothing under the name of the variable, unless it declares the variable. -/
def Renaming.Spares (R : Renaming) (s : Stmt) : Prop :=
  ∀ t, s.declared? = some t → t.lexeme = R.token.lexeme → s.introduced? = some R.token

/-- What a statement declares is new to its scope, if that is no mistake. -/
theorem Stmt.new_of_clean {r : Resolution} {t : Token} : ∀ s : Stmt,
    (s.resolve r).mistakes = [] → s.declared? = some t → r.innermost.lookup t.lexeme = none
  | .declare name none, h, ht => by
      obtain rfl := Option.some.inj ht
      simp only [Stmt.resolve, Resolution.mistakes_define] at h
      exact ((r.mistakes_declare_eq_nil name).mp h).2
  | .declare name (some value), h, ht => by
      obtain rfl := Option.some.inj ht
      simp only [Stmt.resolve, Resolution.mistakes_define] at h
      exact ((r.mistakes_declare_eq_nil name).mp (value.clean_of_resolve _ h)).2
  | .function declaration, h, ht => by
      obtain rfl := Option.some.inj ht
      have := declaration.clean_of_resolve _ h
      rw [Resolution.mistakes_define] at this
      exact ((r.mistakes_declare_eq_nil _).mp this).2
  | .youth name methods, h, ht => by
      obtain rfl := Option.some.inj ht
      have := clean_of_resolveMethods _ methods h
      exact ((r.mistakes_declare_eq_nil name).mp (((r.declare name).mistakes_define name) ▸ this)).2
  | .failed, _, ht | .expression _, _, ht | .tell _, _, ht | .give _ _, _, ht | .block _, _, ht
  | .branch _ _ _, _, ht | .loop _ _, _, ht => by simp [Stmt.declared?] at ht

/-- A name that is new behind a statement was new before it, and the statement does not declare it. -/
theorem Stmt.new_of_extend {scopes : List Scope} (hne : scopes ≠ []) {name : Text} (s : Stmt)
    (h : ((s.extend scopes).headD []).lookup name = none) :
    (scopes.headD []).lookup name = none ∧ ∀ t, s.declared? = some t → t.lexeme ≠ name := by
  obtain ⟨scope, outer, rfl⟩ := List.exists_cons_of_ne_nil hne
  have key : ∀ t : Token, ((declared t.lexeme (scope :: outer)).headD []).lookup name = none →
      scope.lookup name = none ∧ t.lexeme ≠ name := fun t h => by
    simp only [declared, noted, List.headD_cons, List.lookup_cons] at h
    by_cases he : name = t.lexeme
    · simp [he] at h
    · have hb : (name == t.lexeme) = false := by simpa using he
      exact ⟨by simpa [hb] using h, fun h => he h.symm⟩
  cases s with
  | declare name _ => exact ⟨(key name h).1, by rintro t ⟨rfl⟩; exact (key _ h).2⟩
  | function declaration => exact ⟨(key declaration.name h).1, by rintro t ⟨rfl⟩; exact (key _ h).2⟩
  | youth name _ => exact ⟨(key name h).1, by rintro t ⟨rfl⟩; exact (key _ h).2⟩
  | _ => exact ⟨h, by simp [Stmt.declared?]⟩

/-- The statements of a body without mistakes declare different names, all new to their scope. -/
theorem pairwise_apart_of_clean {allowed : Token → Prop} (r : Resolution) (hne : r.scopes ≠ []) :
    ∀ body : List Stmt, (resolveBody r body).mistakes = [] → BodyFormed allowed body →
      body.Pairwise Stmt.Apart
        ∧ ∀ s ∈ body, ∀ t, s.declared? = some t → r.innermost.lookup t.lexeme = none
  | [], _, _ => by simp
  | s :: rest, h, hformed => by
      obtain ⟨hscopes, -⟩ := s.resolve_setting r hformed.1
      have hne' : (s.resolve r).scopes ≠ [] := by
        rw [hscopes]
        exact Stmt.extend_ne_nil hne s
      obtain ⟨hrest, hnew⟩ := pairwise_apart_of_clean (s.resolve r) hne' rest h hformed.2
      simp only [Resolution.innermost, hscopes] at hnew
      refine ⟨List.pairwise_cons.mpr ⟨fun s' hs' t t' ht ht' => ?_, hrest⟩, ?_⟩
      · exact (s.new_of_extend hne (hnew s' hs' t' ht')).2 t ht
      · refine List.forall_mem_cons.mpr ⟨fun t ht => ?_, fun s' hs' t' ht' => ?_⟩
        · exact s.new_of_clean (clean_of_resolveBody _ rest h) ht
        · exact (s.new_of_extend hne (hnew s' hs' t' ht')).1

/-- A function is walked as the declarations of its parameters and its body. -/
theorem mistakes_parameters_append (r : Resolution) (ps : List Token) (body : List Stmt) :
    (resolveBody
        { ps.foldl (fun r p => (r.declare p).define p) r with inFunction := true } body).mistakes
      = (resolveBody { r with inFunction := true } (ps.map (Stmt.declare · none) ++ body)).mistakes := by
  induction ps generalizing r with
  | nil => rfl
  | cons p ps ih =>
    have hp : { (r.declare p).define p with inFunction := true }
        = (Resolution.declare { r with inFunction := true } p).define p := by
      by_cases h : (r.innermost.lookup p.lexeme).isSome
      · have h' : ((Resolution.innermost { r with inFunction := true }).lookup p.lexeme).isSome := h
        rw [Resolution.declare, Resolution.declare, if_pos h, if_pos h']
        obtain ⟨scopes, -, -, -, -⟩ := r
        cases scopes <;> rfl
      · have h' : ¬ ((Resolution.innermost { r with inFunction := true }).lookup p.lexeme).isSome := h
        rw [Resolution.declare, Resolution.declare, if_neg h, if_neg h']
        obtain ⟨scopes, -, -, -, -⟩ := r
        cases scopes <;> rfl
    rw [List.foldl_cons, ih, hp]
    rfl

namespace Renaming

variable {R : Renaming} {body : List Stmt}

/-- The scope of the variable declares nothing else under its name. -/
theorem spares_of_pairwise (h : body.Pairwise Stmt.Apart) (hown : R.token ∈ variablesOf body) :
    ∀ s ∈ body, R.Spares s := by
  intro s hs t ht he
  obtain ⟨s', hs', hvariable⟩ := List.mem_filterMap.mp hown
  by_cases heq : s = s'
  · exact heq ▸ hvariable
  · have hsymm : Std.Symm Stmt.Apart := ⟨fun _ _ h t t' ht ht' => (h t' t ht' ht).symm⟩
    have hdeclared : s'.declared? = some R.token := by
      cases s' with
      | declare name _ => exact hvariable
      | _ => simp [Stmt.introduced?] at hvariable
    exact absurd he (h.forall hs hs' heq t R.token ht hdeclared)

/-- A statement that declares nothing declares nothing under the name of the variable. -/
theorem Spares.of_declares_eq_false {s : Stmt} (h : s.declares = false) : R.Spares s := by
  cases s with
  | declare _ _ => exact absurd h Bool.noConfusion
  | function _ => exact absurd h Bool.noConfusion
  | youth _ _ => exact absurd h Bool.noConfusion
  | _ => exact fun t ht => by simp [Stmt.declared?] at ht

/-- A token that may be in a program for which the new name is new. -/
def Leaves (R : Renaming) (t : Token) : Prop := t.Spelled ∧ t.lexeme ≠ R.name

/-- A variable does not have the name of the receiver. -/
theorem ne_receiver_of_mem (hformed : BodyFormed R.Leaves body) (h : R.token ∈ variablesOf body) :
    R.token.lexeme ≠ receiver := by
  obtain ⟨s, hs, hvariable⟩ := List.mem_filterMap.mp h
  have hs := bodyFormed_iff.mp hformed s hs
  cases s with
  | declare name _ =>
    obtain rfl := Option.some.inj hvariable
    exact hs.2.1.1 hs.1
  | _ => simp [Stmt.introduced?] at hvariable

end Renaming

/-! ## A program and the same with a variable renamed -/

section Rename

variable {R : Renaming} {D : Distances} {marks : List Bool}

mutual

/-- An expression is related to itself renamed, each use by where it leads. -/
theorem Expr.renamed_rename (hmarks : true ∈ marks → R.token.lexeme ≠ receiver) :
    ∀ e : Expr, (∀ ref ∈ e.references, ref.Formed R.Leaves) →
      Expr.Renamed R D marks e (e.rename R D marks)
  | .literal v, _ => .literal v
  | .variable _ _, hrefs => .variable (.used (hrefs _ List.mem_cons_self).2.2)
  | .me _ keyword, hrefs => by
      obtain ⟨hkind, hspelled, hne⟩ := hrefs _ List.mem_cons_self
      refine .me (.of_ne fun h => ⟨?_, hne⟩)
      have hkeyword : keyword.lexeme = receiver := hspelled.2 hkind
      exact hkeyword ▸ (hmarks (mem_of_leadsTo h)).symm
  | .group inner, hrefs => .group (inner.renamed_rename hmarks hrefs)
  | .unary _ _ operand, hrefs => .unary (operand.renamed_rename hmarks hrefs)
  | .binary _ _ left right, hrefs => by
      obtain ⟨hl, hr⟩ := List.forall_mem_append.mp hrefs
      exact .binary (left.renamed_rename hmarks hl) (right.renamed_rename hmarks hr)
  | .logical _ _ left right, hrefs => by
      obtain ⟨hl, hr⟩ := List.forall_mem_append.mp hrefs
      exact .logical (left.renamed_rename hmarks hl) (right.renamed_rename hmarks hr)
  | .assign _ _ value, hrefs => by
      obtain ⟨ht, hvalue⟩ := List.forall_mem_cons.mp hrefs
      exact .assign (.used ht.2.2) (value.renamed_rename hmarks hvalue)
  | .get object _, hrefs => .get (object.renamed_rename hmarks hrefs)
  | .set object _ value, hrefs => by
      obtain ⟨ho, hvalue⟩ := List.forall_mem_append.mp hrefs
      exact .set (object.renamed_rename hmarks ho) (value.renamed_rename hmarks hvalue)
  | .call callee _ arguments, hrefs => by
      obtain ⟨hcallee, hes⟩ := List.forall_mem_append.mp hrefs
      exact .call (callee.renamed_rename hmarks hcallee)
        (argumentsRenamed_rename hmarks arguments hes)

/-- So are arguments. -/
theorem argumentsRenamed_rename (hmarks : true ∈ marks → R.token.lexeme ≠ receiver) : ∀ es : List Expr,
    (∀ ref ∈ argumentReferences es, ref.Formed R.Leaves) →
      ArgumentsRenamed R D marks es (renameArguments R D marks es)
  | [], _ => .nil
  | e :: rest, hrefs => by
      obtain ⟨he, hrest⟩ := List.forall_mem_append.mp hrefs
      exact .cons (e.renamed_rename hmarks he)
        (argumentsRenamed_rename hmarks rest hrest)

end

mutual

/-- **A statement without mistakes and the same with a variable renamed** differ in the names of its
scope only. -/
theorem Stmt.renamed_rename {marks : List Bool} (r : Resolution) : ∀ s : Stmt,
    (s.resolve r).mistakes = [] → s.Formed R.Leaves → (∀ ref ∈ s.references, ref.Formed R.Leaves) →
    (true ∈ marks → R.token.lexeme ≠ receiver) → (marks.headD false = true → R.Spares s) →
      Stmt.Renamed R D marks s (s.rename R D marks)
  | .failed, _, _, _, _, _ => .failed
  | .expression value, _, _, hrefs, hmarks, _ => .expression (value.renamed_rename hmarks hrefs)
  | .tell value, _, _, hrefs, hmarks, _ => .tell (value.renamed_rename hmarks hrefs)
  | .declare name none, _, hformed, _, _, hspares =>
      .bare (.declared hformed.2.2 fun h he => Option.some.inj (hspares h name rfl he))
  | .declare name (some value), _, hformed, hrefs, hmarks, hspares =>
      .declare (.declared hformed.2.2 fun h he => Option.some.inj (hspares h name rfl he))
        (value.renamed_rename hmarks hrefs)
  | .give _ none, _, _, _, _, _ => .giveNothing
  | .give _ (some value), _, _, hrefs, hmarks, _ => .give (value.renamed_rename hmarks hrefs)
  -- In a block of its own the variable may be declared, once as the program is clean.
  | .block body, hclean, hformed, hrefs, hmarks, _ => by
      obtain ⟨hapart, -⟩ :=
        pairwise_apart_of_clean (r.enter []) (List.cons_ne_nil _ _) body hclean hformed
      refine .block (bodyRenamed_rename (r.enter []) body hclean hformed hrefs (fun h => ?_) ?_)
      · obtain h | h := List.mem_cons.mp h
        · exact Renaming.ne_receiver_of_mem hformed (of_decide_eq_true h.symm)
        · exact hmarks h
      · exact fun h => Renaming.spares_of_pairwise hapart (of_decide_eq_true h)
  -- A branch declares nothing, so it spares the name for want of a declaration.
  | .branch condition yes none, hclean, hformed, hrefs, hmarks, _ => by
      obtain ⟨hcondition, hyes⟩ := List.forall_mem_append.mp hrefs
      refine .branch (condition.renamed_rename hmarks hcondition)
        (yes.renamed_rename _ hclean hformed.2 hyes hmarks fun _ => ?_)
      exact .of_declares_eq_false hformed.1
  | .branch condition yes (some no), hclean, hformed, hrefs, hmarks, _ => by
      obtain ⟨hthen, hno⟩ := List.forall_mem_append.mp hrefs
      obtain ⟨hcondition, hyes⟩ := List.forall_mem_append.mp hthen
      obtain ⟨hdy, hfy, hdn, hfn⟩ := hformed
      exact .branches (condition.renamed_rename hmarks hcondition)
        (yes.renamed_rename _ (no.clean_of_resolve _ hclean) hfy hyes hmarks fun _ =>
          .of_declares_eq_false hdy)
        (no.renamed_rename _ hclean hfn hno hmarks fun _ => .of_declares_eq_false hdn)
  | .loop condition body, hclean, hformed, hrefs, hmarks, _ => by
      obtain ⟨hcondition, hbody⟩ := List.forall_mem_append.mp hrefs
      exact .loop (condition.renamed_rename hmarks hcondition)
        (body.renamed_rename _ hclean hformed.2 hbody hmarks fun _ =>
          .of_declares_eq_false hformed.1)
  -- A function's name is not respelled: it introduces no variable.
  | .function declaration, hclean, hformed, hrefs, hmarks, hspares => by
      obtain ⟨name, ps, body⟩ := declaration
      refine .function (.of_ne fun h => ⟨fun he => ?_, hformed.1.2.2⟩)
        (Function.renamed_rename _ _ hclean hformed hrefs hmarks)
      simpa [Stmt.introduced?] using hspares h _ rfl he
  | .youth name methods, hclean, hformed, hrefs, hmarks, hspares => by
      refine .youth (.of_ne fun h => ⟨fun he => ?_, hformed.1.2.2⟩)
        (methodsRenamed_rename _ methods hclean hformed.2 hrefs (by simpa using hmarks))
      simpa [Stmt.introduced?] using hspares h _ rfl he

/-- So is a function, whose parameters are declared in its own scope. -/
theorem Function.renamed_rename {marks : List Bool} (r : Resolution) : ∀ f : Function,
    (f.resolve r).mistakes = [] → f.Formed R.Leaves → (∀ ref ∈ f.references, ref.Formed R.Leaves) →
    (true ∈ marks → R.token.lexeme ≠ receiver) →
      Function.Renamed R D marks f (f.rename R D marks)
  | .mk name ps body, hclean, hformed, hrefs, hmarks => by
      have hall : BodyFormed R.Leaves (ps.map (Stmt.declare · none) ++ body) := by
        refine bodyFormed_iff.mpr (List.forall_mem_append.mpr ⟨?_, bodyFormed_iff.mp hformed.2.2⟩)
        exact List.forall_mem_map.mpr hformed.2.1
      have hvariables : variablesOf (ps.map (Stmt.declare · none) ++ body)
          = ps ++ variablesOf body := by
        simp [variablesOf, Function.comp_def, Stmt.introduced?]
      have hmistakes := mistakes_parameters_append (r.enter []) ps body
      obtain ⟨hapart, -⟩ := pairwise_apart_of_clean { r.enter [] with inFunction := true }
        (List.cons_ne_nil _ _) _ (hmistakes.symm.trans hclean) hall
      have hspares : R.token ∈ ps ++ variablesOf body → ∀ s ∈ _, R.Spares s := fun h =>
        Renaming.spares_of_pairwise hapart (hvariables ▸ h)
      refine .mk ?_ (bodyRenamed_rename _ body hclean hformed.2.2 hrefs (fun h => ?_) fun h s hs => ?_)
      · refine List.forall₂_map_right_iff.mpr (List.forall₂_same.mpr fun p hp => ?_)
        refine .declared (hformed.2.1 p hp).2.2 fun h he => ?_
        have := hspares (of_decide_eq_true h) (.declare p none)
          (List.mem_append_left _ (List.mem_map_of_mem hp)) p rfl he
        exact Option.some.inj this
      · obtain h | h := List.mem_cons.mp h
        · exact Renaming.ne_receiver_of_mem hall (hvariables.symm ▸ of_decide_eq_true h.symm)
        · exact hmarks h
      · exact hspares (of_decide_eq_true h) s (List.mem_append_right _ hs)

/-- So is a body, statement by statement, each in the scopes that the ones before it leave. -/
theorem bodyRenamed_rename {marks : List Bool} (r : Resolution) : ∀ body : List Stmt,
    (resolveBody r body).mistakes = [] → BodyFormed R.Leaves body →
    (∀ ref ∈ bodyReferences body, ref.Formed R.Leaves) →
    (true ∈ marks → R.token.lexeme ≠ receiver) →
    (marks.headD false = true → ∀ s ∈ body, R.Spares s) →
      BodyRenamed R D marks body (renameBody R D marks body)
  | [], _, _, _, _, _ => .nil
  | s :: rest, hclean, hformed, hrefs, hmarks, hspares => by
      obtain ⟨hs, hrest⟩ := List.forall_mem_append.mp hrefs
      refine .cons (s.renamed_rename r (clean_of_resolveBody _ rest hclean) hformed.1 hs hmarks ?_)
        (bodyRenamed_rename _ rest hclean hformed.2 hrest hmarks ?_)
      · exact fun h => hspares h s List.mem_cons_self
      · exact fun h s' hs' => hspares h s' (List.mem_cons_of_mem s hs')

/-- So are methods. -/
theorem methodsRenamed_rename {marks : List Bool} (r : Resolution) : ∀ ms : List Function,
    (resolveMethods r ms).mistakes = [] → MethodsFormed R.Leaves ms →
    (∀ ref ∈ methodReferences ms, ref.Formed R.Leaves) →
    (true ∈ marks → R.token.lexeme ≠ receiver) →
      MethodsRenamed R D marks ms (renameMethods R D marks ms)
  | [], _, _, _, _ => .nil
  | m :: rest, hclean, hformed, hrefs, hmarks => by
      obtain ⟨hm, hrest⟩ := List.forall_mem_append.mp hrefs
      exact .cons (m.renamed_rename r (clean_of_resolveMethods _ rest hclean) hformed.1 hm hmarks)
        (methodsRenamed_rename _ rest hclean hformed.2 hrest hmarks)

end

/-- **A program without mistakes and the same with a variable renamed** differ in the names of the
variable's scope only. -/
theorem bodyRenamed {program : List Stmt} (hclean : (resolve program).diagnostics = [])
    (hformed : BodyFormed R.Leaves program)
    (hrefs : ∀ ref ∈ bodyReferences program, ref.Formed R.Leaves) (D : Distances) :
    BodyRenamed R D [false] program (renameVariable R D program) := by
  have hclean : (resolveBody ⟨[[]], false, false, ∅, []⟩ program).mistakes = [] := by
    simpa [resolve] using hclean
  exact bodyRenamed_rename _ program hclean hformed hrefs (by simp) (by simp)

end Rename

end YouthLang

import YouthLang.Proofs.Counting.Language
import YouthLang.Proofs.Settled

/-!
# Proofs/Counting/Walk — the walk over a program with counting loops

The walk over a program and the walk over what it stands for open almost the same scopes.  A
counting loop has a scope where it has no initializer too, and what it stands for has one more
around the body and the increment; neither of them ever declares anything.  So the two stacks of
scopes are the same but for empty ones (`Aligned`), the mistakes are the same
(`diagnostics_resolve`), and without mistakes both programs are settled, each in its own scopes.

For the first of the two this is read off its `scaffold`, a program without counting loops that has
its scopes.
-/

namespace YouthLang.Counting

/-! ## What has the scopes of a program -/

/-- The condition of the loop that a counting loop stands for. -/
def tested (condition : Option Expr) : Expr := condition.getD (.literal (.truth true))

/-- The body of the loop that a counting loop stands for. -/
def wrapped (increment : Option Expr) (body : YouthLang.Stmt) : YouthLang.Stmt :=
  match increment with
  | some e => .block [body, .expression e]
  | none => body

/-- The loop that a counting loop stands for, apart from the initializer. -/
def looped (condition increment : Option Expr) (body : YouthLang.Stmt) : YouthLang.Stmt :=
  .loop (tested condition) (wrapped increment body)

/-- A counting loop is a block around the simpler loop, if it has a first part. -/
theorem desugar_count (initializer : Option Clause) (condition increment : Option Expr)
    (body : Stmt) : (Stmt.count initializer condition increment body).desugar
      = match initializer with
        | some clause => .block [clause.desugar, looped condition increment body.desugar]
        | none => looped condition increment body.desugar := by
  cases initializer <;> cases increment <;> rfl

/-- A choice is simplified branch by branch. -/
theorem desugar_branch (condition : Expr) (yes : Stmt) (no : Option Stmt) :
    (Stmt.branch condition yes no).desugar
      = .branch condition yes.desugar (no.map Stmt.desugar) := by
  cases no <;> rfl

/-- The initializer of a counting loop, in front of other statements. -/
def clausesOf (initializer : Option Clause) : List YouthLang.Stmt :=
  (initializer.map Clause.desugar).toList

/-- The increment of a counting loop, as a statement. -/
def incrementsOf (increment : Option Expr) : List YouthLang.Stmt :=
  (increment.map YouthLang.Stmt.expression).toList

mutual

/-- A declaration without counting loops that has the same scopes. -/
def Decl.scaffold : Decl → YouthLang.Stmt
  | .declare name initializer => .declare name initializer
  | .function declaration => .function declaration.scaffold
  | .youth name methods => .youth name (scaffoldMethods methods)
  | .statement s => s.scaffold
  | .failed => .failed

/-- The same for a statement. -/
def Stmt.scaffold : Stmt → YouthLang.Stmt
  | .expression value => .expression value
  | .tell value => .tell value
  | .give keyword value => .give keyword value
  | .block body => .block (scaffoldBody body)
  | .branch condition yes none => .branch condition yes.scaffold none
  | .branch condition yes (some no) => .branch condition yes.scaffold (some no.scaffold)
  | .loop condition body => .loop condition body.scaffold
  | .count initializer condition increment body =>
    .block (clausesOf initializer
      ++ .loop (tested condition) body.scaffold :: incrementsOf increment)

/-- The same for a function. -/
def Function.scaffold : Function → YouthLang.Function
  | .mk name parameters body => .mk name parameters (scaffoldBody body)

/-- The same for a list of declarations. -/
def scaffoldBody : List Decl → List YouthLang.Stmt
  | [] => []
  | d :: rest => d.scaffold :: scaffoldBody rest

/-- The same for a list of methods. -/
def scaffoldMethods : List Function → List YouthLang.Function
  | [] => []
  | m :: rest => m.scaffold :: scaffoldMethods rest

end

/-- An absent condition uses no names. -/
theorem resolve_tested (r : Resolution) (condition : Option Expr) :
    (tested condition).resolve r = resolveOptional r condition := by cases condition <;> rfl

/-- Methods are simplified one by one. -/
theorem desugarMethods_eq_map (ms : List Function) :
    desugarMethods ms = ms.map Function.desugar := by
  induction ms with
  | nil => rfl
  | cons m ms ih => rw [desugarMethods, ih, List.map_cons]

/-- Their scaffolds are made one by one. -/
theorem scaffoldMethods_eq_map (ms : List Function) :
    scaffoldMethods ms = ms.map Function.scaffold := by
  induction ms with
  | nil => rfl
  | cons m ms ih => rw [scaffoldMethods, ih, List.map_cons]

mutual

/-- The walk over a declaration is the one over its scaffold. -/
theorem Decl.resolve_scaffold (r : Resolution) : ∀ d : Decl, d.scaffold.resolve r = d.resolve r
  | .declare _ none | .declare _ (some _) | .failed => rfl
  | .function (.mk name parameters body) =>
      Function.resolve_scaffold ((r.declare name).define name) (.mk name parameters body)
  | .youth name methods => by
      simp only [Decl.scaffold, YouthLang.Stmt.resolve, Decl.resolve, resolveMethods_scaffold]
  | .statement s => s.resolve_scaffold r

/-- So is the one over a statement. -/
theorem Stmt.resolve_scaffold (r : Resolution) : ∀ s : Stmt, s.scaffold.resolve r = s.resolve r
  | .expression _ | .tell _ | .give _ none | .give _ (some _) => rfl
  | .block body => by
      simp only [Stmt.scaffold, YouthLang.Stmt.resolve, Stmt.resolve, resolveBody_scaffold]
  | .branch condition yes none => yes.resolve_scaffold (condition.resolve r)
  | .branch condition yes (some no) => by
      simp only [Stmt.scaffold, YouthLang.Stmt.resolve, Stmt.resolve, yes.resolve_scaffold,
        no.resolve_scaffold]
  | .loop condition body => body.resolve_scaffold (condition.resolve r)
  | .count initializer condition increment body => by
      cases initializer <;> cases increment <;>
        simp [Stmt.scaffold, clausesOf, incrementsOf, YouthLang.Stmt.resolve, Stmt.resolve,
          YouthLang.resolveBody, resolveClause, resolve_tested, resolveOptional,
          body.resolve_scaffold]

/-- So is the one over a routine. -/
theorem Function.resolve_scaffold (r : Resolution) : ∀ f : Function,
    f.scaffold.resolve r = f.resolve r
  | .mk name parameters body => by
      simp only [Function.scaffold, YouthLang.Function.resolve, Function.resolve,
        resolveBody_scaffold]

/-- So is the one over a body. -/
theorem resolveBody_scaffold (r : Resolution) : ∀ body : List Decl,
    YouthLang.resolveBody r (scaffoldBody body) = resolveBody r body
  | [] => rfl
  | d :: rest => by
      simp only [scaffoldBody, YouthLang.resolveBody, resolveBody, d.resolve_scaffold,
        resolveBody_scaffold _ rest]

/-- So is the one over methods. -/
theorem resolveMethods_scaffold (r : Resolution) : ∀ ms : List Function,
    YouthLang.resolveMethods r (scaffoldMethods ms) = resolveMethods r ms
  | [] => rfl
  | m :: rest => by
      simp only [scaffoldMethods, YouthLang.resolveMethods, resolveMethods, m.resolve_scaffold,
        resolveMethods_scaffold _ rest]

end

/-- **The walk over a program is the one over its scaffold.** -/
theorem resolve_scaffoldBody (program : List Decl) :
    YouthLang.resolve (scaffoldBody program) = resolve program := by
  simp only [YouthLang.resolve, resolve, resolveBody_scaffold]

/-! ## The scaffold of a parsed program -/

/-- What a statement is simplified to declares nothing outside. -/
theorem Stmt.declares_desugar (s : Stmt) : s.desugar.declares = false := by
  cases s with
  | branch _ _ no => cases no <;> rfl
  | count initializer _ _ _ => cases initializer <;> rfl
  | _ => rfl

/-- Neither does its scaffold. -/
theorem Stmt.declares_scaffold (s : Stmt) : s.scaffold.declares = false := by
  cases s with
  | branch _ _ no => cases no <;> rfl
  | _ => rfl

section Formed

variable {allowed : Token → Prop}

mutual

/-- What stands for a declaration is formed only if its scaffold is. -/
theorem Decl.formed_scaffold : ∀ d : Decl, d.desugar.Formed allowed → d.scaffold.Formed allowed
  | .declare _ _, h => h
  | .function (.mk _ _ body), h => ⟨h.1, h.2.1, bodyFormed_scaffold body h.2.2⟩
  | .youth _ methods, h => ⟨h.1, methodsFormed_scaffold methods h.2⟩
  | .statement s, h => s.formed_scaffold h
  | .failed, h => h

/-- The scaffold of a statement is formed as what it is simplified to. -/
theorem Stmt.formed_scaffold : ∀ s : Stmt, s.desugar.Formed allowed → s.scaffold.Formed allowed
  | .expression _, h | .tell _, h | .give _ _, h => h
  | .block body, h => bodyFormed_scaffold body h
  | .branch _ yes none, h => ⟨yes.declares_scaffold, yes.formed_scaffold h.2⟩
  | .branch _ yes (some no), h =>
      ⟨yes.declares_scaffold, yes.formed_scaffold h.2.1, no.declares_scaffold,
        no.formed_scaffold h.2.2.2⟩
  | .loop _ body, h => ⟨body.declares_scaffold, body.formed_scaffold h.2⟩
  | .count initializer condition increment body, h => by
      have ih := body.formed_scaffold
      have hd := body.declares_scaffold
      cases initializer <;> cases increment <;>
        simp_all [Stmt.desugar, countingLoop, Stmt.scaffold, clausesOf, tested, incrementsOf,
          YouthLang.Stmt.Formed, YouthLang.BodyFormed]

/-- So is the scaffold of a body. -/
theorem bodyFormed_scaffold : ∀ body : List Decl,
    YouthLang.BodyFormed allowed (desugarBody body) →
      YouthLang.BodyFormed allowed (scaffoldBody body)
  | [], h => h
  | d :: rest, h => ⟨d.formed_scaffold h.1, bodyFormed_scaffold rest h.2⟩

/-- So is the one of methods. -/
theorem methodsFormed_scaffold : ∀ ms : List Function,
    YouthLang.MethodsFormed allowed (desugarMethods ms) →
      YouthLang.MethodsFormed allowed (scaffoldMethods ms)
  | [], h => h
  | .mk _ _ body :: rest, h =>
      ⟨⟨h.1.1, h.1.2.1, bodyFormed_scaffold body h.1.2.2⟩, methodsFormed_scaffold rest h.2⟩

end

end Formed

mutual

/-- What stands for a declaration uses the names that its scaffold uses. -/
theorem Decl.references_scaffold : ∀ d : Decl, d.scaffold.references = d.desugar.references
  | .declare _ _ | .failed => rfl
  | .function (.mk _ _ body) => bodyReferences_scaffold body
  | .youth _ methods => methodReferences_scaffold methods
  | .statement s => s.references_scaffold

/-- A scaffold has the references of what the statement is simplified to, in their order. -/
theorem Stmt.references_scaffold : ∀ s : Stmt, s.scaffold.references = s.desugar.references
  | .expression _ | .tell _ | .give _ _ => rfl
  | .block body => bodyReferences_scaffold body
  | .branch condition yes none => congrArg (condition.references ++ ·) yes.references_scaffold
  | .branch condition yes (some no) => by
      simp only [Stmt.scaffold, Stmt.desugar, YouthLang.Stmt.references, yes.references_scaffold,
        no.references_scaffold]
  | .loop condition body => congrArg (condition.references ++ ·) body.references_scaffold
  | .count initializer condition increment body => by
      have ih := body.references_scaffold
      cases initializer <;> cases increment <;>
        simp [Stmt.desugar, countingLoop, Stmt.scaffold, clausesOf, tested, incrementsOf,
          YouthLang.Stmt.references, bodyReferences, ih]

/-- So has the scaffold of a body. -/
theorem bodyReferences_scaffold : ∀ body : List Decl,
    bodyReferences (scaffoldBody body) = bodyReferences (desugarBody body)
  | [] => rfl
  | d :: rest => by
      simp only [scaffoldBody, desugarBody, bodyReferences, d.references_scaffold,
        bodyReferences_scaffold rest]

/-- So has the one of methods. -/
theorem methodReferences_scaffold : ∀ ms : List Function,
    methodReferences (scaffoldMethods ms) = methodReferences (desugarMethods ms)
  | [] => rfl
  | .mk name parameters body :: rest => by
      simp only [scaffoldMethods, desugarMethods, methodReferences, Function.scaffold,
        Function.desugar, YouthLang.Function.references, bodyReferences_scaffold body,
        methodReferences_scaffold rest]

end

/-! ## Scopes side by side

Two stacks of scopes are aligned by a list of marks, one for each scope: it is on both sides, on the
first alone or on the second alone. -/

/-- Which of the two programs a scope belongs to: the one with counting loops is the first. -/
inductive Mark where
  | both
  | first
  | second

/-- Two stacks of scopes that are the same but for empty scopes. -/
inductive Aligned : List Mark → List Scope → List Scope → Prop
  | nil : Aligned [] [] []
  | both {ms scopes scopes'} (scope : Scope) (houter : Aligned ms scopes scopes') :
      Aligned (.both :: ms) (scope :: scopes) (scope :: scopes')
  | first {ms scopes scopes'} (houter : Aligned ms scopes scopes') :
      Aligned (.first :: ms) ([] :: scopes) scopes'
  | second {ms scopes scopes'} (houter : Aligned ms scopes scopes') :
      Aligned (.second :: ms) scopes ([] :: scopes')

/-- An empty scope has no name in the making. -/
theorem Scope.complete_nil : Scope.Complete [] := fun name => by simp

namespace Aligned

variable {ms : List Mark} {scopes scopes' : List Scope}

/-- A name noted on both sides keeps the scopes aligned. -/
theorem noted (h : Aligned (.both :: ms) scopes scopes') (name : Text) (complete : Bool) :
    Aligned (.both :: ms) (noted name complete scopes) (noted name complete scopes') := by
  cases h with
  | both scope houter => exact .both _ houter

/-- So does one that is declared. -/
theorem declared (h : Aligned (.both :: ms) scopes scopes') (name : Text) :
    Aligned (.both :: ms) (declared name scopes) (declared name scopes') :=
  (h.noted name false).noted name true

/-- Where both sides have a scope it is the same one. -/
theorem headD_eq (h : Aligned (.both :: ms) scopes scopes') :
    scopes.headD [] = scopes'.headD [] := by
  cases h with
  | both scope houter => rfl

/-- Leaving it on both sides keeps the others aligned. -/
theorem tail_both (h : Aligned (.both :: ms) scopes scopes') :
    Aligned ms scopes.tail scopes'.tail := by
  cases h with
  | both scope houter => exact houter

/-- A scope of one side is left on that side. -/
theorem tail_first (h : Aligned (.first :: ms) scopes scopes') :
    Aligned ms scopes.tail scopes' := by
  cases h with
  | first houter => exact houter

/-- The same for the other side. -/
theorem tail_second (h : Aligned (.second :: ms) scopes scopes') :
    Aligned ms scopes scopes'.tail := by
  cases h with
  | second houter => exact houter

/-- Scopes next to complete ones are complete. -/
theorem complete (h : Aligned ms scopes scopes') (hc : ∀ scope ∈ scopes', scope.Complete) :
    ∀ scope ∈ scopes, scope.Complete := by
  induction h with
  | nil => exact hc
  | both scope _ ih =>
    obtain ⟨hscope, houter⟩ := List.forall_mem_cons.mp hc
    exact List.forall_mem_cons.mpr ⟨hscope, ih houter⟩
  | first _ ih => exact List.forall_mem_cons.mpr ⟨Scope.complete_nil, ih hc⟩
  | second _ ih => exact ih (List.forall_mem_cons.mp hc).2

end Aligned

/-! ## Walks side by side -/

/-- Two walks in the midst of an expression: they stand in scopes that are the same but for empty
ones, and have found the same mistakes so far. -/
structure Abreast (ms : List Mark) (r r' : Resolution) : Prop where
  scopes : Aligned ms r.scopes r'.scopes
  inFunction : r.inFunction = r'.inFunction
  inYouth : r.inYouth = r'.inYouth
  mistakes : r.mistakes = r'.mistakes
  /-- Both stand in the initializer of a name, or neither does. -/
  hidden : ∀ name, r.innermost.lookup name = some false ↔ r'.innermost.lookup name = some false

/-- Two walks between two statements. -/
structure Level (ms : List Mark) (r r' : Resolution) : Prop where
  scopes : Aligned ms r.scopes r'.scopes
  inFunction : r.inFunction = r'.inFunction
  inYouth : r.inYouth = r'.inYouth
  mistakes : r.mistakes = r'.mistakes
  complete : ∀ scope ∈ r'.scopes, scope.Complete

section Walk

variable {ms : List Mark} {r r' : Resolution}

namespace Abreast

/-- A report on both sides is the same. -/
theorem report (h : Abreast ms r r') (t : Token) (cause : ScopeCause) :
    Abreast ms (r.report t cause) (r'.report t cause) :=
  { h with mistakes := congrArg (_ :: ·) h.mistakes }

/-- A name is looked up in the same scope on both sides, whatever its distance. -/
theorem resolve (h : Abreast ms r r') (node : Nat) (name : Text) :
    Abreast ms (r.resolve node name) (r'.resolve node name) := by
  obtain ⟨hscopes, hfunction, hyouth, hmistakes, hhidden⟩ := h
  refine ⟨?_, ?_, ?_, ?_, ?_⟩ <;> simp_all [Resolution.innermost]

mutual

/-- Two walks over an expression stay abreast. -/
theorem expr {r r' : Resolution} (h : Abreast ms r r') : ∀ e : Expr,
    Abreast ms (e.resolve r) (e.resolve r')
  | .literal _ => h
  | .variable node name => by
      simp only [Expr.resolve, h.hidden name.lexeme]
      split
      · exact (h.report name .ownInitializer).resolve node name.lexeme
      · exact h.resolve node name.lexeme
  | .me node keyword => by
      simp only [Expr.resolve, h.inYouth]
      split
      · exact h.resolve node keyword.lexeme
      · exact h.report keyword .meOutside
  | .group inner => h.expr inner
  | .unary _ _ operand => h.expr operand
  | .binary _ _ left right => (h.expr left).expr right
  | .logical _ _ left right => (h.expr left).expr right
  | .assign node name value => (h.expr value).resolve node name.lexeme
  | .get object _ => h.expr object
  | .set object _ value => (h.expr value).expr object
  | .call callee _ arguments => (h.expr callee).arguments arguments

/-- Arguments are walked abreast, one by one. -/
theorem arguments {r r' : Resolution} (h : Abreast ms r r') : ∀ es : List Expr,
    Abreast ms (resolveArguments r es) (resolveArguments r' es)
  | [] => h
  | e :: rest => (h.expr e).arguments rest

end

/-- Where a declaration goes to a scope of both, the walks stay abreast. -/
theorem of_both (hscopes : Aligned (.both :: ms) r.scopes r'.scopes)
    (hfunction : r.inFunction = r'.inFunction) (hyouth : r.inYouth = r'.inYouth)
    (hmistakes : r.mistakes = r'.mistakes) : Abreast (.both :: ms) r r' :=
  ⟨hscopes, hfunction, hyouth, hmistakes, fun name => by
    rw [Resolution.innermost, hscopes.headD_eq, Resolution.innermost]⟩

/-- A name is noted on both sides. -/
theorem note (h : Abreast (.both :: ms) r r') (name : Text) (complete : Bool) :
    Abreast (.both :: ms) (r.note name complete) (r'.note name complete) :=
  .of_both (by simpa using h.scopes.noted name complete) (by simpa using h.inFunction)
    (by simpa using h.inYouth) (by simpa using h.mistakes)

/-- A name is declared on both sides, and complained about on both or neither. -/
theorem declare (h : Abreast (.both :: ms) r r') (t : Token) :
    Abreast (.both :: ms) (r.declare t) (r'.declare t) := by
  have hhead : r.innermost = r'.innermost := h.scopes.headD_eq
  simp only [Resolution.declare, hhead]
  split
  · exact (h.report t .duplicate).note t.lexeme false
  · exact h.note t.lexeme false

end Abreast

namespace Level

/-- Between two statements no declaration is under way. -/
theorem abreast (h : Level ms r r') : Abreast ms r r' where
  scopes := h.scopes
  inFunction := h.inFunction
  inYouth := h.inYouth
  mistakes := h.mistakes
  hidden name := by
    have hno : ∀ scopes : List Scope, (∀ scope ∈ scopes, scope.Complete) →
        (scopes.headD []).lookup name ≠ some false := by
      intro scopes hc
      cases scopes with
      | nil => simp
      | cons scope outer => exact hc scope List.mem_cons_self name
    exact iff_of_false (hno _ (h.scopes.complete h.complete)) (hno _ h.complete)

/-- An expression keeps the walks level. -/
theorem expr (h : Level ms r r') (e : Expr) : Level ms (e.resolve r) (e.resolve r') := by
  obtain ⟨hscopes, hfunction, hyouth, hmistakes, -⟩ := h.abreast.expr e
  exact ⟨hscopes, hfunction, hyouth, hmistakes, by simpa using h.complete⟩

/-- So does one that may be missing. -/
theorem optional (h : Level ms r r') (e? : Option Expr) :
    Level ms (resolveOptional r e?) (resolveOptional r' e?) := by
  cases e? with
  | none => exact h
  | some e => exact h.expr e

/-- So does a report. -/
theorem report (h : Level ms r r') (t : Token) (cause : ScopeCause) :
    Level ms (r.report t cause) (r'.report t cause) :=
  { h with mistakes := congrArg (_ :: ·) h.mistakes }

/-- A name declared behind what its declaration consists of. -/
theorem define (h : Level (.both :: ms) r r') (t : Token) {q q' : Resolution}
    (hq : Abreast (.both :: ms) q q') (hscopes : q'.scopes = noted t.lexeme false r'.scopes) :
    Level (.both :: ms) (q.define t) (q'.define t) := by
  obtain ⟨hnoted, hfunction, hyouth, hmistakes, -⟩ := hq.note t.lexeme true
  refine ⟨hnoted, hfunction, hyouth, hmistakes, ?_⟩
  rw [Resolution.scopes_define, hscopes]
  exact complete_declared h.complete t.lexeme

/-- So does a name that is declared and defined. -/
theorem declare (h : Level (.both :: ms) r r') (t : Token) :
    Level (.both :: ms) ((r.declare t).define t) ((r'.declare t).define t) :=
  h.define t (h.abreast.declare t) (by simp)

/-- So does a declaration, with a value or without. -/
theorem declaration (h : Level (.both :: ms) r r') (name : Token) : ∀ initializer : Option Expr,
    Level (.both :: ms) ((YouthLang.Stmt.declare name initializer).resolve r)
      ((YouthLang.Stmt.declare name initializer).resolve r')
  | none => h.declare name
  | some value => h.define name ((h.abreast.declare name).expr value) (by simp)

/-- So do parameters. -/
theorem parameters {r r' : Resolution} (h : Level (.both :: ms) r r') : ∀ ps : List Token,
    Level (.both :: ms) (ps.foldl (fun r p => (r.declare p).define p) r)
      (ps.foldl (fun r p => (r.declare p).define p) r')
  | [] => h
  | p :: ps => (h.declare p).parameters ps

/-- So does being inside a class on both sides. -/
theorem inside (h : Level ms r r') (b : Bool) {b' : Bool} (hb : b = b') :
    Level ms { r with inYouth := b } { r' with inYouth := b' } :=
  { h with inYouth := hb }

/-- So does being within a routine on both sides. -/
theorem within (h : Level ms r r') (b : Bool) {b' : Bool} (hb : b = b') :
    Level ms { r with inFunction := b } { r' with inFunction := b' } :=
  { h with inFunction := hb }

/-! A scope is opened on both sides or on one. -/

/-- A scope is opened on both sides. -/
theorem enter (h : Level ms r r') {scope : Scope} (hc : scope.Complete) :
    Level (.both :: ms) (r.enter scope) (r'.enter scope) where
  scopes := .both scope h.scopes
  inFunction := h.inFunction
  inYouth := h.inYouth
  mistakes := h.mistakes
  complete := List.forall_mem_cons.mpr ⟨hc, h.complete⟩

/-- Or on the one side only. -/
theorem enter_first (h : Level ms r r') : Level (.first :: ms) (r.enter []) r' where
  scopes := .first h.scopes
  inFunction := h.inFunction
  inYouth := h.inYouth
  mistakes := h.mistakes
  complete := h.complete

/-- Or on the other side only. -/
theorem enter_second (h : Level ms r r') : Level (.second :: ms) r (r'.enter []) where
  scopes := .second h.scopes
  inFunction := h.inFunction
  inYouth := h.inYouth
  mistakes := h.mistakes
  complete := List.forall_mem_cons.mpr ⟨Scope.complete_nil, h.complete⟩

/-- It is left where it was opened. -/
theorem leave (h : Level (.both :: ms) r r') : Level ms r.leave r'.leave where
  scopes := h.scopes.tail_both
  inFunction := h.inFunction
  inYouth := h.inYouth
  mistakes := h.mistakes
  complete scope hscope := h.complete scope (List.mem_of_mem_tail hscope)

/-- On the one side only, if it was opened there. -/
theorem leave_first (h : Level (.first :: ms) r r') : Level ms r.leave r' where
  scopes := h.scopes.tail_first
  inFunction := h.inFunction
  inYouth := h.inYouth
  mistakes := h.mistakes
  complete := h.complete

/-- On the other side only. -/
theorem leave_second (h : Level (.second :: ms) r r') : Level ms r r'.leave where
  scopes := h.scopes.tail_second
  inFunction := h.inFunction
  inYouth := h.inYouth
  mistakes := h.mistakes
  complete scope hscope := h.complete scope (List.mem_of_mem_tail hscope)

/-- The rounds of a counting loop: what they stand for has a scope more if there is an increment. -/
theorem looped {body : Stmt} (h : Level ms r r')
    (hbody : ∀ {ms : List Mark} {r r' : Resolution}, Level ms r r' →
      Level ms (body.resolve r) (body.desugar.resolve r')) (condition increment : Option Expr) :
    Level ms (resolveOptional (body.resolve (resolveOptional r condition)) increment)
      ((looped condition increment body.desugar).resolve r') := by
  simp only [Counting.looped, YouthLang.Stmt.resolve, resolve_tested]
  have hbegun := h.optional condition
  cases increment with
  | none => exact hbody hbegun
  | some e => exact ((hbody hbegun.enter_second).expr e).leave_second

end Level

mutual

/-- Walks over a declaration and over what it stands for stay side by side. -/
theorem Decl.level {ms : List Mark} {r r' : Resolution} (h : Level (.both :: ms) r r') : ∀ d : Decl,
    Level (.both :: ms) (d.resolve r) (d.desugar.resolve r')
  | .declare name none => h.declaration name none
  | .declare name (some value) => h.declaration name (some value)
  | .function (.mk name parameters body) =>
      Function.level (h.declare name) (.mk name parameters body)
  | .youth name methods => by
      have hreceiver : Scope.Complete [(receiver, true)] := fun other => by
        simp only [List.lookup_cons, List.lookup_nil]
        split <;> simp
      have hentered := ((h.declare name).enter hreceiver).inside true rfl
      exact (methodsLevel hentered methods).leave.inside r.inYouth h.inYouth
  | .statement s => s.level h
  | .failed => h

/-- The same for a statement. -/
theorem Stmt.level {ms : List Mark} {r r' : Resolution} (h : Level ms r r') : ∀ s : Stmt,
    Level ms (s.resolve r) (s.desugar.resolve r')
  | .expression value => h.expr value
  | .tell value => h.expr value
  | .give keyword none => by
      simp only [Stmt.resolve, Stmt.desugar, YouthLang.Stmt.resolve, h.inFunction]
      split
      · exact h
      · exact h.report keyword .giveOutside
  | .give keyword (some value) => by
      simp only [Stmt.resolve, Stmt.desugar, YouthLang.Stmt.resolve, h.inFunction]
      split
      · exact h.expr value
      · exact (h.report keyword .giveOutside).expr value
  | .block body => (bodyLevel (h.enter Scope.complete_nil) body).leave
  | .branch condition yes none => yes.level (h.expr condition)
  | .branch condition yes (some no) => no.level (yes.level (h.expr condition))
  | .loop condition body => body.level (h.expr condition)
  | .count none condition increment body => by
      rw [desugar_count]
      exact (h.enter_first.looped (fun h => body.level h) condition increment).leave_first
  | .count (some (.declare name initializer)) condition increment body => by
      rw [desugar_count]
      have hbegun := (h.enter Scope.complete_nil).declaration name initializer
      exact (hbegun.looped (fun h => body.level h) condition increment).leave
  | .count (some (.expression e)) condition increment body => by
      rw [desugar_count]
      have hbegun := (h.enter Scope.complete_nil).expr e
      exact (hbegun.looped (fun h => body.level h) condition increment).leave

/-- The same for a function. -/
theorem Function.level {ms : List Mark} {r r' : Resolution} (h : Level ms r r') : ∀ f : Function,
    Level ms (f.resolve r) (f.desugar.resolve r')
  | .mk _ parameters body => by
      have hentered := ((h.enter Scope.complete_nil).parameters parameters).within true rfl
      exact (bodyLevel hentered body).leave.within r.inFunction h.inFunction

/-- The same for a list of declarations. -/
theorem bodyLevel {ms : List Mark} {r r' : Resolution} (h : Level (.both :: ms) r r') :
    ∀ body : List Decl,
      Level (.both :: ms) (resolveBody r body) (YouthLang.resolveBody r' (desugarBody body))
  | [] => h
  | d :: rest => bodyLevel (d.level h) rest

/-- The same for a list of methods. -/
theorem methodsLevel {ms : List Mark} {r r' : Resolution} (h : Level ms r r') :
    ∀ fs : List Function,
      Level ms (resolveMethods r fs) (YouthLang.resolveMethods r' (desugarMethods fs))
  | [] => h
  | f :: rest => methodsLevel (f.level h) rest

end

end Walk

/-- **A program with counting loops has the mistakes of what it stands for.** -/
theorem diagnostics_resolve (program : List Decl) :
    (resolve program).diagnostics = (YouthLang.resolve (desugarBody program)).diagnostics := by
  have hstart : Level [.both] ⟨[[]], false, false, ∅, []⟩ ⟨[[]], false, false, ∅, []⟩ :=
    ⟨.both [] .nil, rfl, rfl, rfl, List.forall_mem_singleton.mpr Scope.complete_nil⟩
  exact congrArg List.reverse (bodyLevel hstart program).mistakes

/-! ## Both programs settled -/

/-- What is known of a node that a table answers. -/
def Answers (distances : Distances) (v : Visit) : Prop :=
  distances[v.node]? = v.distance? ∧ v.Legible

/-- **Without mistakes both programs are settled**, each in its scopes and with its table. -/
theorem settled_of_clean {first last : Nat} {program : List Decl}
    (hnumbered : Numbered Token.Spelled first last (bodyReferences (desugarBody program)))
    (hformed : YouthLang.BodyFormed Token.Spelled (desugarBody program))
    (hclean : (YouthLang.resolve (desugarBody program)).diagnostics = []) :
    BodySettled (Answers (resolve program).distances) [[]] false (scaffoldBody program)
      ∧ BodySettled (Answers (YouthLang.resolve (desugarBody program)).distances) [[]] false
        (desugarBody program) := by
  have hnumbered' := hnumbered
  rw [← bodyReferences_scaffold] at hnumbered'
  have hclean' := hclean
  rw [← diagnostics_resolve, ← resolve_scaffoldBody] at hclean'
  refine ⟨settled_of_resolve hclean' (bodyFormed_scaffold program hformed) hnumbered'.formed
    hnumbered'.distinct fun v _ hlegible hd => ?_, settled_of_resolve hclean hformed
    hnumbered.formed hnumbered.distinct fun v _ hlegible hd => ⟨hd, hlegible⟩⟩
  rw [resolve_scaffoldBody] at hd
  exact ⟨hd, hlegible⟩

end YouthLang.Counting

import Mathlib.Data.List.Forall2
import Mathlib.Data.List.Nodup
import YouthLang.Analysis
import YouthLang.Proofs.Settled

/-!
# Proofs/Scoping — what the walk over a program finds, told without the walk

A *site* is a place of a program that has to do with names — a use of a name, a declaration, a value
that is given back — together with its surroundings: the scopes around it, each with the names that are
declared in it before the site.  The surroundings are handed down the tree, and what a statement
declares is read off the statement (`Stmt.declarations`), so nothing here depends on the walk of
`Scope`.

* `resolve_scoping` — the walk enters for a use the number of scopes between the site and the innermost
  one around it that declares the name, nothing if there is none, and its mistakes are those of the
  sites, in order.
-/

namespace YouthLang

/-! ## Sites

Each piece of a program lists its sites in the order of the source.  The surroundings of a piece are
computed on the way down and never looked up. -/

/-- The names that a statement declares in the scope it stands in. -/
def Stmt.declarations : Stmt → List Token
  | .declare name _ => [name]
  | .function declaration => [declaration.name]
  | .youth name _ => [name]
  | .branch _ yes none => yes.declarations
  | .branch _ yes (some no) => yes.declarations ++ no.declarations
  | .loop _ body => body.declarations
  | _ => []

/-- What is around a place of a program. -/
structure Enclosure where
  /-- The names that each scope around the place has declared before it, innermost scope first. -/
  scopes : List (List Text)
  /-- The variable in whose initializer the place is. -/
  initialized : Option Text := none
  inFunction : Bool := false
  inYouth : Bool := false

namespace Enclosure

variable (a : Enclosure)

/-- Around a place behind some declarations. -/
def behind (ts : List Token) : Enclosure :=
  { a with scopes := a.scopes.modifyHead (· ++ ts.map Token.lexeme) }

/-- Around a place in one more scope. -/
def inside (names : List Text) : Enclosure := { a with scopes := names :: a.scopes }

/-- The innermost scope around that declares a name is a number of scopes out. -/
def DeclaresAt (d : Nat) (name : Text) : Prop :=
  ∃ names, a.scopes[d]? = some names ∧ name ∈ names
    ∧ ∀ k < d, ∀ nearer, a.scopes[k]? = some nearer → name ∉ nearer

end Enclosure

/-- What has to do with names at a place of a program. -/
inductive Mark where
  | use (reference : Reference)
  | declaration (name : Token)
  | give (keyword : Token)

/-- A place of a program that has to do with names, and what is around it. -/
structure Site where
  mark : Mark
  around : Enclosure

mutual

/-- The uses of names in an expression, in the order of the walk: a value before what it is assigned
to. -/
def Expr.uses : Expr → List Reference
  | .literal _ => []
  | .variable node name => [⟨.read, name, node⟩]
  | .me node keyword => [⟨.receiver, keyword, node⟩]
  | .group inner => inner.uses
  | .unary _ _ operand => operand.uses
  | .binary _ _ left right => left.uses ++ right.uses
  | .logical _ _ left right => left.uses ++ right.uses
  | .assign node name value => value.uses ++ [⟨.write, name, node⟩]
  | .get object _ => object.uses
  | .set object _ value => value.uses ++ object.uses
  | .call callee _ arguments => callee.uses ++ argumentUses arguments

/-- The uses of names in a list of expressions. -/
def argumentUses : List Expr → List Reference
  | [] => []
  | e :: rest => e.uses ++ argumentUses rest

end

/-- The sites of an expression, which are all in the same surroundings. -/
def Expr.sites (a : Enclosure) (e : Expr) : List Site := e.uses.map fun ref => ⟨.use ref, a⟩

/-- The sites of parameters, which are declared one after the other. -/
def parameterSites (a : Enclosure) : List Token → List Site
  | [] => []
  | p :: ps => ⟨.declaration p, a⟩ :: parameterSites (a.behind [p]) ps

mutual

/-- The sites of a statement. -/
def Stmt.sites (a : Enclosure) : Stmt → List Site
  | .failed => []
  | .expression value => value.sites a
  | .tell value => value.sites a
  | .declare name none => [⟨.declaration name, a⟩]
  | .declare name (some value) =>
    ⟨.declaration name, a⟩ :: value.sites { a.behind [name] with initialized := some name.lexeme }
  | .give keyword none => [⟨.give keyword, a⟩]
  | .give keyword (some value) => ⟨.give keyword, a⟩ :: value.sites a
  | .block body => bodySites (a.inside []) body
  | .branch condition yes none => condition.sites a ++ yes.sites a
  | .branch condition yes (some no) =>
    condition.sites a ++ yes.sites a ++ no.sites (a.behind yes.declarations)
  | .loop condition body => condition.sites a ++ body.sites a
  | .function declaration =>
    ⟨.declaration declaration.name, a⟩ :: declaration.sites (a.behind [declaration.name])
  | .youth name methods =>
    ⟨.declaration name, a⟩
      :: methodSites { (a.behind [name]).inside [receiver] with inYouth := true } methods

/-- The sites of a function: its parameters and its body are in one scope. -/
def Function.sites (a : Enclosure) : Function → List Site
  | .mk _ parameters body =>
    parameterSites (a.inside []) parameters
      ++ bodySites { (a.inside []).behind parameters with inFunction := true } body

/-- The sites of a list of statements: each is behind what those before it declare. -/
def bodySites (a : Enclosure) : List Stmt → List Site
  | [] => []
  | s :: rest => s.sites a ++ bodySites (a.behind s.declarations) rest

/-- The sites of a list of methods, whose names belong to no scope. -/
def methodSites (a : Enclosure) : List Function → List Site
  | [] => []
  | m :: rest => m.sites a ++ methodSites a rest

end

/-- The sites of a program, in the order of the walk. -/
def sitesOf (statements : List Stmt) : List Site := bodySites { scopes := [[]] } statements

/-! ## What a site has to do with the walk

What a site enters into the table and what it reports are told by its surroundings. -/

namespace Site

variable (v : Site)

/-- The use of a name at a site. -/
def reference? : Option Reference :=
  match v.mark with
  | .use ref => some ref
  | _ => none

/-- The number of the node at a site. -/
def node? : Option Nat := v.reference?.map Reference.node

/-- The site uses a name that is declared a number of scopes out; outside of every youth there is no
receiver to use. -/
def Refers (d : Nat) : Prop :=
  ∃ ref, v.reference? = some ref ∧ (ref.use = .receiver → v.around.inYouth)
    ∧ v.around.DeclaresAt d ref.token.lexeme

/-- The mistake at a token of a site. -/
def mistake (t : Token) (cause : ScopeCause) : Diagnostic :=
  { cause := .resolution cause, line := t.place.line, column := t.place.column, lexeme := t.lexeme }

/-- The mistake that a site is: a name declared twice in one scope, a variable read in its own
initializer, a value given back outside of every function, the receiver outside of every youth. -/
def mistake? : Option Diagnostic :=
  match v.mark with
  | .declaration name =>
    if (v.around.scopes.headD []).contains name.lexeme then some (mistake name .duplicate) else none
  | .use ⟨.read, name, _⟩ =>
    if v.around.initialized = some name.lexeme then some (mistake name .ownInitializer) else none
  | .use ⟨.write, _, _⟩ => none
  | .use ⟨.receiver, keyword, _⟩ =>
    if v.around.inYouth then none else some (mistake keyword .meOutside)
  | .give keyword => if v.around.inFunction then none else some (mistake keyword .giveOutside)

/-- The number of scopes that the use at a site refers out. -/
def distance? : Option Nat :=
  v.reference?.bind fun ref =>
    if ref.use = .receiver ∧ v.around.inYouth = false then none
    else v.around.scopes.findIdx? fun names => names.contains ref.token.lexeme

/-- The distances with the site entered. -/
def enter (distances : Distances) : Distances :=
  match v.node?, v.distance? with
  | some n, some d => distances.insert n d
  | _, _ => distances

end Site

/-- The innermost scope that declares a name is found by looking from inside out. -/
theorem Enclosure.declaresAt_iff (a : Enclosure) (d : Nat) (name : Text) :
    a.DeclaresAt d name ↔ (a.scopes.findIdx? fun names => names.contains name) = some d := by
  rw [List.findIdx?_eq_some_iff_getElem]
  constructor
  · rintro ⟨names, hnames, hname, hnearer⟩
    obtain ⟨hlt, rfl⟩ := List.getElem?_eq_some_iff.mp hnames
    refine ⟨hlt, by simpa using hname, fun k hk => ?_⟩
    simpa using hnearer k hk _ (List.getElem?_eq_getElem (Nat.lt_trans hk hlt))
  · rintro ⟨hlt, hname, hnearer⟩
    refine ⟨_, List.getElem?_eq_getElem hlt, by simpa using hname, fun k hk nearer hnames => ?_⟩
    obtain ⟨hlt, rfl⟩ := List.getElem?_eq_some_iff.mp hnames
    simpa using hnearer k hk

/-- A site refers to the scope at a distance when that is the nearest one with its name. -/
theorem Site.refers_iff (v : Site) (d : Nat) : v.Refers d ↔ v.distance? = some d := by
  simp only [Site.Refers, Site.distance?, Option.bind_eq_some_iff, Enclosure.declaresAt_iff]
  refine exists_congr fun ref => and_congr_right fun _ => ?_
  split
  · next hstray => simp [hstray]
  · next hnot => simp_all

/-! ## Where a walk stands

A walk that stands in the surroundings of a piece has their scopes, each with the names declared
before the piece, and their marks for functions and classes. -/

/-- A scope has declared just these names. -/
def Scope.Has (scope : Scope) (names : List Text) : Prop :=
  ∀ name, (scope.lookup name).isSome ↔ name ∈ names

/-- A name noted in a scope is one more among those that stand in it. -/
theorem Scope.Has.note {scope : Scope} {names : List Text} (h : scope.Has names) (name : Text)
    (complete : Bool) : Scope.Has ((name, complete) :: scope) (names ++ [name]) := by
  intro other
  by_cases he : other = name
  · simp [he]
  · have hne : (other == name) = false := by simpa using he
    simpa [List.lookup_cons, hne, he] using h other

/-- Around a statement: in some scope, and in no initializer. -/
structure Enclosure.AroundStatement (a : Enclosure) : Prop where
  scopes : a.scopes ≠ []
  initialized : a.initialized = none

namespace Enclosure

variable {a : Enclosure}

/-- Nothing declared changes nothing. -/
@[simp] theorem behind_nil : a.behind [] = a := by
  have hid : (fun names : List Text => names ++ ([] : List Token).map Token.lexeme) = id :=
    funext fun names => by simp
  rw [behind, hid, List.modifyHead_id]
  rfl

/-- Declarations one after the other are those of both together. -/
@[simp] theorem behind_behind (ts us : List Token) :
    (a.behind ts).behind us = a.behind (ts ++ us) := by
  simp [behind, List.modifyHead_modifyHead, Function.comp_def]

/-- Declarations go to the innermost scope alone. -/
@[simp] theorem tail_scopes_behind (ts : List Token) : (a.behind ts).scopes.tail = a.scopes.tail := by
  simp [behind]

namespace AroundStatement

/-- Behind a statement stands the next one. -/
theorem behind (h : a.AroundStatement) (ts : List Token) : (a.behind ts).AroundStatement where
  scopes := by simpa [Enclosure.behind] using h.scopes
  initialized := h.initialized

/-- In a new scope stand statements again. -/
theorem inside (h : a.AroundStatement) (names : List Text) : (a.inside names).AroundStatement where
  scopes := List.cons_ne_nil _ _
  initialized := h.initialized

/-- Whether a function is around them has no part in it. -/
theorem withFunction (h : a.AroundStatement) (b : Bool) :
    AroundStatement { a with inFunction := b } := ⟨h.scopes, h.initialized⟩

/-- Nor has whether a class is. -/
theorem withYouth (h : a.AroundStatement) (b : Bool) :
    AroundStatement { a with inYouth := b } := ⟨h.scopes, h.initialized⟩

end AroundStatement

end Enclosure

/-- A walk stands in some surroundings: its scopes have just the names declared so far, and no
declaration is under way but that of the variable whose initializer it is in. -/
structure Resolution.StandsIn (r : Resolution) (a : Enclosure) : Prop where
  scopes : List.Forall₂ Scope.Has r.scopes a.scopes
  complete : ∀ scope ∈ r.scopes.tail, Scope.Complete scope
  initialized : ∀ name, r.innermost.lookup name = some false ↔ a.initialized = some name
  inFunction : r.inFunction = a.inFunction
  inYouth : r.inYouth = a.inYouth

/-- A walk has gone through some sites. -/
structure Resolution.Passes (r : Resolution) (vs : List Site) (r' : Resolution) : Prop where
  distances : r'.distances = vs.foldl (fun distances v => v.enter distances) r.distances
  mistakes : r'.mistakes = (vs.filterMap Site.mistake?).reverse ++ r.mistakes

namespace Resolution

variable {r r' r'' : Resolution} {a b : Enclosure} {vs ws : List Site}

namespace Passes

/-- A walk through no site changes neither the table nor the mistakes. -/
theorem nil (hd : r'.distances = r.distances) (hm : r'.mistakes = r.mistakes) :
    r.Passes [] r' := ⟨hd, hm⟩

/-- Walks follow one another, and so do their sites. -/
theorem append (h : r.Passes vs r') (h' : r'.Passes ws r'') : r.Passes (vs ++ ws) r'' where
  distances := by rw [List.foldl_append, ← h.distances, h'.distances]
  mistakes := by
    rw [List.filterMap_append, List.reverse_append, List.append_assoc, ← h.mistakes, h'.mistakes]

/-- One site may be told before the rest. -/
theorem cons {v : Site} (h : r.Passes [v] r') (h' : r'.Passes vs r'') : r.Passes (v :: vs) r'' :=
  h.append h'

/-- Only the scopes and the flags are changed before the sites and behind them. -/
theorem between {q q' : Resolution} (h : r.Passes vs r') (hd : r.distances = q.distances)
    (hm : r.mistakes = q.mistakes) (hd' : q'.distances = r'.distances)
    (hm' : q'.mistakes = r'.mistakes) : q.Passes vs q' :=
  ⟨by rw [hd', h.distances, hd], by rw [hm', h.mistakes, hm]⟩

end Passes

namespace StandsIn

section

variable (h : r.StandsIn a)

include h

/-- A walk that has gone on in the same scopes. -/
theorem of_setting (hs : r'.scopes = r.scopes) (hf : r'.inFunction = r.inFunction)
    (hy : r'.inYouth = r.inYouth) : r'.StandsIn a where
  scopes := hs ▸ h.scopes
  complete := hs ▸ h.complete
  initialized := by
    have hi : r'.innermost = r.innermost := congrArg (List.headD · []) hs
    exact hi ▸ h.initialized
  inFunction := hf.trans h.inFunction
  inYouth := hy.trans h.inYouth

/-- An expression leaves the walk in the place where it was. -/
theorem expr (e : Expr) : (e.resolve r).StandsIn a :=
  h.of_setting (e.resolve_setting r).1 (e.resolve_setting r).2.1 (e.resolve_setting r).2.2

/-- What the walk finds for a name is the nearest scope of the place that has it. -/
theorem distance? (name : Text) :
    r.distance? name = a.scopes.findIdx? fun names => names.contains name := by
  have key : ∀ {scopes : List Scope} {named : List (List Text)},
      List.Forall₂ Scope.Has scopes named →
      (scopes.findIdx? fun scope => (scope.lookup name).isSome)
        = named.findIdx? fun names => names.contains name := by
    intro scopes named hs
    induction hs with
    | nil => rfl
    | @cons scope names _ _ hhead _ ih =>
      have hb : (scope.lookup name).isSome = names.contains name :=
        Bool.eq_iff_iff.mpr ((hhead name).trans List.contains_iff_mem.symm)
      simp only [List.findIdx?_cons, hb, ih]
  exact key h.scopes

/-- The innermost scope has the names that the innermost scope around has. -/
theorem isSome_innermost (name : Text) :
    (r.innermost.lookup name).isSome ↔ name ∈ a.scopes.headD [] := by
  have key : ∀ {scopes : List Scope} {named : List (List Text)},
      List.Forall₂ Scope.Has scopes named →
      (((scopes.headD []).lookup name).isSome ↔ name ∈ named.headD []) := by
    intro scopes named hs
    cases hs with
    | nil => simp
    | cons hhead _ => exact hhead name
  exact key h.scopes

omit h in
/-- Around a statement, a walk stands where every declaration is complete. -/
theorem of_complete (hs : List.Forall₂ Scope.Has r.scopes a.scopes)
    (hc : ∀ scope ∈ r.scopes, Scope.Complete scope) (hnone : a.initialized = none)
    (hf : r.inFunction = a.inFunction) (hy : r.inYouth = a.inYouth) : r.StandsIn a where
  scopes := hs
  complete scope hmem := hc scope (List.mem_of_mem_tail hmem)
  initialized name := by
    rw [hnone, Resolution.innermost]
    cases hr : r.scopes with
    | nil => simp
    | cons scope outer => simpa using hc scope (hr ▸ List.mem_cons_self) name
  inFunction := hf
  inYouth := hy

/-- The mark for a function is set on both at once. -/
theorem withFunction (b : Bool) :
    StandsIn { r with inFunction := b } { a with inFunction := b } :=
  ⟨h.scopes, h.complete, h.initialized, rfl, h.inYouth⟩

/-- So is the mark for a class. -/
theorem withYouth (b : Bool) : StandsIn { r with inYouth := b } { a with inYouth := b } :=
  ⟨h.scopes, h.complete, h.initialized, h.inFunction, rfl⟩

/-- Around a statement every declaration is complete. -/
theorem forall_complete (hnone : a.initialized = none) : ∀ scope ∈ r.scopes, scope.Complete := by
  have hhead : r.innermost.Complete := fun name hl => by simp [hnone, h.initialized name] at hl
  have htail := h.complete
  rw [Resolution.innermost] at hhead
  cases hr : r.scopes with
  | nil => simp
  | cons scope outer =>
    rw [hr] at hhead htail
    exact List.forall_mem_cons.mpr ⟨hhead, htail⟩

/-- A declaration that has begun. -/
theorem declare (ha : a.AroundStatement) (t : Token) :
    (r.declare t).StandsIn { a.behind [t] with initialized := some t.lexeme } := by
  obtain ⟨scopes, initialized, inFunction, inYouth⟩ := a
  obtain ⟨hscopes, rfl⟩ : scopes ≠ [] ∧ initialized = none := ⟨ha.scopes, ha.initialized⟩
  obtain ⟨hs, hc, hi, hf, hy⟩ := h
  cases scopes with
  | nil => exact absurd rfl hscopes
  | cons names outer =>
    obtain ⟨scope, rest, hhead, htail, hr⟩ := List.forall₂_cons_right_iff.mp hs
    refine ⟨?_, ?_, ?_, (r.inFunction_declare t).trans hf, (r.inYouth_declare t).trans hy⟩
    · simp only [scopes_declare, hr, noted]
      exact .cons (hhead.note _ _) htail
    · simpa [hr, noted] using hc
    · intro name
      simp only [Resolution.innermost, scopes_declare, hr, noted, List.headD_cons]
      by_cases he : name = t.lexeme
      · simp [he]
      · have hne : (name == t.lexeme) = false := by simpa using he
        have hold := hi name
        simp only [Resolution.innermost, hr, List.headD_cons] at hold
        simp [List.lookup_cons, hne, hold, Ne.symm he]

omit h in
/-- A declaration that is completed. -/
theorem define (ha : a.AroundStatement) (t : Token)
    (h : r.StandsIn { a.behind [t] with initialized := some t.lexeme }) :
    (r.define t).StandsIn (a.behind [t]) := by
  obtain ⟨scopes, initialized, inFunction, inYouth⟩ := a
  obtain ⟨hscopes, rfl⟩ : scopes ≠ [] ∧ initialized = none := ⟨ha.scopes, ha.initialized⟩
  obtain ⟨hs, hc, hi, hf, hy⟩ := h
  cases scopes with
  | nil => exact absurd rfl hscopes
  | cons names outer =>
    obtain ⟨scope, rest, hhead, htail, hr⟩ := List.forall₂_cons_right_iff.mp hs
    have hhas : Scope.Has ((t.lexeme, true) :: scope) (names ++ [t.lexeme]) := fun name => by
      simpa using (hhead.note t.lexeme true) name
    have hcomplete : Scope.Complete ((t.lexeme, true) :: scope) := fun name => by
      by_cases he : name = t.lexeme
      · simp [he]
      · have hne : (name == t.lexeme) = false := by simpa using he
        have hold := hi name
        simp only [Resolution.innermost, hr, List.headD_cons] at hold
        simp [List.lookup_cons, hne, hold, Ne.symm he]
    refine of_complete ?_ ?_ rfl ((r.inFunction_define t).trans hf) ((r.inYouth_define t).trans hy)
    · simp only [scopes_define, hr, noted]
      exact .cons hhas htail
    · rw [hr] at hc
      simpa [hr, noted] using ⟨hcomplete, hc⟩

/-- A name declared at once. -/
theorem declared (ha : a.AroundStatement) (t : Token) :
    ((r.declare t).define t).StandsIn (a.behind [t]) := (h.declare ha t).define ha t

/-- A walk that has entered a scope. -/
theorem enter (ha : a.AroundStatement) {scope : Scope} {names : List Text} (hs : scope.Has names)
    (hc : scope.Complete) : (r.enter scope).StandsIn (a.inside names) :=
  of_complete (.cons hs h.scopes)
    (List.forall_mem_cons.mpr ⟨hc, h.forall_complete ha.initialized⟩) ha.initialized h.inFunction
    h.inYouth

/-- The scope of a receiver has that one name, complete from the start. -/
theorem enter_receiver (ha : a.AroundStatement) :
    (r.enter [(receiver, true)]).StandsIn (a.inside [receiver]) := by
  have hnew : Scope.Complete [(receiver, true)] := fun name => by
    simp only [List.lookup_cons, List.lookup_nil]
    split <;> simp
  refine h.enter ha (fun name => ?_) hnew
  by_cases he : name = receiver
  · simp [he]
  · have hne : (name == receiver) = false := by simpa using he
    simp [List.lookup_cons, hne, he]

/-- A value that is given back changes nothing around it. -/
theorem give (t : Token) :
    (if r.inFunction then r else r.report t .giveOutside).StandsIn a := by
  split
  · exact h
  · exact h.of_setting rfl rfl rfl

/-- A new scope has no names. -/
theorem enter_empty (ha : a.AroundStatement) : (r.enter []).StandsIn (a.inside []) :=
  h.enter ha (fun name => by simp) fun name => by simp

omit h in
/-- A walk that comes back out of a scope. -/
theorem leave (ha : a.AroundStatement) (h : r.StandsIn b) (hb : b.scopes.tail = a.scopes)
    (hs : r'.scopes = r.scopes.tail) (hf : r'.inFunction = a.inFunction)
    (hy : r'.inYouth = a.inYouth) : r'.StandsIn a := by
  refine of_complete ?_ (hs ▸ h.complete) ha.initialized hf hy
  rw [hs, ← hb]
  have key : ∀ {scopes : List Scope} {named : List (List Text)},
      List.Forall₂ Scope.Has scopes named → List.Forall₂ Scope.Has scopes.tail named.tail := by
    intro scopes named hs
    cases hs with
    | nil => exact .nil
    | cons _ htail => exact htail
  exact key h.scopes

end

end StandsIn

/-! ## What a walk goes through

From a place where it stands, the walk over a piece enters and reports what the sites of the piece
say.  The proof is by recursion on the piece, one case for each constructor. -/

namespace Passes

/-- A use of a name that is looked up. -/
theorem use (h : r.StandsIn a) (ref : Reference) (huse : ref.use = .receiver → a.inYouth) :
    (r.resolve ref.node ref.token.lexeme).distances
      = Site.enter ⟨.use ref, a⟩ r.distances := by
  have hd : Site.distance? ⟨.use ref, a⟩ = r.distance? ref.token.lexeme := by
    rw [h.distance?]
    simp only [Site.distance?, Site.reference?, Option.bind_some]
    refine if_neg fun ⟨hreceiver, hyouth⟩ => ?_
    simp [huse hreceiver] at hyouth
  rw [Resolution.resolve, Site.enter, hd]
  simp only [Site.node?, Site.reference?, Option.map_some]
  cases r.distance? ref.token.lexeme <;> rfl

/-- A declaration, as soon as it has begun. -/
theorem declare (h : r.StandsIn a) (t : Token) : r.Passes [⟨.declaration t, a⟩] (r.declare t) where
  distances := by simp [Site.enter, Site.node?, Site.reference?]
  mistakes := by
    have hdup := h.isSome_innermost t.lexeme
    simp only [Resolution.declare, mistakes_note, List.filterMap_cons, List.filterMap_nil,
      Site.mistake?, List.contains_iff_mem, ← hdup]
    split <;> rfl

/-- A name declared and defined at once is one site. -/
theorem declared (h : r.StandsIn a) (t : Token) :
    r.Passes [⟨.declaration t, a⟩] ((r.declare t).define t) :=
  (declare h t).between rfl rfl (by simp) (by simp)

/-- A value that is given back. -/
theorem give (h : r.StandsIn a) (t : Token) :
    r.Passes [⟨.give t, a⟩] (if r.inFunction then r else r.report t .giveOutside) where
  distances := by split <;> simp [Site.enter, Site.node?, Site.reference?]
  mistakes := by
    rw [h.inFunction]
    split <;> simp [Site.mistake?, Site.mistake, Resolution.report, *]

end Passes

end Resolution

variable {a : Enclosure}

mutual

/-- A walk over an expression goes through its sites. -/
theorem Expr.passes {r : Resolution} (h : r.StandsIn a) :
    ∀ e : Expr, r.Passes (e.sites a) (e.resolve r)
  | .literal _ => .nil rfl rfl
  | .variable node name => by
      have hreport : ∀ t cause, (r.report t cause).StandsIn a := fun t cause =>
        h.of_setting rfl rfl rfl
      have hown := h.initialized name.lexeme
      refine ⟨?_, ?_⟩
      · simp only [Expr.resolve]
        split
        · exact Resolution.Passes.use (hreport _ _) ⟨.read, name, node⟩ (by simp)
        · exact Resolution.Passes.use h ⟨.read, name, node⟩ (by simp)
      · simp only [Expr.resolve, Resolution.mistakes_resolve, Expr.sites, Expr.uses, List.map_cons,
          List.map_nil, List.filterMap_cons, List.filterMap_nil, Site.mistake?, ← hown]
        split <;> rfl
  | .me node keyword => by
      have hyouth := h.inYouth
      refine ⟨?_, ?_⟩
      · simp only [Expr.resolve]
        split
        · next hy =>
          exact Resolution.Passes.use h ⟨.receiver, keyword, node⟩ fun _ => hyouth ▸ hy
        · next hy =>
          have ha : a.inYouth = false := by simpa [hyouth] using hy
          simp [Expr.sites, Expr.uses, Site.enter, Site.distance?, Site.reference?, ha]
      · simp only [Expr.resolve, Expr.sites, Expr.uses, List.map_cons, List.map_nil,
          List.filterMap_cons, List.filterMap_nil, Site.mistake?, ← hyouth]
        split <;> simp [Resolution.report, Site.mistake]
  | .group inner => inner.passes h
  | .unary _ _ operand => operand.passes h
  | .binary _ _ left right => by
      rw [Expr.sites, Expr.uses, List.map_append]
      exact (left.passes h).append (right.passes (h.expr left))
  | .logical _ _ left right => by
      rw [Expr.sites, Expr.uses, List.map_append]
      exact (left.passes h).append (right.passes (h.expr left))
  | .assign node name value => by
      rw [Expr.sites, Expr.uses, List.map_append]
      have huse := Resolution.Passes.use (h.expr value) ⟨.write, name, node⟩ (by simp)
      exact (value.passes h).append ⟨huse, by simp [Site.mistake?, Expr.resolve]⟩
  | .get object _ => object.passes h
  | .set object _ value => by
      rw [Expr.sites, Expr.uses, List.map_append]
      exact (value.passes h).append (object.passes (h.expr value))
  | .call callee _ arguments => by
      rw [Expr.sites, Expr.uses, List.map_append]
      exact (callee.passes h).append (argumentsPass (h.expr callee) arguments)

/-- Arguments are uses, from the left. -/
theorem argumentsPass {r : Resolution} (h : r.StandsIn a) : ∀ es : List Expr,
    r.Passes ((argumentUses es).map fun ref => ⟨.use ref, a⟩) (resolveArguments r es)
  | [] => .nil rfl rfl
  | e :: rest => by
      rw [argumentUses, List.map_append]
      exact (e.passes h).append (argumentsPass (h.expr e) rest)

end

/-- A walk over parameters goes through their declarations. -/
theorem parametersPass : ∀ (ps : List Token) {r : Resolution} {a : Enclosure},
    a.AroundStatement → r.StandsIn a →
      r.Passes (parameterSites a ps) (ps.foldl (fun r p => (r.declare p).define p) r)
        ∧ (ps.foldl (fun r p => (r.declare p).define p) r).StandsIn (a.behind ps)
  | [], _, _, _, h => ⟨.nil rfl rfl, by simpa using h⟩
  | p :: ps, r, a, ha, h => by
      obtain ⟨hpasses, hstands⟩ := parametersPass ps (ha.behind [p]) (h.declared ha p)
      exact ⟨(Resolution.Passes.declared h p).cons hpasses, by simpa using hstands⟩

mutual

/-- **A walk over a statement goes through its sites**, and stands behind what the statement declares. -/
theorem Stmt.passes {r : Resolution} {a : Enclosure} (ha : a.AroundStatement) (h : r.StandsIn a) :
    ∀ s : Stmt, r.Passes (s.sites a) (s.resolve r) ∧ (s.resolve r).StandsIn (a.behind s.declarations)
  | .failed => ⟨.nil rfl rfl, by simpa [Stmt.resolve, Stmt.declarations] using h⟩
  | .expression value =>
      ⟨value.passes h, by simpa [Stmt.resolve, Stmt.declarations] using h.expr value⟩
  | .tell value => ⟨value.passes h, by simpa [Stmt.resolve, Stmt.declarations] using h.expr value⟩
  | .declare name none => ⟨.declared h name, h.declared ha name⟩
  -- Three sites in a row: the declaration begins, its value is walked, and it is complete.
  | .declare name (some value) => by
      have hbegun := h.declare ha name
      have hpasses := (Resolution.Passes.declare h name).cons (value.passes hbegun)
      exact ⟨hpasses.between rfl rfl (by simp [Stmt.resolve]) (by simp [Stmt.resolve]),
        (hbegun.expr value).define ha name⟩
  | .give keyword none =>
      ⟨.give h keyword, by simpa [Stmt.resolve, Stmt.declarations] using h.give keyword⟩
  | .give keyword (some value) => by
      have hgive := h.give keyword
      refine ⟨(Resolution.Passes.give h keyword).cons (value.passes hgive), ?_⟩
      simpa [Stmt.resolve, Stmt.declarations] using hgive.expr value
  -- What a block declares is left behind with its scope.
  | .block body => by
      obtain ⟨hpasses, hstands⟩ := bodyPasses (ha.inside []) (h.enter_empty ha) body
      have hleft : (resolveBody (r.enter []) body).leave.StandsIn a :=
        hstands.leave ha (by simp [Enclosure.inside]) rfl hstands.inFunction hstands.inYouth
      refine ⟨hpasses.between rfl rfl rfl rfl, ?_⟩
      simpa [Stmt.resolve, Stmt.declarations] using hleft
  | .branch condition yes none => by
      obtain ⟨hpasses, hstands⟩ := yes.passes ha (h.expr condition)
      exact ⟨(condition.passes h).append hpasses, hstands⟩
  -- A branch that would declare a name would do so for the other one as well.
  | .branch condition yes (some no) => by
      obtain ⟨hyes, hstands⟩ := yes.passes ha (h.expr condition)
      obtain ⟨hno, hstands'⟩ := no.passes (ha.behind _) hstands
      refine ⟨((condition.passes h).append hyes).append hno, ?_⟩
      simpa [Stmt.resolve, Stmt.declarations] using hstands'
  | .loop condition body => by
      obtain ⟨hpasses, hstands⟩ := body.passes ha (h.expr condition)
      exact ⟨(condition.passes h).append hpasses, hstands⟩
  | .function declaration => by
      obtain ⟨hpasses, hstands⟩ :=
        declaration.passes (ha.behind [declaration.name]) (h.declared ha declaration.name)
      exact ⟨(Resolution.Passes.declared h declaration.name).cons hpasses, hstands⟩
  -- Methods are walked in the receiver's scope, and the mark for classes is put back.
  | .youth name methods => by
      have hin := ((h.declared ha name).enter_receiver (ha.behind [name])).withYouth true
      obtain ⟨hpasses, hstands⟩ :=
        methodsPass (((ha.behind [name]).inside [receiver]).withYouth true) hin methods
      refine ⟨(Resolution.Passes.declared h name).cons (hpasses.between rfl rfl rfl rfl), ?_⟩
      exact hstands.leave (ha.behind [name]) rfl rfl hstands.inFunction h.inYouth

/-- A walk over a function comes back to where it stood. -/
theorem Function.passes {r : Resolution} {a : Enclosure} (ha : a.AroundStatement)
    (h : r.StandsIn a) : ∀ f : Function,
      r.Passes (f.sites a) (f.resolve r) ∧ (f.resolve r).StandsIn a
  | .mk _ parameters body => by
      obtain ⟨hps, hstands⟩ := parametersPass parameters (ha.inside []) (h.enter_empty ha)
      obtain ⟨hbody, hstands'⟩ := bodyPasses (((ha.inside []).behind parameters).withFunction true)
        (hstands.withFunction true) body
      refine ⟨(hps.append (hbody.between rfl rfl rfl rfl)).between rfl rfl rfl rfl, ?_⟩
      exact hstands'.leave ha (by simp [Enclosure.inside, Enclosure.behind]) rfl h.inFunction
        hstands'.inYouth

/-- **A body is walked statement by statement**, each behind the declarations of those before it. -/
theorem bodyPasses {r : Resolution} {a : Enclosure} (ha : a.AroundStatement)
    (h : r.StandsIn a) : ∀ body : List Stmt,
      r.Passes (bodySites a body) (resolveBody r body)
        ∧ (resolveBody r body).StandsIn (a.behind (body.flatMap Stmt.declarations))
  | [] => ⟨.nil rfl rfl, by simpa [resolveBody] using h⟩
  | s :: rest => by
      obtain ⟨hs, hstands⟩ := s.passes ha h
      obtain ⟨hrest, hstands'⟩ := bodyPasses (ha.behind _) hstands rest
      exact ⟨hs.append hrest, by simpa [resolveBody] using hstands'⟩

/-- Methods are walked one by one, and none of them declares a name around it. -/
theorem methodsPass {r : Resolution} {a : Enclosure} (ha : a.AroundStatement)
    (h : r.StandsIn a) : ∀ ms : List Function,
      r.Passes (methodSites a ms) (resolveMethods r ms) ∧ (resolveMethods r ms).StandsIn a
  | [] => ⟨.nil rfl rfl, h⟩
  | m :: rest => by
      obtain ⟨hm, hstands⟩ := m.passes ha h
      obtain ⟨hrest, hstands'⟩ := methodsPass ha hstands rest
      exact ⟨hm.append hrest, hstands'⟩

end

/-! ## Every use is a site

The sites are told from the tree by a recursion of their own; that it forgets no use is seen by
comparing it with the list of references. -/

mutual

/-- The uses of an expression are its references, in the order of the walk. -/
theorem Expr.uses_perm : ∀ e : Expr, e.uses.Perm e.references
  | .literal _ => .nil
  | .variable _ _ => .refl _
  | .me _ _ => .refl _
  | .group inner => inner.uses_perm
  | .unary _ _ operand => operand.uses_perm
  | .binary _ _ left right => left.uses_perm.append right.uses_perm
  | .logical _ _ left right => left.uses_perm.append right.uses_perm
  | .assign _ _ value => List.perm_append_comm.trans (value.uses_perm.cons _)
  | .get object _ => object.uses_perm
  | .set object _ value => List.perm_append_comm.trans (object.uses_perm.append value.uses_perm)
  | .call callee _ arguments => callee.uses_perm.append (argumentUses_perm arguments)

/-- The uses in arguments are their references, in another order. -/
theorem argumentUses_perm : ∀ es : List Expr, (argumentUses es).Perm (argumentReferences es)
  | [] => .nil
  | e :: rest => e.uses_perm.append (argumentUses_perm rest)

end

/-- Every reference of an expression is a site, and no site of it is anything else. -/
theorem Expr.references_sites (a : Enclosure) (e : Expr) :
    ((e.sites a).filterMap Site.reference?).Perm e.references := by
  have huses : (e.sites a).filterMap Site.reference? = e.uses := by
    simp [Expr.sites, List.filterMap_map, Function.comp_def, Site.reference?]
  exact huses ▸ e.uses_perm

/-- Parameters are declared, not used. -/
theorem references_parameterSites (a : Enclosure) : ∀ ps : List Token,
    (parameterSites a ps).filterMap Site.reference? = []
  | [] => rfl
  | p :: ps => references_parameterSites (a.behind [p]) ps

mutual

/-- The uses among the sites of a statement are its references. -/
theorem Stmt.references_sites (a : Enclosure) :
    ∀ s : Stmt, ((s.sites a).filterMap Site.reference?).Perm s.references
  | .failed => .nil
  | .expression value => value.references_sites a
  | .tell value => value.references_sites a
  | .declare _ none => .nil
  | .declare _ (some value) => value.references_sites _
  | .give _ none => .nil
  | .give _ (some value) => value.references_sites a
  | .block body => references_bodySites _ body
  | .branch condition yes none => by
      rw [Stmt.sites, List.filterMap_append]
      exact (condition.references_sites a).append (yes.references_sites a)
  | .branch condition yes (some no) => by
      rw [Stmt.sites, List.filterMap_append, List.filterMap_append]
      exact ((condition.references_sites a).append (yes.references_sites a)).append
        (no.references_sites _)
  | .loop condition body => by
      rw [Stmt.sites, List.filterMap_append]
      exact (condition.references_sites a).append (body.references_sites a)
  | .function declaration => declaration.references_sites _
  | .youth _ methods => references_methodSites _ methods

/-- The same for functions. -/
theorem Function.references_sites (a : Enclosure) :
    ∀ f : Function, ((f.sites a).filterMap Site.reference?).Perm f.references
  | .mk _ parameters body => by
      rw [Function.sites, List.filterMap_append, references_parameterSites]
      exact references_bodySites _ body

/-- And for bodies. -/
theorem references_bodySites (a : Enclosure) :
    ∀ body : List Stmt, ((bodySites a body).filterMap Site.reference?).Perm (bodyReferences body)
  | [] => .nil
  | s :: rest => by
      rw [bodySites, List.filterMap_append]
      exact (s.references_sites a).append (references_bodySites _ rest)

/-- And for methods. -/
theorem references_methodSites (a : Enclosure) : ∀ ms : List Function,
    ((methodSites a ms).filterMap Site.reference?).Perm (methodReferences ms)
  | [] => .nil
  | m :: rest => by
      rw [methodSites, List.filterMap_append]
      exact (m.references_sites a).append (references_methodSites a rest)

end

/-! ## The table -/

/-- No site among some enters a node. -/
def SilentOn (n : Nat) (vs : List Site) : Prop :=
  ∀ v ∈ vs, v.node? = some n → ∀ d, ¬ v.Refers d

/-- The last of some sites to enter a node does so with a number of scopes. -/
def LastRefers (n d : Nat) (vs : List Site) : Prop :=
  ∃ before v after, vs = before ++ v :: after ∧ v.node? = some n ∧ v.Refers d ∧ SilentOn n after

/-- The last site that speaks of a node is among the later ones, or the first where those are
silent. -/
theorem lastRefers_cons {n d : Nat} {v : Site} {vs : List Site} :
    LastRefers n d (v :: vs)
      ↔ LastRefers n d vs ∨ (v.node? = some n ∧ v.Refers d ∧ SilentOn n vs) := by
  constructor
  · rintro ⟨before, w, after, heq, hnode, hrefers, hsilent⟩
    cases before with
    | nil =>
      obtain ⟨rfl, rfl⟩ := List.cons.inj heq
      exact .inr ⟨hnode, hrefers, hsilent⟩
    | cons x before =>
      obtain ⟨rfl, rfl⟩ := List.cons.inj heq
      exact .inl ⟨before, w, after, rfl, hnode, hrefers, hsilent⟩
  · rintro (⟨before, w, after, rfl, h⟩ | h)
    · exact ⟨v :: before, w, after, rfl, h⟩
    · exact ⟨[], v, vs, rfl, h⟩

/-- What a site leaves in the table. -/
theorem Site.getElem?_enter (v : Site) (distances : Distances) (n d : Nat) :
    (v.enter distances)[n]? = some d ↔ (v.node? = some n ∧ v.Refers d)
      ∨ (SilentOn n [v] ∧ distances[n]? = some d) := by
  have hsilent : SilentOn n [v] ↔ (v.node? = some n → v.distance? = none) := by
    simp [SilentOn, Site.refers_iff, Option.eq_none_iff_forall_ne_some]
  rw [hsilent, Site.refers_iff, Site.enter]
  cases hn : v.node? with
  | none => simp
  | some k =>
    cases hd : v.distance? with
    | none => simp
    | some c =>
      by_cases hk : k = n <;> simp [Std.HashMap.getElem?_insert, hk]

/-- **The table has for a node what the last site of the node entered.** -/
theorem getElem?_foldl_enter (n d : Nat) : ∀ (vs : List Site) (distances : Distances),
    (vs.foldl (fun distances v => v.enter distances) distances)[n]? = some d
      ↔ LastRefers n d vs ∨ (SilentOn n vs ∧ distances[n]? = some d)
  | [], distances => by simp [LastRefers, SilentOn]
  | v :: vs, distances => by
      have hcons : SilentOn n (v :: vs) ↔ SilentOn n [v] ∧ SilentOn n vs := by
        simp [SilentOn]
      rw [List.foldl_cons, getElem?_foldl_enter n d vs, v.getElem?_enter, lastRefers_cons, hcons]
      tauto

/-- Either no site speaks of a node or one is the last that does. -/
theorem silentOn_or_lastRefers (n : Nat) :
    ∀ vs : List Site, SilentOn n vs ∨ ∃ d, LastRefers n d vs
  | [] => .inl fun v hv => absurd hv (by simp)
  | v :: vs => by
      rcases silentOn_or_lastRefers n vs with hsilent | ⟨d, hlast⟩
      · by_cases hv : ∃ d, v.node? = some n ∧ v.Refers d
        · obtain ⟨d, hnode, hrefers⟩ := hv
          exact .inr ⟨d, lastRefers_cons.mpr (.inr ⟨hnode, hrefers, hsilent⟩)⟩
        · refine .inl (List.forall_mem_cons.mpr ⟨fun hnode d hd => hv ⟨d, hnode, hd⟩, hsilent⟩)
      · exact .inr ⟨d, lastRefers_cons.mpr (.inl hlast)⟩

/-- Where each node is at one site, the last site of a node is the only one. -/
theorem lastRefers_iff {n : Nat} {v : Site} {vs : List Site} (hnodes : (vs.filterMap Site.node?).Nodup)
    (hv : v ∈ vs) (hnode : v.node? = some n) (d : Nat) : LastRefers n d vs ↔ v.Refers d := by
  have honly : ∀ w ∈ vs, w.node? = some n → w = v := by
    obtain ⟨before, after, rfl⟩ := List.append_of_mem hv
    rw [List.filterMap_append, List.filterMap_cons_some hnode, List.nodup_middle, List.nodup_cons,
      ← List.filterMap_append] at hnodes
    intro w hw hwnode
    rcases List.mem_append.mp hw with hw | hw
    · exact absurd (List.mem_filterMap.mpr ⟨w, List.mem_append_left _ hw, hwnode⟩) hnodes.1
    · rcases List.mem_cons.mp hw with rfl | hw
      · rfl
      · exact absurd (List.mem_filterMap.mpr ⟨w, List.mem_append_right _ hw, hwnode⟩) hnodes.1
  constructor
  · rintro ⟨before, w, after, rfl, hwnode, hrefers, -⟩
    exact honly w (by simp) hwnode ▸ hrefers
  · intro hrefers
    rcases silentOn_or_lastRefers n vs with hsilent | ⟨k, hlast⟩
    · exact absurd hrefers (hsilent v hv hnode d)
    · obtain ⟨before, w, after, rfl, hwnode, hk, -⟩ := id hlast
      rw [honly w (by simp) hwnode, Site.refers_iff] at hk
      rw [Site.refers_iff, hk] at hrefers
      exact Option.some.inj hrefers ▸ hlast

/-- **The walk finds what the sites tell.**  The sites use just the nodes of the program; the table has
for a node the number of scopes that its site refers out, nothing if the site refers to no scope (of
sites that share a node, the last one that refers to a scope counts); and the mistakes are those of the
sites, in order. -/
theorem resolve_scoping (statements : List Stmt) :
    ((sitesOf statements).filterMap Site.reference?).Perm (bodyReferences statements)
    ∧ (((bodyReferences statements).map Reference.node).Nodup →
        ∀ v ∈ sitesOf statements, ∀ n, v.node? = some n →
          ∀ d, (resolve statements).distances[n]? = some d ↔ v.Refers d)
    ∧ (∀ n d, (resolve statements).distances[n]? = some d ↔ LastRefers n d (sitesOf statements))
    ∧ (resolve statements).diagnostics = (sitesOf statements).filterMap Site.mistake? := by
  have hstart : Resolution.StandsIn ⟨[[]], false, false, ∅, []⟩ { scopes := [[]] } :=
    .of_complete (.cons (fun name => by simp) .nil) (by simp [Scope.Complete]) rfl rfl rfl
  obtain ⟨⟨hdistances, hmistakes⟩, -⟩ := bodyPasses ⟨by simp, rfl⟩ hstart statements
  have hperm := references_bodySites { scopes := [[]] } statements
  have htable : ∀ n d,
      (resolve statements).distances[n]? = some d ↔ LastRefers n d (sitesOf statements) := by
    intro n d
    have hlast := getElem?_foldl_enter n d (sitesOf statements) ∅
    simp only [Std.HashMap.getElem?_empty, reduceCtorEq, and_false, or_false] at hlast
    rw [← hlast, resolve, hdistances]
    rfl
  refine ⟨hperm, fun hnodes v hv n hnode d => ?_, htable, ?_⟩
  · have hsites : ((sitesOf statements).filterMap Site.node?).Nodup := by
      have hmap := (hperm.map Reference.node).nodup_iff.mpr hnodes
      rwa [List.map_filterMap] at hmap
    rw [htable]
    exact lastRefers_iff hsites hv hnode d
  · simp [resolve, hmistakes, sitesOf]

/-- A parsed program uses each node at one site: a variable is read in a block and in its own
initializer there. -/
theorem resolve_scoping_nodes :
    let statements := (analyse 0 [] "is a; ( is b = a; is c = c; )").statements
    ((bodyReferences statements).map Reference.node).Nodup
      ∧ ∀ v ∈ sitesOf statements, ∀ n, v.node? = some n →
        ∀ d, (resolve statements).distances[n]? = some d ↔ v.Refers d := by
  intro statements
  have hnodes : ((bodyReferences statements).map Reference.node).Nodup := by decide +kernel
  exact ⟨hnodes, (resolve_scoping statements).2.1 hnodes⟩

/-- A variable is declared a second time, and read in its own initializer there. -/
example : ((sitesOf (analyse 0 [] "is a; ( is b; is b = a + b; )").statements).filterMap
    Site.mistake?).map Diagnostic.cause
      = [.resolution .duplicate, .resolution .ownInitializer] := by decide +kernel

end YouthLang

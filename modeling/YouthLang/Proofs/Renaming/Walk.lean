import YouthLang.Proofs.Renaming

/-!
# Proofs/Renaming/Walk — the walk over a renamed program

The walk over a program and the walk over the same with a variable renamed open the same scopes but for
the names in that of the variable.  A name leads as many scopes out as before: the new name is declared
nowhere else, and the old one is not asked for where it has been replaced
(`findIdx?_respellScopes`).  So the second walk finds no mistake either and enters the same distances
(`resolve_renameVariable`).
-/

namespace YouthLang

/-! ## The walk over a renamed program -/

section Scopes

variable {R : Renaming}

/-- The scopes of a walk as they are after a renaming. -/
def respellScopes (R : Renaming) (marks : List Bool) (scopes : List Scope) : List Scope :=
  List.zipWith (fun here scope => respell (R.spell here) scope) marks scopes

/-- A scope declares a name as it did before the renaming, or it does not declare it at all: it may
be asked for the name of the variable by a use of another one. -/
theorem lookup_spell {scope : Scope} (hunused : scope.lookup R.name = none) {name : Text}
    (hne : name ≠ R.name) (here there : Bool) :
    (respell (R.spell here) scope).lookup (R.spell there name) = scope.lookup name
      ∨ (respell (R.spell here) scope).lookup (R.spell there name) = none := by
  by_cases heq : here = there
  · rw [heq, lookup_respell]
    exact .inl rfl
  · by_cases hold : name = R.token.lexeme
    · have hnew : R.spell there name = R.spell here R.name := by
        cases here <;> cases there <;> simp_all [Renaming.spell]
      rw [hnew, lookup_respell]
      exact .inr hunused
    · rw [Renaming.spell_of_ne hold hne, ← @Renaming.spell_of_ne R here name hold hne, lookup_respell,
        Renaming.spell_of_ne hold hne]
      exact .inl rfl

/-- A name leads as many scopes out as before. -/
theorem findIdx?_respellScopes {name : Text} (hne : name ≠ R.name) {here : Bool} :
    ∀ {marks : List Bool} {scopes : List Scope}, marks.length = scopes.length →
      (∀ scope ∈ scopes, scope.lookup R.name = none) →
      here = (scopes.findIdx? fun scope => (scope.lookup name).isSome).any (marks.getD · false) →
      (respellScopes R marks scopes).findIdx? (fun scope => (scope.lookup (R.spell here name)).isSome)
        = scopes.findIdx? fun scope => (scope.lookup name).isSome
  | [], [], _, _, _ => rfl
  | mark :: marks, scope :: scopes, hlength, hunused, hhere => by
      obtain ⟨hscope, hscopes⟩ := List.forall_mem_cons.mp hunused
      simp only [respellScopes, List.zipWith_cons_cons, List.findIdx?_cons] at hhere ⊢
      cases hfound : (scope.lookup name).isSome with
      | true =>
        obtain rfl : here = mark := by simpa [hfound] using hhere
        rw [lookup_respell, hfound]
        rfl
      | false =>
        have hnone : scope.lookup name = none := by simpa using hfound
        have hnone' : (respell (R.spell mark) scope).lookup (R.spell here name) = none := by
          obtain h | h := lookup_spell hscope hne mark here
          · rw [h, hnone]
          · exact h
        rw [hnone']
        rw [hfound] at hhere
        refine congrArg (Option.map (· + 1)) (findIdx?_respellScopes hne
          (Nat.succ.inj hlength) hscopes (hhere.trans ?_))
        cases scopes.findIdx? fun scope => (scope.lookup name).isSome <;> rfl

theorem noted_respellScopes (marks : List Bool) (scopes : List Scope) (name : Text) (b : Bool)
    (hlength : marks.length = scopes.length) :
    noted (R.spell (marks.headD false) name) b (respellScopes R marks scopes)
      = respellScopes R marks (noted name b scopes) := by
  cases scopes with
  | nil =>
    obtain rfl := List.length_eq_zero_iff.mp hlength
    rfl
  | cons scope outer =>
    obtain ⟨mark, marks, rfl⟩ := List.exists_cons_of_length_eq_add_one hlength
    rfl

end Scopes

/-- A name that is new to its scope is declared without a mistake. -/
theorem Resolution.declare_of_new {r : Resolution} {t : Token}
    (h : r.innermost.lookup t.lexeme = none) : r.declare t = r.note t.lexeme false := by
  rw [declare, if_neg (by simp [h])]

/-- Two walks without mistakes, over a program and the same with a variable renamed. -/
structure Resolution.Renamed (R : Renaming) (marks : List Bool) (r r' : Resolution) : Prop where
  length : marks.length = r.scopes.length
  scopes : r'.scopes = respellScopes R marks r.scopes
  unused : ∀ scope ∈ r.scopes, scope.lookup R.name = none
  inFunction : r'.inFunction = r.inFunction
  inYouth : r'.inYouth = r.inYouth
  distances : r'.distances = r.distances
  clean : r'.mistakes = []

/-- A visit that the table answers, of a node with another name than the new one. -/
def Renaming.Answers (R : Renaming) (D : Distances) (v : Visit) : Prop :=
  v.name ≠ R.name ∧ D[v.node]? = v.distance?

namespace Resolution.Renamed

variable {R : Renaming} {marks : List Bool} {r r' : Resolution} (hr : r.Renamed R marks r')

include hr

theorem innermost : r'.innermost = respell (R.spell (marks.headD false)) r.innermost := by
  obtain ⟨hlength, hscopes, -⟩ := hr
  rw [Resolution.innermost, hscopes, Resolution.innermost]
  generalize r.scopes = scopes at hlength
  cases scopes with
  | nil =>
    obtain rfl := List.length_eq_zero_iff.mp hlength
    rfl
  | cons scope outer =>
    obtain ⟨mark, marks, rfl⟩ := List.exists_cons_of_length_eq_add_one hlength
    rfl

theorem unused_innermost : r.innermost.lookup R.name = none := by
  unfold Resolution.innermost
  cases h : r.scopes with
  | nil => rfl
  | cons scope outer => exact hr.unused scope (h ▸ List.mem_cons_self)

theorem note {name : Text} (hne : name ≠ R.name) (b : Bool) :
    (r.note name b).Renamed R marks (r'.note (R.spell (marks.headD false) name) b) where
  length := by
    rw [scopes_note, hr.length]
    cases r.scopes <;> rfl
  scopes := by rw [scopes_note, scopes_note, hr.scopes, noted_respellScopes _ _ _ _ hr.length]
  unused scope hscope := by
    rw [scopes_note] at hscope
    have hunused := hr.unused
    cases hs : r.scopes with
    | nil => simp [hs, noted] at hscope
    | cons inner outer =>
      simp only [hs, noted, List.mem_cons] at hscope hunused
      obtain rfl | hscope := hscope
      · have hb : (R.name == name) = false := by simpa using hne.symm
        simpa [List.lookup_cons, hb] using hunused inner (.inl rfl)
      · exact hunused scope (.inr hscope)
  inFunction := by rw [inFunction_note, inFunction_note, hr.inFunction]
  inYouth := by rw [inYouth_note, inYouth_note, hr.inYouth]
  distances := by rw [distances_note, distances_note, hr.distances]
  clean := by rw [mistakes_note, hr.clean]

theorem define {t t' : Token} (ht : R.Respells (marks.headD false) t t') (hne : t.lexeme ≠ R.name) :
    (r.define t).Renamed R marks (r'.define t') := by
  rw [Resolution.define, Resolution.define, ht.lexeme]
  exact hr.note hne true

theorem declare {t t' : Token} (ht : R.Respells (marks.headD false) t t') (hne : t.lexeme ≠ R.name)
    (hclean : (r.declare t).mistakes = []) : (r.declare t).Renamed R marks (r'.declare t') := by
  have hnew := ((r.mistakes_declare_eq_nil t).mp hclean).2
  have hnew' : r'.innermost.lookup t'.lexeme = none := by
    rw [hr.innermost, ht.lexeme, lookup_respell, hnew]
  rw [declare_of_new hnew, declare_of_new hnew', ht.lexeme]
  exact hr.note hne false

/-- Parameters are declared in both walks. -/
theorem parameters {ps ps' : List Token} (hps : List.Forall₂ (R.Respells (marks.headD false)) ps ps')
    (hne : ∀ p ∈ ps, p.lexeme ≠ R.name)
    (hclean : (ps.foldl (fun r p => (r.declare p).define p) r).mistakes = []) :
    (ps.foldl (fun r p => (r.declare p).define p) r).Renamed R marks
      (ps'.foldl (fun r p => (r.declare p).define p) r') := by
  induction hps generalizing r r' with
  | nil => exact hr
  | @cons p p' ps ps' hp _ ih =>
    obtain ⟨hpne, hne⟩ := List.forall_mem_cons.mp hne
    have hdeclared := clean_of_parameters _ ps hclean
    rw [mistakes_define] at hdeclared
    exact ih ((hr.declare hp hpne hdeclared).define hp hpne) hne hclean

/-- A node finds its name as many scopes out as before. -/
theorem distance? {D : Distances} {n : Nat} {t t' : Token}
    (ht : R.Respells (leadsTo marks D n) t t') (hne : t.lexeme ≠ R.name)
    (hD : D[n]? = r.distance? t.lexeme) : r'.distance? t'.lexeme = r.distance? t.lexeme := by
  rw [Resolution.distance?, hr.scopes, ht.lexeme]
  refine findIdx?_respellScopes hne hr.length hr.unused ?_
  rw [leadsTo, hD]
  rfl

theorem resolve {D : Distances} {n : Nat} {t t' : Token}
    (ht : R.Respells (leadsTo marks D n) t t') (hne : t.lexeme ≠ R.name)
    (hD : D[n]? = r.distance? t.lexeme) :
    (r.resolve n t.lexeme).Renamed R marks (r'.resolve n t'.lexeme) where
  length := by rw [scopes_resolve, hr.length]
  scopes := by rw [scopes_resolve, scopes_resolve, hr.scopes]
  unused := by
    rw [scopes_resolve]
    exact hr.unused
  inFunction := by rw [inFunction_resolve, inFunction_resolve, hr.inFunction]
  inYouth := by rw [inYouth_resolve, inYouth_resolve, hr.inYouth]
  distances := by
    rw [Resolution.resolve, Resolution.resolve, hr.distance? ht hne hD]
    cases r.distance? t.lexeme with
    | none => exact hr.distances
    | some d => exact congrArg (Std.HashMap.insert · n d) hr.distances
  clean := by rw [mistakes_resolve, hr.clean]

theorem enter {scope : Scope} (here : Bool) (hunused : scope.lookup R.name = none) :
    (r.enter scope).Renamed R (here :: marks) (r'.enter (respell (R.spell here) scope)) where
  length := congrArg (· + 1) hr.length
  scopes := congrArg (_ :: ·) hr.scopes
  unused := List.forall_mem_cons.mpr ⟨hunused, hr.unused⟩
  inFunction := hr.inFunction
  inYouth := hr.inYouth
  distances := hr.distances
  clean := hr.clean

theorem withFunction (b : Bool) :
    Resolution.Renamed R marks { r with inFunction := b } { r' with inFunction := b } :=
  ⟨hr.length, hr.scopes, hr.unused, rfl, hr.inYouth, hr.distances, hr.clean⟩

theorem withYouth (b : Bool) :
    Resolution.Renamed R marks { r with inYouth := b } { r' with inYouth := b } :=
  ⟨hr.length, hr.scopes, hr.unused, hr.inFunction, rfl, hr.distances, hr.clean⟩

end Resolution.Renamed

/-- The innermost scope closed in both walks. -/
theorem Resolution.Renamed.leave {R : Renaming} {here : Bool} {marks : List Bool} {r r' : Resolution}
    (hr : r.Renamed R (here :: marks) r') : r.leave.Renamed R marks r'.leave := by
  obtain ⟨hlength, hscopes, hunused, hfunction, hyouth, hdistances, hclean⟩ := hr
  obtain ⟨scope, outer, hs⟩ := List.exists_cons_of_length_eq_add_one hlength.symm
  rw [hs] at hlength hscopes hunused
  refine ⟨?_, ?_, ?_, hfunction, hyouth, hdistances, hclean⟩
  · rw [Resolution.leave, hs]
    exact Nat.succ.inj hlength
  · rw [Resolution.leave, Resolution.leave, hs, hscopes]
    rfl
  · rw [Resolution.leave, hs]
    exact fun scope hscope => hunused scope (List.mem_cons_of_mem _ hscope)

section Walks

variable {R : Renaming} {D : Distances} {marks : List Bool}

/-- A name is not read in its own initializer in the second walk if it is not in the first. -/
theorem Resolution.Renamed.not_ownInitializer {r r' : Resolution} (hr : r.Renamed R marks r')
    {here : Bool} {t t' : Token} (ht : R.Respells here t t') (hne : t.lexeme ≠ R.name)
    (h : r.innermost.lookup t.lexeme ≠ some false) : r'.innermost.lookup t'.lexeme ≠ some false := by
  rw [hr.innermost, ht.lexeme]
  obtain heq | hnone := lookup_spell hr.unused_innermost hne (marks.headD false) here
  · rwa [heq]
  · rw [hnone]
    simp

mutual

/-- **The walk over a renamed expression** finds no mistake either, and the same distances. -/
theorem Expr.Renamed.resolve {r r' : Resolution} {e e' : Expr} (h : Expr.Renamed R D marks e e')
    (hr : r.Renamed R marks r') (hclean : (e.resolve r).mistakes = [])
    (hvisits : ∀ v ∈ e.visits r, R.Answers D v) :
    (e.resolve r).Renamed R marks (e'.resolve r') := by
  match h with
  | .literal _ => exact hr
  | @Expr.Renamed.variable _ _ _ n t t' ht =>
    obtain ⟨hne, hD⟩ := hvisits _ List.mem_cons_self
    have hnot : r.innermost.lookup t.lexeme ≠ some false := fun hown => by
      simp [Expr.resolve, hown] at hclean
    have hnot' := hr.not_ownInitializer ht hne hnot
    simp only [Expr.resolve, if_neg hnot, if_neg hnot']
    exact hr.resolve ht hne hD
  | @Expr.Renamed.me _ _ _ n t t' ht =>
    obtain ⟨hne, hD⟩ := hvisits _ List.mem_cons_self
    have hyouth : r.inYouth = true := by
      by_contra hyouth
      simp [Expr.resolve, hyouth] at hclean
    simp only [Expr.resolve, hr.inYouth, hyouth, if_true]
    exact hr.resolve ht hne hD
  | .group h => exact h.resolve hr hclean hvisits
  | .unary h => exact h.resolve hr hclean hvisits
  | .binary hl hright =>
    obtain ⟨hvl, hvr⟩ := List.forall_mem_append.mp hvisits
    exact hright.resolve (hl.resolve hr (Expr.clean_of_resolve _ _ hclean) hvl) hclean hvr
  | .logical hl hright =>
    obtain ⟨hvl, hvr⟩ := List.forall_mem_append.mp hvisits
    exact hright.resolve (hl.resolve hr (Expr.clean_of_resolve _ _ hclean) hvl) hclean hvr
  | @Expr.Renamed.assign _ _ _ n t t' value _ ht h =>
    simp only [Expr.resolve, Resolution.mistakes_resolve] at hclean
    obtain ⟨hvalue, htarget⟩ := List.forall_mem_append.mp hvisits
    obtain ⟨hne, hD⟩ := htarget _ List.mem_cons_self
    exact (h.resolve hr hclean hvalue).resolve ht hne hD
  | .get h => exact h.resolve hr hclean hvisits
  | .set ho h =>
    obtain ⟨hvalue, hobject⟩ := List.forall_mem_append.mp hvisits
    exact ho.resolve (h.resolve hr (Expr.clean_of_resolve _ _ hclean) hvalue) hclean hobject
  | .call h hes =>
    obtain ⟨hcallee, harguments⟩ := List.forall_mem_append.mp hvisits
    exact hes.resolve (h.resolve hr (clean_of_resolveArguments _ _ hclean) hcallee) hclean harguments

theorem ArgumentsRenamed.resolve {r r' : Resolution} {es es' : List Expr}
    (h : ArgumentsRenamed R D marks es es') (hr : r.Renamed R marks r')
    (hclean : (resolveArguments r es).mistakes = [])
    (hvisits : ∀ v ∈ argumentVisits r es, R.Answers D v) :
    (resolveArguments r es).Renamed R marks (resolveArguments r' es') := by
  match h with
  | .nil => exact hr
  | .cons h hes =>
    obtain ⟨he, hrest⟩ := List.forall_mem_append.mp hvisits
    exact hes.resolve (h.resolve hr (clean_of_resolveArguments _ _ hclean) he) hclean hrest

end

/-- Whether a value may be given back is the same in both walks. -/
theorem Resolution.Renamed.give {r r' : Resolution} (hr : r.Renamed R marks r') {t : Token}
    (hclean : (if r.inFunction then r else r.report t .giveOutside).mistakes = []) :
    Resolution.Renamed R marks (if r.inFunction then r else r.report t .giveOutside)
      (if r'.inFunction then r' else r'.report t .giveOutside) := by
  rw [hr.inFunction]
  split at hclean
  · next h => rwa [if_pos h, if_pos h]
  · simp at hclean

mutual

/-- **The walk over a renamed statement** finds no mistake either, and the same distances. -/
theorem Stmt.Renamed.resolve (hname : R.name ≠ receiver) {marks : List Bool} {r r' : Resolution}
    {s s' : Stmt} (h : Stmt.Renamed R D marks s s') (hr : r.Renamed R marks r')
    (hclean : (s.resolve r).mistakes = []) (hformed : s.Formed R.Leaves)
    (hvisits : ∀ v ∈ s.visits r, R.Answers D v) : (s.resolve r).Renamed R marks (s'.resolve r') := by
  -- Both walks take the same way, since the shape of a statement is not renamed.
  match h with
  | .failed => exact hr
  | .expression h => exact h.resolve hr hclean hvisits
  | .tell h => exact h.resolve hr hclean hvisits
  | @Stmt.Renamed.bare _ _ _ t t' ht =>
    simp only [Stmt.resolve, Resolution.mistakes_define] at hclean
    exact (hr.declare ht hformed.2.2 hclean).define ht hformed.2.2
  -- The initializer is walked after its name is declared on both sides.
  | @Stmt.Renamed.declare _ _ _ t t' e _ ht h =>
    simp only [Stmt.resolve, Resolution.mistakes_define] at hclean
    have hdeclared := hr.declare ht hformed.2.2 (e.clean_of_resolve _ hclean)
    exact (h.resolve hdeclared hclean hvisits).define ht hformed.2.2
  | .giveNothing => exact hr.give hclean
  | .give h => exact h.resolve (hr.give (Expr.clean_of_resolve _ _ hclean)) hclean hvisits
  | @Stmt.Renamed.block _ _ _ here _ _ h =>
    exact (h.resolve hname (hr.enter here rfl) hclean hformed hvisits).leave
  | .branch hc hyes =>
    obtain ⟨hcondition, hthen⟩ := List.forall_mem_append.mp hvisits
    exact hyes.resolve hname (hc.resolve hr (Stmt.clean_of_resolve _ _ hclean) hcondition) hclean
      hformed.2 hthen
  | .branches hc hyes hno =>
    obtain ⟨hthen, helse⟩ := List.forall_mem_append.mp hvisits
    obtain ⟨hcondition, hthen⟩ := List.forall_mem_append.mp hthen
    have hmiddle := Stmt.clean_of_resolve (Stmt.resolve _ _) _ hclean
    have hbranch := hyes.resolve hname
      (hc.resolve hr (Stmt.clean_of_resolve _ _ hmiddle) hcondition) hmiddle hformed.2.1 hthen
    exact hno.resolve hname hbranch hclean hformed.2.2.2 helse
  | .loop hc h =>
    obtain ⟨hcondition, hbody⟩ := List.forall_mem_append.mp hvisits
    exact h.resolve hname (hc.resolve hr (Stmt.clean_of_resolve _ _ hclean) hcondition) hclean
      hformed.2 hbody
  | .function ht (.mk hps hbody) =>
    have hdeclared := Function.clean_of_resolve _ (.mk _ _ _) hclean
    rw [Resolution.mistakes_define] at hdeclared
    have hne := hformed.1.2.2
    exact (Function.Renamed.mk hps hbody).resolve hname ((hr.declare ht hne hdeclared).define ht hne)
      hclean hformed hvisits
  -- The receiver's scope has neither of the two names, as both are no keywords.
  | @Stmt.Renamed.youth _ _ _ name ms ms' ht h =>
    have hmethods := clean_of_resolveMethods _ ms hclean
    have hdeclared : (r.declare name).mistakes = [] :=
      ((r.declare name).mistakes_define name) ▸ hmethods
    have hne := hformed.1.2.2
    have hunused : List.lookup R.name [(receiver, true)] = none := by
      have hb : (R.name == receiver) = false := by simpa using hname
      simp [List.lookup_cons, hb]
    have hentered := (((hr.declare ht hne hdeclared).define ht hne).enter false hunused).withYouth true
    rw [Renaming.spell_false, respell_refl] at hentered
    simp only [Stmt.resolve, hr.inYouth]
    exact (h.resolve hname hentered hclean hformed.2 hvisits).leave.withYouth _
termination_by sizeOf s

theorem Function.Renamed.resolve (hname : R.name ≠ receiver) {marks : List Bool} {r r' : Resolution}
    {f f' : Function} (h : Function.Renamed R D marks f f') (hr : r.Renamed R marks r')
    (hclean : (f.resolve r).mistakes = []) (hformed : f.Formed R.Leaves)
    (hvisits : ∀ v ∈ f.visits r, R.Answers D v) : (f.resolve r).Renamed R marks (f'.resolve r') := by
  match h with
  | @Function.Renamed.mk _ _ _ here name ps ps' body body' hps h =>
    have hclean : (resolveBody _ body).mistakes = [] := hclean
    have hparameters := clean_of_resolveBody _ body hclean
    have hentered : (r.enter []).Renamed R (here :: marks) (r'.enter []) := hr.enter here rfl
    have hdeclared := hentered.parameters hps (fun p hp => (hformed.2.1 p hp).2.2) hparameters
    have hwalked := h.resolve hname (hdeclared.withFunction true) hclean hformed.2.2 hvisits
    simp only [Function.resolve, hr.inFunction]
    exact hwalked.leave.withFunction _
termination_by sizeOf f

theorem BodyRenamed.resolve (hname : R.name ≠ receiver) {marks : List Bool} {r r' : Resolution}
    {body body' : List Stmt} (h : BodyRenamed R D marks body body') (hr : r.Renamed R marks r')
    (hclean : (resolveBody r body).mistakes = []) (hformed : BodyFormed R.Leaves body)
    (hvisits : ∀ v ∈ bodyVisits r body, R.Answers D v) :
    (resolveBody r body).Renamed R marks (resolveBody r' body') := by
  match h with
  | .nil => exact hr
  | .cons h hbody =>
    obtain ⟨hs, hrest⟩ := List.forall_mem_append.mp hvisits
    exact hbody.resolve hname (h.resolve hname hr (clean_of_resolveBody _ _ hclean) hformed.1 hs)
      hclean hformed.2 hrest
termination_by sizeOf body

theorem MethodsRenamed.resolve (hname : R.name ≠ receiver) {marks : List Bool} {r r' : Resolution}
    {ms ms' : List Function} (h : MethodsRenamed R D marks ms ms') (hr : r.Renamed R marks r')
    (hclean : (resolveMethods r ms).mistakes = []) (hformed : MethodsFormed R.Leaves ms)
    (hvisits : ∀ v ∈ methodVisits r ms, R.Answers D v) :
    (resolveMethods r ms).Renamed R marks (resolveMethods r' ms') := by
  match h with
  | .nil => exact hr
  | .cons h hms =>
    obtain ⟨hm, hrest⟩ := List.forall_mem_append.mp hvisits
    exact hms.resolve hname (h.resolve hname hr (clean_of_resolveMethods _ _ hclean) hformed.1 hm)
      hclean hformed.2 hrest
termination_by sizeOf ms

end

end Walks

/-! ## Programs -/

/-- **A renamed variable is no mistake**, and no distance changes. -/
theorem resolve_renameVariable {R : Renaming} {program : List Stmt}
    (hclean : (resolve program).diagnostics = []) (hformed : BodyFormed R.Leaves program)
    (hrefs : ∀ ref ∈ bodyReferences program, ref.Formed R.Leaves) (hname : R.name ≠ receiver)
    (hnodes : ((bodyReferences program).map Reference.node).Nodup) :
    (resolve (renameVariable R (resolve program).distances program)).diagnostics = []
      ∧ (resolve (renameVariable R (resolve program).distances program)).distances
        = (resolve program).distances := by
  have hrenamed := bodyRenamed hclean hformed hrefs (resolve program).distances
  have hanswers := getElem?_distances_resolve hclean hnodes
  have hclean : (resolveBody ⟨[[]], false, false, ∅, []⟩ program).mistakes = [] := by
    simpa [resolve] using hclean
  have hstart : Resolution.Renamed R [false] ⟨[[]], false, false, ∅, []⟩ ⟨[[]], false, false, ∅, []⟩ :=
    ⟨rfl, rfl, by simp, rfl, rfl, rfl, rfl⟩
  have hwalked := hrenamed.resolve hname hstart hclean hformed fun v hv => by
    have href : v.reference ∈ bodyReferences program :=
      (bodyVisits_perm _ program).mem_iff.mp (List.mem_map_of_mem hv)
    exact ⟨(hrefs _ href).2.2, hanswers v hv⟩
  exact ⟨congrArg List.reverse hwalked.clean, hwalked.distances⟩

end YouthLang

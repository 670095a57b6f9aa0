import YouthLang.Proofs.Mentions

/-!
# Proofs/Homes — the frame that a mention of the receiver finds

The frame of a method that is bound to an object binds the receiver and nothing else.  A mention of the
receiver is at home in a frame if, as many steps out as the table and the tree tell together, there is
such a frame, of a method that contains the mention (`Homed`).  Code that is at home hands this on to its
parts (`Homed.heritable`).
-/

namespace YouthLang

/-! ## Mentions and their homes -/

namespace Heap

variable {h h' : Heap} {f g : Nat} {name : Text} {v : Value}

/-- A frame that does not bind the receiver. -/
def IsPlain (h : Heap) (f : Nat) : Prop := f < h.frames.size ∧ h.bound? f receiver = none

/-- A heap keeps what another one has, and no frame gets a receiver. -/
structure KeepsPlain (h h' : Heap) : Prop extends h.Keeps h' where
  plain : ∀ f, h.IsPlain f → h'.IsPlain f

/-- The frame some steps out binds the receiver of a method with a mention in it. -/
def IsHome (h : Heap) (f steps node : Nat) : Prop :=
  ∃ c ∈ h.closures, h.ancestor? f steps = some c.frame ∧ (h.bound? c.frame receiver).isSome
    ∧ ∃ scopes, (node, scopes) ∈ c.declaration.mentions

theorem Keeps.ancestor? (hk : h.Keeps h') : ∀ {d f : Nat}, h.ancestor? f d = some g →
    h'.ancestor? f d = some g
  | 0, _, ha => ha
  | d + 1, f, ha => by
      obtain ⟨p, hp, ha⟩ := Option.bind_eq_some_iff.mp ha
      rw [Heap.ancestor?, hk.parent f (parent?_eq_some_lt hp), hp]
      exact hk.ancestor? ha

theorem Keeps.isHome {steps node : Nat} (hk : h.Keeps h') (hh : h.IsHome f steps node) :
    h'.IsHome f steps node := by
  obtain ⟨c, hc, ha, hb, hmention⟩ := hh
  obtain ⟨id, hid⟩ := Array.getElem?_of_mem hc
  exact ⟨c, Array.mem_of_getElem? (hk.closures id c hid), hk.ancestor? ha, hk.bound _ _ hb, hmention⟩

/-- A home is one more step away from a new frame. -/
theorem IsHome.newFrame {steps node : Nat} {bindings : Bindings} (hh : h.IsHome f steps node) :
    (h.newFrame (some f) bindings).IsHome h.frames.size (steps + 1) node := by
  obtain ⟨c, hc, ha, hb, hmention⟩ := Keeps.isHome (@Keeps.newFrame h bindings (some f)) hh
  refine ⟨c, hc, ?_, hb, hmention⟩
  rw [ancestor?, parent?_newFrame_self]
  exact ha

end Heap

namespace Code

/-- The mentions of the receiver of the youth around a piece of code. -/
def mentions : Code → List (Nat × Nat)
  | .expr e => e.mentions
  | .stmt s => s.mentions
  | .function f => f.mentions
  | .method _ => []

/-- The methods in a piece of code. -/
def methods : Code → List Function
  | .expr _ => []
  | .stmt s => s.methods
  | .function f => f.methods
  | .method f => f :: f.methods

/-- The references of a piece of code. -/
def references : Code → List Reference
  | .expr e => e.references
  | .stmt s => s.references
  | .function f | .method f => f.references

/-- The names that a piece of code declares are identifiers. -/
def Formed : Code → Prop
  | .expr _ => True
  | .stmt s => s.Formed Token.Spelled
  | .function f | .method f => f.Formed Token.Spelled

/-- The frame of a piece of code is the one that it runs in. -/
def Runs : Code → Prop
  | .expr _ | .stmt _ => True
  | .function _ | .method _ => False

/-- What is in a part of a piece of code is in the piece. -/
structure PartOf (p c : Code) : Prop where
  mentions : p.mentions ⊆ c.mentions
  methods : p.methods ⊆ c.methods
  references : p.references ⊆ c.references
  formed : c.Formed → p.Formed
  runs : p.Runs → c.Runs

variable {p c : Code}

/-- An expression that a piece of code evaluates. -/
theorem PartOf.expr {e : Expr} (hreferences : e.references ⊆ c.references)
    (hmentions : e.mentions ⊆ c.mentions) (hruns : c.Runs) : PartOf (.expr e) c :=
  ⟨hmentions, List.nil_subset _, hreferences, fun _ => trivial, fun _ => hruns⟩

theorem partOf_of_mem_expr {e : Expr} (hp : p ∈ e.parts) : PartOf p (.expr e) := by
  have hpart : ∃ e', p = .expr e' ∧ e'.references ⊆ e.references := by
    cases e with
    | literal _ | «variable» _ _ | me _ _ => exact absurd hp (by simp [Expr.parts])
    | group inner | unary _ _ inner | get inner _ =>
      obtain rfl := List.mem_singleton.mp hp
      exact ⟨inner, rfl, List.Subset.refl _⟩
    | assign node name value =>
      obtain rfl := List.mem_singleton.mp hp
      exact ⟨value, rfl, List.subset_cons_self _ _⟩
    | binary _ _ left right | logical _ _ left right | set left _ right =>
      rcases List.mem_pair.mp hp with rfl | rfl
      · exact ⟨left, rfl, List.subset_append_left _ _⟩
      · exact ⟨right, rfl, List.subset_append_right _ _⟩
    | call callee paren arguments =>
      rcases List.mem_cons.mp hp with rfl | hp
      · exact ⟨callee, rfl, List.subset_append_left _ _⟩
      · obtain ⟨e', he', rfl⟩ := List.mem_map.mp hp
        exact ⟨e', rfl, List.subset_append_of_subset_right _ (argumentReferences_subset_of_mem he')⟩
  obtain ⟨e', rfl, hreferences⟩ := hpart
  exact .expr hreferences (Expr.mentions_subset hreferences) trivial

theorem partOf_of_mem_stmt {s : Stmt} (hp : p ∈ s.parts) : PartOf p (.stmt s) := by
  have hself : ∀ {e : Expr}, e.references = s.references → e.mentions = s.mentions →
      PartOf (.expr e) (.stmt s) := fun hreferences hmentions =>
    .expr (by rw [hreferences]; exact List.Subset.refl _)
      (by rw [hmentions]; exact List.Subset.refl _) trivial
  -- Each part of a statement mentions, contains and refers to no more than the statement does.
  cases s with
  | failed | block body => exact absurd hp (by simp [Stmt.parts])
  | expression e | tell e =>
    obtain rfl := List.mem_singleton.mp hp
    exact hself rfl rfl
  | declare name value =>
    cases value with
    | none => exact absurd hp (by simp [Stmt.parts])
    | some e =>
      rcases List.mem_pair.mp hp with rfl | rfl
      · exact hself rfl rfl
      · exact ⟨List.nil_subset _, List.nil_subset _, List.nil_subset _, id, fun _ => trivial⟩
  | give keyword value =>
    cases value with
    | none => exact absurd hp (by simp [Stmt.parts])
    | some e =>
      obtain rfl := List.mem_singleton.mp hp
      exact hself rfl rfl
  | branch condition yes no =>
    cases no with
    | none =>
      rcases List.mem_pair.mp hp with rfl | rfl
      · exact .expr (List.subset_append_left _ _) (List.subset_append_left _ _) trivial
      · exact ⟨List.subset_append_right _ _, List.Subset.refl _, List.subset_append_right _ _,
          fun h => h.2, fun _ => trivial⟩
    | some no =>
      have hp : p = .expr condition ∨ p = .stmt yes ∨ p = .stmt no := by
        simpa [Stmt.parts] using hp
      rcases hp with rfl | rfl | rfl
      · exact .expr (List.subset_append_of_subset_left _ (List.subset_append_left _ _))
          (List.subset_append_of_subset_left _ (List.subset_append_left _ _)) trivial
      · exact ⟨List.subset_append_of_subset_left _ (List.subset_append_right _ _),
          List.subset_append_left _ _,
          List.subset_append_of_subset_left _ (List.subset_append_right _ _),
          fun h => h.2.1, fun _ => trivial⟩
      · exact ⟨List.subset_append_right _ _, List.subset_append_right _ _,
          List.subset_append_right _ _, fun h => h.2.2.2, fun _ => trivial⟩
  | loop condition body =>
    rcases List.mem_pair.mp hp with rfl | rfl
    · exact .expr (List.subset_append_left _ _) (List.subset_append_left _ _) trivial
    · exact ⟨List.subset_append_right _ _, List.Subset.refl _, List.subset_append_right _ _,
        fun h => h.2, fun _ => trivial⟩
  | function f =>
    obtain rfl := List.mem_singleton.mp hp
    exact ⟨List.Subset.refl _, List.Subset.refl _, List.Subset.refl _, id, False.elim⟩
  | youth name methods =>
    obtain ⟨f, hf, rfl⟩ := List.mem_map.mp hp
    exact ⟨List.nil_subset _, allMethods_subset_of_mem hf, methodReferences_subset_of_mem hf,
      fun h => h.2.of_mem hf, False.elim⟩

theorem partOf_of_mem (hp : p ∈ c.parts) : PartOf p c := by
  cases c with
  | expr e => exact partOf_of_mem_expr hp
  | stmt s => exact partOf_of_mem_stmt hp
  | function f | method f => exact absurd hp (by simp [parts])

end Code

/-- A piece of code is at home in a frame: each mention of the receiver in it has the distance of a home
in the table, and the frame that it runs in does not bind the receiver. -/
structure Homed (h : Heap) (f : Nat) (distances : Distances) (c : Code) : Prop where
  formed : c.Formed
  references : ∀ ref ∈ c.references, ref.Formed Token.Spelled
  placed : Placed distances c.methods
  mentions : ∀ node scopes, (node, scopes) ∈ c.mentions →
    ∃ steps, h.IsHome f steps node ∧ distances[node]? = some (steps + scopes)
  plain : c.Runs → h.IsPlain f

namespace Homed

variable {h h' : Heap} {f : Nat} {distances : Distances} {c p : Code} {body : List Stmt}
  {F : Function}

theorem part (hc : Homed h f distances c) (hp : p.PartOf c) : Homed h f distances p where
  formed := hp.formed hc.formed
  references ref href := hc.references ref (hp.references href)
  placed m hm := hc.placed m (hp.methods hm)
  mentions node scopes hmem := hc.mentions node scopes (hp.mentions hmem)
  plain hruns := hc.plain (hp.runs hruns)

/-- A name that code gives a value is not the receiver's. -/
theorem ne_receiver (hc : Homed h f distances c) {t : Token} (ht : t ∈ c.names) :
    t.lexeme ≠ receiver := by
  have hformed := hc.formed
  unfold Code.names at ht
  split at ht
  · obtain rfl := List.mem_singleton.mp ht
    obtain ⟨hkind, hspelled⟩ := hc.references ⟨.write, _, _⟩ List.mem_cons_self
    exact hspelled.1 hkind
  · obtain rfl := List.mem_singleton.mp ht
    exact Token.IsName.ne_receiver hformed
  · obtain rfl := List.mem_singleton.mp ht
    exact Token.IsName.ne_receiver hformed.1
  · next f =>
    obtain rfl := List.mem_singleton.mp ht
    obtain ⟨name, parameters, body⟩ := f
    exact Token.IsName.ne_receiver hformed.1
  · exact absurd ht (by simp)

/-- The statements of a body that runs in a new frame. -/
theorem inFrame {bindings : Bindings} (hformed : BodyFormed Token.Spelled body)
    (hreferences : ∀ ref ∈ bodyReferences body, ref.Formed Token.Spelled)
    (hplaced : Placed distances (bodyMethods body))
    (hmentions : ∀ node scopes, (node, scopes) ∈ inward (bodyMentions body) →
      ∃ steps, h.IsHome f steps node ∧ distances[node]? = some (steps + scopes))
    (hbindings : bindings.lookup receiver = none) {s : Stmt} (hs : s ∈ body) :
    Homed (h.newFrame (some f) bindings) h.frames.size distances (.stmt s) where
  formed := hformed.of_mem hs
  references ref href := hreferences ref (references_subset_of_mem hs href)
  placed m hm := hplaced m (methods_subset_of_mem hs hm)
  mentions node scopes hmem := by
    have hinward := mem_inward.mpr ⟨scopes, rfl, mentions_subset_of_mem hs hmem⟩
    obtain ⟨steps, hhome, hdistance⟩ := hmentions node _ hinward
    refine ⟨steps + 1, hhome.newFrame, ?_⟩
    rw [hdistance, Nat.add_assoc, Nat.add_comm 1 scopes]
  plain _ := ⟨by simp, by simpa using hbindings⟩

/-- **Code at home hands it on to its parts.** -/
theorem heritable : Heritable Heap.KeepsPlain (fun _ => True) (fun t => t.lexeme ≠ receiver) Homed where
  keeps hk hc := {
    formed := hc.formed
    references := hc.references
    placed := hc.placed
    mentions := fun node scopes hmem => by
      obtain ⟨steps, hhome, hdistance⟩ := hc.mentions node scopes hmem
      exact ⟨steps, hk.toKeeps.isHome hhome, hdistance⟩
    plain := fun hruns => hk.plain _ (hc.plain hruns) }
  parts hc _ hp := hc.part (Code.partOf_of_mem hp)
  tokens _ _ _ := trivial
  names hc _ ht := hc.ne_receiver ht
  block hc _ hs := Homed.inFrame hc.formed hc.references hc.placed hc.mentions rfl hs
  call := fun {h f D F bindings} hc hbindings s hs => by
    obtain ⟨name, parameters, body⟩ := F
    refine Homed.inFrame hc.formed.2.2 hc.references hc.placed hc.mentions ?_ hs
    refine Option.not_isSome_iff_eq_none.mp fun hsome => ?_
    obtain ⟨p, hp, hname⟩ := hbindings receiver hsome
    exact Token.IsName.ne_receiver (hc.formed.2.1 p hp) hname
  bind := fun {h f D F v c} hc hclosure => by
    subst hclosure
    obtain ⟨hmethod, hplaced⟩ := List.forall_mem_cons.mp hc.placed
    refine ⟨hc.formed, hc.references, hplaced, fun node scopes hmem => ⟨0, ?_, ?_⟩, False.elim⟩
    · refine ⟨⟨F, h.frames.size, D⟩, by simp [Heap.newClosure], rfl, ?_, scopes, hmem⟩
      have hbound := @Heap.bound?_newFrame_self h receiver [(receiver, v)] (some f)
      exact Option.isSome_iff_exists.mpr ⟨v, hbound.trans (by simp)⟩
    · rw [Nat.zero_add]
      exact hmethod node scopes hmem

end Homed

end YouthLang

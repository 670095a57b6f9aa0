import YouthLang.Proofs.Formed
import YouthLang.Proofs.Scanning
import YouthLang.Proofs.Scoping

/-!
# Proofs/Nodes — each node has a number of its own

The nodes that use a name are counted on from program to program, whatever the programs look like, so
no two nodes of any of them share a number (`numbered_parseAll`).  What is found out about the names of
a program is kept under the numbers of its own nodes (`mem_of_getElem?_resolve`); so an entry serves
one node and no other (`parseAll_serves_one`).
-/

namespace YouthLang

/-- Programs parsed one after another, each with its nodes numbered behind those of the one before. -/
def parseAll (node : Nat) : List (List Token) → List Parsed
  | [] => []
  | tokens :: rest => parse node tokens :: parseAll (parse node tokens).node rest

/-- The nodes of programs that use a name. -/
def referencesOf (programs : List Parsed) : List Reference :=
  programs.flatMap fun p => bodyReferences p.statements

/-- **The nodes of programs are numbered through.** -/
theorem numbered_parseAll : ∀ (programs : List (List Token)) (node : Nat),
    (∀ tokens ∈ programs, ∃ t, tokens.getLast? = some t ∧ t.kind = .endOfSource) →
      ∃ last, Numbered (fun _ => True) node last (referencesOf (parseAll node programs))
  | [], node, _ => ⟨node, .nil (Nat.le_refl node)⟩
  | tokens :: rest, node, hends => by
      obtain ⟨hlast, hrest⟩ := List.forall_mem_cons.mp hends
      have hhere := (parse_formed node (fun _ _ => trivial) hlast).1
      obtain ⟨last, hbehind⟩ := numbered_parseAll rest (parse node tokens).node hrest
      exact ⟨last, hhere.append hbehind⟩

/-- The table of a program has entries for its own nodes only. -/
theorem mem_of_getElem?_resolve {statements : List Stmt} {n d : Nat}
    (h : (resolve statements).distances[n]? = some d) :
    n ∈ (bodyReferences statements).map Reference.node := by
  have hstart : Resolution.StandsIn ⟨[[]], false, false, ∅, []⟩ { scopes := [[]] } :=
    .of_complete (.cons (fun name => by simp) .nil) (by simp [Scope.Complete]) rfl rfl rfl
  have hpasses := (bodyPasses ⟨by simp, rfl⟩ hstart statements).1
  rw [resolve, hpasses.distances, getElem?_foldl_enter] at h
  rcases h with ⟨before, v, after, hsites, hnode, -⟩ | ⟨-, hempty⟩
  · obtain ⟨ref, href, rfl⟩ := Option.map_eq_some_iff.mp hnode
    have hmem : ref ∈ (sitesOf statements).filterMap Site.reference? :=
      List.mem_filterMap.mpr ⟨v, by simp [sitesOf, hsites], href⟩
    exact List.mem_map.mpr ⟨ref, (references_bodySites _ statements).mem_iff.mp hmem, rfl⟩
  · simp at hempty

/-- **Each node has a number of its own.**  Whatever programs are parsed one after another, and wherever
the count starts, the nodes of all of them that use a name have different numbers, all of them behind
the start of the count; what is assigned to is an identifier; and an entry in the table of one of the
programs is for a node of that program, the only one of all nodes that has its number. -/
theorem parseAll_serves_one (node : Nat) {programs : List (List Token)}
    (hends : ∀ tokens ∈ programs, ∃ t, tokens.getLast? = some t ∧ t.kind = .endOfSource) :
    let refs := referencesOf (parseAll node programs)
    (refs.map Reference.node).Nodup
    ∧ (∀ ref ∈ refs, node < ref.node)
    ∧ (∀ ref ∈ refs, ref.use = .write → ref.token.kind = .identifier)
    ∧ ∀ p ∈ parseAll node programs, ∀ n d, (resolve p.statements).distances[n]? = some d →
      n ∈ (bodyReferences p.statements).map Reference.node
        ∧ (refs.map Reference.node).count n = 1 := by
  obtain ⟨last, hnumbered⟩ := numbered_parseAll programs node hends
  refine ⟨hnumbered.distinct, fun ref href => (hnumbered.within ref href).1, fun ref href huse => ?_,
    fun p hp n d hentry => ?_⟩
  · have hkind := (hnumbered.formed ref href).1
    rwa [huse] at hkind
  · have hnode := mem_of_getElem?_resolve hentry
    obtain ⟨ref, href, rfl⟩ := List.mem_map.mp hnode
    have hmem : ref ∈ referencesOf (parseAll node programs) :=
      List.mem_flatMap.mpr ⟨p, hp, href⟩
    exact ⟨hnode, List.count_eq_one_of_mem hnumbered.distinct (List.mem_map_of_mem hmem)⟩

/-- Two programs, the first of which breaks off behind an assignment to a sum.  The targets of
assignments and the program that broke off were counted too, so the numbers have gaps. -/
theorem parseAll_serves_one_broken :
    let programs := [(scan "a = b; ( is c = 1; c = c + ( d ) = 2; ) e").tokens,
      (scan "me.f = f = 3;").tokens]
    let refs := referencesOf (parseAll 41 programs)
    (∀ tokens ∈ programs, ∃ t, tokens.getLast? = some t ∧ t.kind = .endOfSource)
      ∧ refs.map Reference.node = [44, 43, 48, 46, 47, 50, 52]
      ∧ (refs.map Reference.node).Nodup ∧ (∀ ref ∈ refs, 41 < ref.node)
      ∧ (∀ ref ∈ refs, ref.use = .write → ref.token.kind = .identifier)
      ∧ ∀ p ∈ parseAll 41 programs, ∀ n d, (resolve p.statements).distances[n]? = some d →
        n ∈ (bodyReferences p.statements).map Reference.node
          ∧ (refs.map Reference.node).count n = 1 := by
  intro programs refs
  have hends : ∀ tokens ∈ programs, ∃ t, tokens.getLast? = some t ∧ t.kind = .endOfSource := by
    intro tokens htokens
    rcases List.mem_pair.mp htokens with rfl | rfl
    · exact getLast?_tokens _
    · exact getLast?_tokens _
  exact ⟨hends, by decide +kernel, parseAll_serves_one 41 hends⟩

end YouthLang

import Mathlib.Data.List.Nodup
import YouthLang.Proofs.Agreement
import YouthLang.Proofs.Scanning
import YouthLang.Session

/-!
# Proofs/Sessions — names in a session

A session runs one source after another, and a function of an earlier source may be called by a later
one.  Wherever a run stands, the node that it is at was met by the walk over one of the sources
(`Session.visits`), and the frames of the run are the scopes of that visit:

* `Session.read_agrees` — a node that reads a name finds it in the frame that the walk told.
* `Session.write_agrees` — a node that writes a name does so too, except in the initializer of its own
  name: the walk counts the declaration that is under way, and the frame does not bind it yet.
-/

namespace YouthLang

/-- The sources that a session has run, first to last, each with the steps it was allowed. -/
abbrev Past := List (Nat × Text)

namespace Session

/-- The session after some more sources. -/
def after (s : Session) : Past → Session
  | [] => s
  | (fuel, source) :: rest => ((s.run fuel source).1).after rest

/-- What the walks over some more sources meet. -/
def visits (s : Session) : Past → List Visit
  | [] => []
  | (fuel, source) :: rest =>
    visitsOf (analyse s.node s.file source).statements ++ ((s.run fuel source).1).visits rest

/-- The machine of the session, some steps into a source without mistakes. -/
def machineAt (s : Session) (source : Text) (steps : Nat) (others : List Nat := []) : Machine :=
  let a := analyse s.node s.file source others
  (s.machine.load a.statements a.distances).run steps

end Session

/-! ## One source -/

theorem analyse_formed (node : Nat) (file source : Text) (others : List Nat := []) :
    Numbered Token.Spelled node (analyse node file source others).node
      (bodyReferences (analyse node file source others).statements)
      ∧ BodyFormed Token.Spelled (analyse node file source others).statements :=
  parse_formed node spelled_of_mem_tokens (getLast?_tokens source) others

/-- A source without mistakes is settled. -/
theorem analyse_settled {node : Nat} {file source : Text} {others : List Nat} {ok : Visit → Prop}
    (hclean : (analyse node file source others).diagnostics = [])
    (hok : ∀ v ∈ visitsOf (analyse node file source others).statements, v.Legible →
      (analyse node file source others).distances[v.node]? = v.distance? → ok v) :
    BodySettled ok [[]] false (analyse node file source others).statements := by
  obtain ⟨hnumbered, hformed⟩ := analyse_formed node file source others
  refine settled_of_resolve ?_ hformed hnumbered.formed hnumbered.distinct hok
  have := (List.append_eq_nil_iff.mp hclean).2
  exact List.map_eq_nil_iff.mp this

/-- The visits of a source have the numbers of its nodes. -/
theorem numbered_visitsOf (node : Nat) (file source : Text) (others : List Nat := []) :
    Numbered Token.Spelled node (analyse node file source others).node
      ((visitsOf (analyse node file source others).statements).map Visit.reference) :=
  (analyse_formed node file source others).1.perm (bodyVisits_perm _ _)

/-! ## A session -/

/-- What is known of a node when it runs with a table: the walk has met it, outside of a declaration of
its own name unless it writes, and the table has its distance. -/
def Known (visits : List Visit) (distances : Distances) (v : Visit) : Prop :=
  v ∈ visits ∧ v.Legible ∧ distances[v.node]? = v.distance?

namespace Session

variable {s : Session} {source : Text} {others : List Nat} {visits : List Visit}

theorem run_of_diagnostics_eq_nil (fuel : Nat)
    (hclean : (analyse s.node s.file source others).diagnostics = []) :
    (s.run fuel source others).1
      = ⟨s.file, (analyse s.node s.file source others).node, s.machineAt source fuel others⟩ := by
  simp [run, machineAt, hclean]

theorem run_of_diagnostics_ne_nil (fuel : Nat)
    (hmistake : (analyse s.node s.file source others).diagnostics ≠ []) :
    (s.run fuel source others).1 = { s with node := (analyse s.node s.file source others).node } := by
  simp [run, hmistake]

theorem node_run (fuel : Nat) :
    (s.run fuel source others).1.node = (analyse s.node s.file source others).node := by
  by_cases hclean : (analyse s.node s.file source others).diagnostics = []
  · rw [run_of_diagnostics_eq_nil fuel hclean]
  · rw [run_of_diagnostics_ne_nil fuel hclean]

theorem file_run (fuel : Nat) : (s.run fuel source others).1.file = s.file := by
  by_cases hclean : (analyse s.node s.file source others).diagnostics = []
  · rw [run_of_diagnostics_eq_nil fuel hclean]
  · rw [run_of_diagnostics_ne_nil fuel hclean]

/-- Some steps into a source without mistakes, the invariant holds. -/
theorem sound_machineAt (hheap : s.machine.heap.Sound (Known visits))
    (hclean : (analyse s.node s.file source others).diagnostics = [])
    (hvisits : ∀ v ∈ visitsOf (analyse s.node s.file source others).statements, v ∈ visits)
    (steps : Nat) : (s.machineAt source steps others).Sound (Known visits) :=
  Machine.Sound.run steps <| Machine.Sound.load hheap <| analyse_settled hclean
    fun v hv hlegible hd => ⟨hvisits v hv, hlegible, hd⟩

/-- Whatever the sources were and however their runs ended, the functions they left are sound. -/
theorem sound_after : ∀ (past : Past) {s : Session},
    s.machine.heap.Sound (Known visits) → (∀ v ∈ s.visits past, v ∈ visits) →
      (s.after past).machine.heap.Sound (Known visits)
  | [], _, hheap, _ => hheap
  | (fuel, source) :: rest, s, hheap, hvisits => by
      obtain ⟨hhere, hrest⟩ := List.forall_mem_append.mp hvisits
      refine sound_after rest ?_ hrest
      by_cases hclean : (analyse s.node s.file source).diagnostics = []
      · rw [run_of_diagnostics_eq_nil fuel hclean]
        exact (sound_machineAt hheap hclean hhere fuel).heap
      · rw [run_of_diagnostics_ne_nil fuel hclean]
        exact hheap

/-- The nodes of a session are numbered through. -/
theorem numbered_visits : ∀ (past : Past) (s : Session),
    Numbered Token.Spelled s.node (s.after past).node
      ((s.visits past).map Visit.reference)
  | [], s => .nil (Nat.le_refl _)
  | (fuel, source) :: rest, s => by
      have hhere := numbered_visitsOf s.node s.file source
      rw [← @node_run s source [] fuel] at hhere
      simpa [visits, after] using hhere.append (numbered_visits rest (s.run fuel source).1)

/-- A node of a session was met once. -/
theorem eq_of_node_eq {past : Past} {v w : Visit} (hv : v ∈ s.visits past)
    (hw : w ∈ s.visits past) (hnode : w.node = v.node) : w = v := by
  have hnodup := (numbered_visits past s).distinct
  rw [List.map_map] at hnodup
  exact List.inj_on_of_nodup_map hnodup hw hv hnode

theorem visits_append (past : Past) (more : Past) : ∀ s : Session,
    s.visits (past ++ more) = s.visits past ++ (s.after past).visits more := by
  induction past with
  | nil => exact fun _ => rfl
  | cons entry rest ih =>
    intro s
    simp only [List.cons_append, visits, ih, after, List.append_assoc]

end Session

/-! ## What a node finds -/

/-- The node that an expression reads a name at, if that is all it does. -/
def Expr.reading? : Expr → Option Reference
  | .variable node name => some ⟨.read, name, node⟩
  | .me node keyword => some ⟨.receiver, keyword, node⟩
  | _ => none

/-- A machine at a node has a frame for each scope of the visit, out to the globals, and the distance
of the visit in its table. -/
structure Machine.Matches (m : Machine) (v : Visit) : Prop where
  depth : (m.heap.chain m.frame).length = v.scopes.length
  outermost : (m.heap.chain m.frame).getLast? = some Machine.globals
  distance : m.distances[v.node]? = v.distance?

/-- The frame at the distance of a node, if it has one, is there and binds the name. -/
def Machine.Binds (m : Machine) (v : Visit) : Prop :=
  ∀ d, m.distances[v.node]? = some d →
    ∃ g, m.heap.ancestor? m.frame d = some g ∧ (m.heap.bound? g v.name).isSome

/-- The machine has found a name that is not bound where the walk told. -/
def Machine.Mismatched (m : Machine) : Prop :=
  ∃ d name distance, m.control = .failing d ∧ d.cause = .runtime (.unboundAt name distance)

section Nodes

variable {m : Machine} {v : Visit} {visits : List Visit}

theorem Machine.Matches.of_realizes (hr : m.heap.Realizes m.frame v.scopes)
    (hk : Known visits m.distances v) : m.Matches v :=
  ⟨hr.length_chain, hr.getLast?_chain, hk.2.2⟩

/-- A complete declaration is bound. -/
theorem Machine.Binds.of_firm (hr : m.heap.Realizes m.frame v.scopes)
    (hk : Known visits m.distances v) (hfirm : v.Firm) : m.Binds v := by
  intro d hd
  rw [hk.2.2] at hd
  obtain ⟨hlt, -⟩ := List.findIdx?_eq_some_iff_getElem.mp hd
  have hscope := List.getElem?_eq_getElem hlt
  obtain ⟨g, hg, hcovers⟩ := hr.ancestor? hscope
  exact ⟨g, hg, hcovers _ (hfirm d _ hd hscope)⟩

/-- An expression that only reads a name looks it up. -/
theorem Expr.eval_of_reading? {e : Expr} {ref : Reference} (h : e.reading? = some ref) :
    m.eval e = m.lookUp ref.node ref.token ∧ ref ∈ e.references ∧ ref.use ≠ .write := by
  unfold Expr.reading? at h
  split at h
  · obtain rfl := Option.some.inj h
    exact ⟨rfl, by simp [Expr.references], by simp⟩
  · obtain rfl := Option.some.inj h
    exact ⟨rfl, by simp [Expr.references], by simp⟩
  · exact absurd h (by simp)

theorem Machine.not_mismatched_lookUp (hb : m.Binds v) :
    ¬ (m.lookUp v.node v.reference.token).Mismatched := by
  rintro ⟨d, other, distance, hcontrol, hcause⟩
  unfold Machine.lookUp at hcontrol
  split at hcontrol
  · next k hk =>
    obtain ⟨g, hg, hbound⟩ := hb k hk
    obtain ⟨x, hx⟩ := Option.isSome_iff_exists.mp hbound
    rw [Visit.name] at hx
    simp [Heap.getAt?_of_ancestor? hg, hx, Machine.valueOr, Machine.turn] at hcontrol
  · unfold Machine.valueOr at hcontrol
    split at hcontrol
    · simp [Machine.turn] at hcontrol
    · obtain rfl : _ = d := by simpa [Machine.failAt, Machine.turn] using hcontrol
      simp at hcause

/-- An assignment finds a mismatch exactly if the frame that the walk told does not bind the name. -/
theorem Machine.mismatched_assign_iff {node : Nat} {name : Token} {x : Value} :
    (m.assign node name x).Mismatched ↔
      ∃ d, m.distances[node]? = some d ∧ m.heap.binderAt? m.frame d name.lexeme = none := by
  unfold Machine.assign
  constructor
  · rintro ⟨d, other, distance, hcontrol, hcause⟩
    cases hd : m.distances[node]? with
    | none =>
      simp only [hd] at hcontrol
      split at hcontrol
      · simp at hcontrol
      · obtain rfl : _ = d := by simpa [Machine.failAt, Machine.turn] using hcontrol
        simp at hcause
    | some k =>
      refine ⟨k, rfl, ?_⟩
      simp only [hd] at hcontrol
      split at hcontrol
      · simp at hcontrol
      · next hnone => exact hnone
  · rintro ⟨k, hk, hnone⟩
    simp only [hk, hnone]
    exact ⟨_, _, _, rfl, rfl⟩

/-- A name is declared in the innermost scope while its initializer is walked. -/
theorem Visit.distance?_of_inOwnInitializer (hown : v.InOwnInitializer) : v.distance? = some 0 := by
  obtain ⟨ref, scopes⟩ := v
  cases scopes with
  | nil => simp [Visit.InOwnInitializer] at hown
  | cons scope outer =>
    have hl : scope.lookup ref.token.lexeme = some false := hown
    simp [Visit.distance?, Visit.name, List.findIdx?_cons, hl]

/-- A name is not bound in the frame while its initializer is evaluated, unless the frame is that of
the globals, which may have the name from elsewhere. -/
theorem Machine.bound?_of_inOwnInitializer (hh : m.heap.Hosts m.frame v.scopes)
    (hown : v.InOwnInitializer) : m.heap.bound? m.frame v.name = none ↔
      (m.frame = Machine.globals → m.heap.bound? Machine.globals v.name = none) := by
  constructor
  · intro hnone hglobals
    rwa [hglobals] at hnone
  · intro h
    by_cases hglobals : m.frame = Machine.globals
    · rw [hglobals]
      exact h hglobals
    · cases hb : m.heap.bound? m.frame v.name with
      | none => rfl
      | some x =>
        have hcomplete := hh.only hglobals v.name (by simp [hb])
        exact absurd (hcomplete.symm.trans hown) (by simp)

end Nodes

/-! ## Reads and writes -/

namespace Session

variable {file : Text} {node : Nat} {clock : Clock} {past : Past} {source : Text} {steps : Nat}
  {s : Session}

/-- The invariant, some steps into a source behind any past of a fresh session. -/
theorem sound_of_eq_after (hs : s = (fresh file node clock).after past)
    (hclean : (analyse s.node s.file source).diagnostics = []) :
    (s.machineAt source steps).Sound
      (Known ((fresh file node clock).visits (past ++ [(steps, source)]))) := by
  subst hs
  rw [visits_append]
  refine sound_machineAt ?_ hclean (fun v hv => ?_) steps
  · exact sound_after past (Machine.sound_ofClock clock)
      fun v hv => List.mem_append_left _ hv
  · exact List.mem_append_right _ (List.mem_append_left _ hv)

/-- **Reads agree with the walk.**  Behind any past of a session, at any point of the run of a source
without mistakes: a node that reads a name was met by a walk once, the frames are the scopes that were
open there, and the frame that the walk told binds the name. -/
theorem read_agrees (hs : s = (fresh file node clock).after past)
    (hclean : (analyse s.node s.file source).diagnostics = []) {e : Expr} {ref : Reference}
    (heval : (s.machineAt source steps).control = .eval e) (href : e.reading? = some ref) :
    ∃ v ∈ (fresh file node clock).visits (past ++ [(steps, source)]), v.reference = ref
      ∧ (∀ w ∈ (fresh file node clock).visits (past ++ [(steps, source)]),
          w.node = ref.node → w = v)
      ∧ (s.machineAt source steps).Matches v ∧ (s.machineAt source steps).Binds v
      ∧ ¬ (s.machineAt source steps).step.Mismatched := by
  have hsound := @sound_of_eq_after file node clock past source steps s hs hclean
  have hstep : (s.machineAt source steps).step = (s.machineAt source steps).eval e := by
    simp only [Machine.step, heval]
  rw [Machine.Sound, heval] at hsound
  obtain ⟨b, scopes, hstands, hsettled⟩ := hsound
  obtain ⟨hlook, hmem, huse⟩ := @Expr.eval_of_reading? (s.machineAt source steps) e ref href
  have hr := hstands.hosts.realizes
  have hknown : Known _ _ ⟨ref, scopes⟩ := hsettled ref hmem
  have hfirm : Visit.Firm ⟨ref, scopes⟩ := hknown.2.1.resolve_right fun h => huse h.1
  have hbinds := Machine.Binds.of_firm hr hknown hfirm
  refine ⟨⟨ref, scopes⟩, hknown.1, rfl, fun w hw hn => eq_of_node_eq hknown.1 hw hn,
    .of_realizes hr hknown, hbinds, ?_⟩
  rw [hstep, hlook]
  exact Machine.not_mismatched_lookUp hbinds

/-- A name read in a block, behind a source that ran and one that did not. -/
theorem read_agrees_in_block :
    ¬ (((fresh [] 0 ⟨0, []⟩).after [(9, "listen f() ( give; )"), (9, "f(")]).machineAt
      "( is a; tell a; )" 6).step.Mismatched := by
  obtain ⟨v, -, -, -, -, -, hagrees⟩ := @read_agrees [] 0 ⟨0, []⟩
    [(9, "listen f() ( give; )"), (9, "f(")] "( is a; tell a; )" 6 _ rfl (by decide +kernel)
    (.variable 2 ⟨.identifier, "a", ⟨1, 14⟩⟩) ⟨.read, ⟨.identifier, "a", ⟨1, 14⟩⟩, 2⟩ rfl rfl
  exact hagrees

/-- **Writes agree with the walk, except in the initializer of their own name.**  Behind any past of a
session, at any point of the run of a source without mistakes: a node that writes a name was met by a
walk once and the frames are the scopes that were open there, but the name is not bound where the walk
told exactly if the node stands in the initializer that declares it, and the globals have not got the
name from elsewhere. -/
theorem write_agrees (hs : s = (fresh file node clock).after past)
    (hclean : (analyse s.node s.file source).diagnostics = []) {x : Value} {n : Nat} {name : Token}
    {rest : List Pending} (hvalue : (s.machineAt source steps).control = .value x)
    (hassign : (s.machineAt source steps).pending = .assign n name :: rest) :
    ∃ v ∈ (fresh file node clock).visits (past ++ [(steps, source)]),
      v.reference = ⟨.write, name, n⟩
      ∧ (∀ w ∈ (fresh file node clock).visits (past ++ [(steps, source)]), w.node = n → w = v)
      ∧ (s.machineAt source steps).Matches v
      ∧ (¬ v.InOwnInitializer → (s.machineAt source steps).Binds v)
      ∧ ((s.machineAt source steps).step.Mismatched ↔ v.InOwnInitializer
          ∧ ((s.machineAt source steps).frame = Machine.globals →
            (s.machineAt source steps).heap.bound? Machine.globals name.lexeme = none)) := by
  have hsound := @sound_of_eq_after file node clock past source steps s hs hclean
  generalize s.machineAt source steps = m at hvalue hassign hsound ⊢
  have hstep : m.step = { m with pending := rest }.assign n name x := by
    simp only [Machine.step, hvalue, hassign, Machine.receive]
  rw [Machine.Sound, hvalue] at hsound
  obtain ⟨b, scopes, ⟨-, hhosts, hawaits⟩⟩ := hsound
  rw [hassign] at hawaits
  cases hawaits with
  | assign hknown hrest =>
    have hr := hhosts.realizes
    have hbinds : ¬ Visit.InOwnInitializer ⟨⟨.write, name, n⟩, scopes⟩ → m.Binds _ := fun hown =>
      Machine.Binds.of_firm hr hknown (hknown.2.1.resolve_right fun h => hown h.2)
    refine ⟨_, hknown.1, rfl, fun w hw hn => eq_of_node_eq hknown.1 hw hn, .of_realizes hr hknown,
      hbinds, ?_⟩
    rw [hstep, Machine.mismatched_assign_iff]
    -- A mismatch is an assignment in the initializer of its own name, at a distance of zero.
    constructor
    · rintro ⟨d, hd, hnone⟩
      by_cases hown : Visit.InOwnInitializer ⟨⟨.write, name, n⟩, scopes⟩
      · obtain rfl : d = 0 := Option.some.inj
          (hd.symm.trans (hknown.2.2.trans (Visit.distance?_of_inOwnInitializer hown)))
        refine ⟨hown, (Machine.bound?_of_inOwnInitializer hhosts hown).mp ?_⟩
        exact (Heap.binderAt?_eq_none_of_ancestor? rfl).mp hnone
      · obtain ⟨g, hg, hbound⟩ := hbinds hown d hd
        have hunbound := (Heap.binderAt?_eq_none_of_ancestor? hg).mp hnone
        simp [Visit.name, hunbound] at hbound
    · rintro ⟨hown, hglobals⟩
      refine ⟨0, hknown.2.2.trans (Visit.distance?_of_inOwnInitializer hown), ?_⟩
      refine (Heap.binderAt?_eq_none_of_ancestor? rfl).mpr ?_
      exact (Machine.bound?_of_inOwnInitializer hhosts hown).mpr hglobals

/-- A name written in its own initializer, where it is not bound yet. -/
theorem write_agrees_in_initializer :
    ((fresh [] 0 ⟨0, []⟩).machineAt "( is a = a = emptiness; )" 6).step.Mismatched := by
  obtain ⟨v, hv, -, -, -, -, hagrees⟩ := @write_agrees [] 0 ⟨0, []⟩ [] "( is a = a = emptiness; )" 6 _
    rfl (by decide +kernel) .emptiness 2 ⟨.identifier, "a", ⟨1, 10⟩⟩ _ rfl rfl
  have hown : ∀ w ∈ (fresh [] 0 ⟨0, []⟩).visits [(6, "( is a = a = emptiness; )")],
      w.InOwnInitializer := by decide +kernel
  refine hagrees.mpr ⟨hown v hv, fun hglobals => ?_⟩
  exact absurd hglobals (by decide +kernel)

end Session

end YouthLang

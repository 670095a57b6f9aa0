import YouthLang.Proofs.Excerpts
import YouthLang.Proofs.Parallel
import YouthLang.Proofs.Splitting

/-!
# Proofs/Rejection — a rejected source leaves no trace

What is wrong with a source does not depend on the session it is run in: the analysis finds the mistakes
that `check` finds, whatever the nodes are counted from (`diagnostics_analyse`).  A source with mistakes
moves that count and nothing else.  So two sessions that differ in their numbers only (`Session.Beside`)
run a source without mistakes alike and still differ in their numbers only (`Session.Beside.run`), and
rejected sources may be left out of a session (`Session.runAll_rejected`).
-/

namespace YouthLang

/-! ## The analysis -/

section Analysis

variable (node node' : Nat) (file source : Text) (others others' : List Nat := [])

theorem statements_renumbered :
    BodyAlike Eq AnyNode (analyse node file source others).statements
      (analyse node' file source others').statements :=
  (parse_beside node node' (getLast?_tokens source) others others').1

/-- The mistakes in a source do not depend on the numbers that its nodes get. -/
theorem diagnostics_analyse : (analyse node file source others).diagnostics = check file source := by
  have hparse := (parse_beside node 0 (getLast?_tokens source) others).2.1
  have hresolve := diagnostics_resolve_of_alike (statements_renumbered node 0 file source others)
  simp only [check, analyse, programOf_eq] at hresolve ⊢
  rw [hparse, hresolve]

end Analysis

@[simp] theorem Diagnostic.cause_decorate (d : Diagnostic) (file source : Text) :
    (d.decorate file source).cause = d.cause := by
  have hattach : ∀ d : Diagnostic, (d.attach source).cause = d.cause := by
    intro d
    unfold attach
    split
    · split <;> rfl
    · rfl
  unfold decorate placed
  rw [hattach]
  split <;> rfl

theorem stage_scan (source : Text) : ∀ d ∈ (scan source).diagnostics, d.cause.stage = .lexical := by
  intro d hd
  obtain ⟨p, -, hp⟩ := List.mem_filterMap.mp hd
  unfold Piece.diagnostic? at hp
  split at hp
  · obtain rfl := Option.some.inj hp
    rfl
  · exact absurd hp (by simp)

/-- Mistakes in the order of the stages that find them before a source runs. -/
def InStages (ds : List Diagnostic) : Prop :=
  ∃ lexical grammatical resolution, ds = lexical ++ grammatical ++ resolution
    ∧ (∀ d ∈ lexical, d.cause.stage = .lexical)
    ∧ (∀ d ∈ grammatical, d.cause.stage = .grammatical)
    ∧ ∀ d ∈ resolution, d.cause.stage = .resolution

/-- A check finds lexical mistakes first, then those of the grammar, then wrong uses of names. -/
theorem inStages_check (file source : Text) : InStages (check file source) := by
  have hdecorate : ∀ {stage : Stage} {ds : List Diagnostic}, (∀ d ∈ ds, d.cause.stage = stage) →
      ∀ d ∈ ds.map (·.decorate file source), d.cause.stage = stage := by
    intro stage ds h e he
    obtain ⟨d, hd, rfl⟩ := List.mem_map.mp he
    rw [d.cause_decorate, h d hd]
  refine ⟨_, _, _, ?_, hdecorate (stage_scan source),
    hdecorate (parse_beside 0 0 (getLast?_tokens source)).2.2,
    hdecorate (stage_resolve_of_alike (statements_renumbered 0 0 file source))⟩
  simp [check, analyse, programOf_eq]

theorem InStages.isStatic {ds : List Diagnostic} (h : InStages ds) : ∀ d ∈ ds, d.isStatic := by
  obtain ⟨lexical, grammatical, resolution, rfl, hl, hg, hr⟩ := h
  intro d hd
  rcases List.mem_append.mp hd with hd | hd
  · rcases List.mem_append.mp hd with hd | hd
    · simp [Diagnostic.isStatic, hl d hd]
    · simp [Diagnostic.isStatic, hg d hd]
  · simp [Diagnostic.isStatic, hr d hd]

namespace Session

/-! ## Sessions side by side -/

/-- Two sessions that differ in the numbers of their nodes only, where each has met its nodes on the
walks over its own sources. -/
structure Beside (visits visits' : List Visit) (s s' : Session) : Prop where
  file : s.file = s'.file
  heap : s.machine.heap.Alike Eq (Linked (· ∈ visits) (· ∈ visits')) s'.machine.heap
  clock : s.machine.clock = s'.machine.clock
  sound : s.machine.heap.Sound (Known visits)
  sound' : s'.machine.heap.Sound (Known visits')

theorem Beside.fresh (visits visits' : List Visit) (file : Text) (node node' : Nat) (clock : Clock) :
    Beside visits visits' (Session.fresh file node clock) (Session.fresh file node' clock) where
  file := rfl
  heap := ⟨rfl, rfl, rfl, .nil, .nil⟩
  clock := rfl
  sound := Machine.sound_ofClock clock
  sound' := Machine.sound_ofClock clock

theorem Beside.withNode {visits visits' : List Visit} {s s' : Session} (h : Beside visits visits' s s')
    (node : Nat) : Beside visits visits' { s with node := node } s' :=
  ⟨h.file, h.heap, h.clock, h.sound, h.sound'⟩

section Run

variable {visits visits' : List Visit} {s s' : Session} {source : Text} {others : List Nat}

/-- The statements that two sessions make of a source are linked. -/
theorem statements_linked_of_check (hclean : check s.file source = []) (hfile : s.file = s'.file)
    (hvisits : ∀ v ∈ visitsOf (analyse s.node s.file source others).statements, v ∈ visits)
    (hvisits' : ∀ v ∈ visitsOf (analyse s'.node s'.file source).statements, v ∈ visits') :
    BodyAlike (Token.Alike Eq) (Linked (· ∈ visits) (· ∈ visits'))
      (analyse s.node s.file source others).statements (analyse s'.node s'.file source).statements := by
  have hnil : Scope.Complete [] := by simp [Scope.Complete]
  have hmeets : Meets Eq Eq Eq := by
    rintro t _ _ rfl rfl
    exact ⟨rfl, rfl, rfl, rfl⟩
  have hsettled := analyse_settled ((diagnostics_analyse s.node s.file source others).trans hclean)
    fun v hv _ _ => hvisits v hv
  have hsettled' := analyse_settled (clean_of_check (hfile ▸ hclean) s'.node)
    fun v hv _ _ => hvisits' v hv
  rw [← graft_nil [[]]] at hsettled
  refine BodyAlike.link hmeets hnil (List.cons_ne_nil _ _)
    (statements_renumbered s.node s.node s.file source others others) ?_ hsettled hsettled'
  rw [← hfile]
  exact statements_renumbered s.node s'.node s.file source others

variable (hb : Beside visits visits' s s') (hclean : check s.file source = [])
  (hvisits : ∀ v ∈ visitsOf (analyse s.node s.file source others).statements, v ∈ visits)
  (hvisits' : ∀ v ∈ visitsOf (analyse s'.node s'.file source).statements, v ∈ visits')

include hb hclean hvisits hvisits'

/-- Two sessions start a source in step. -/
theorem Beside.starts_alike :
    Machine.Alike Eq (Linked (· ∈ visits) (· ∈ visits')) [] [] (s.machineAt source 0 others)
      (s'.machineAt source 0) := by
  have hbody := statements_linked_of_check hclean hb.file hvisits hvisits'
  have hqueued := @Queued.program _ _ [] _ _ hbody
  rw [List.append_nil] at hqueued
  exact .running ⟨hb.heap, hb.clock, rfl, rfl, rfl, hqueued⟩ .done

omit hb hclean hvisits hvisits' in
theorem statements_run (fuel : Nat) : (s.run fuel source others).2.statements
    = (analyse s.node s.file source others).statements.length := by
  unfold run
  dsimp only
  split <;> rfl

omit hb hclean hvisits hvisits' in
/-- Two runs that end alike on the same lines are the same. -/
theorem run_eq_of_endsAlike {fuel : Nat}
    (hclean : (analyse s.node s.file source others).diagnostics = [])
    (hclean' : (analyse s'.node s'.file source).diagnostics = []) (hfile : s.file = s'.file)
    (h : Machine.EndsAlike Eq [] (s.machineAt source fuel others) (s'.machineAt source fuel)) :
    (s.run fuel source others).2 = (s'.run fuel source).2 := by
  have hlength : (s.run fuel source others).2.statements = (s'.run fuel source).2.statements := by
    rw [statements_run, statements_run, ← hfile]
    exact (bodyAlike_iff.mp (statements_renumbered s.node s'.node s.file source others)).length_eq
  have houtput : (s.run fuel source others).2.output = (s'.run fuel source).2.output :=
    output_of_endsAlike hclean hclean' h
  have hfailure :
      (s.machineAt source fuel others).failure? = (s'.machineAt source fuel).failure? := by
    obtain ⟨hnone, hnone'⟩ | ⟨d, d', hd, hd', halike⟩ := h.failure
    · rw [hnone, hnone']
    · rw [hd, hd', halike.eq fun _ _ hl => hl]
  have houtcome : (s.run fuel source others).2.outcome = (s'.run fuel source).2.outcome := by
    rw [(report_run hclean).2, (report_run hclean').2, h.hasEnded, hfailure, hfile]
  generalize (s.run fuel source others).2 = r, (s'.run fuel source).2 = r' at hlength houtput houtcome
  obtain ⟨output, outcome, statements⟩ := r
  obtain ⟨rfl, rfl, rfl⟩ := And.intro hlength (And.intro houtput houtcome)
  rfl

/-- **Two sessions that differ in their numbers only run a source alike**, and then they still do. -/
theorem Beside.run (honce : MetOnce visits) (honce' : MetOnce visits') (fuel : Nat) :
    (s.run fuel source others).2 = (s'.run fuel source).2
      ∧ Beside visits visits' (s.run fuel source others).1 (s'.run fuel source).1 := by
  have hclean₁ := (diagnostics_analyse s.node s.file source others).trans hclean
  have hclean₂ := clean_of_check (hb.file ▸ hclean) s'.node
  have hsound := sound_machineAt hb.sound hclean₁ hvisits
  have hsound' := sound_machineAt hb.sound' hclean₂ hvisits'
  have hstart := hb.starts_alike hclean hvisits hvisits'
  have hends := hstart.run_endsAlike honce honce' (hsound 0) (hsound' 0) fuel
  have hleaves := hstart.run_leavesAlike honce honce' (hsound 0) (hsound' 0) fuel
  refine ⟨run_eq_of_endsAlike hclean₁ hclean₂ hb.file hends, ?_⟩
  rw [run_of_diagnostics_eq_nil fuel hclean₁, run_of_diagnostics_eq_nil fuel hclean₂]
  exact ⟨hb.file, hleaves.1, hleaves.2, (hsound fuel).heap, (hsound' fuel).heap⟩

end Run

/-! ## Rejected sources -/

theorem wasRejected_run (s : Session) (fuel : Nat) (source : Text) :
    (s.run fuel source).2.wasRejected ↔ check s.file source ≠ [] := by
  rw [← diagnostics_analyse s.node]
  by_cases hclean : (analyse s.node s.file source).diagnostics = []
  · have houtcome := (@report_run s source fuel [] hclean).2
    simp only [Run.wasRejected, houtcome, hclean, ne_eq, not_true_eq_false, iff_false]
    split
    · next hsplit =>
      split at hsplit
      · split at hsplit <;> exact absurd hsplit (by simp)
      · exact absurd hsplit (by simp)
    · simp
  · simp [run, hclean, Run.wasRejected]

/-- What a session tells of a source: it is rejected exactly for the mistakes that a check finds, which
come in the order of the stages that find them, and then nothing is printed. -/
structure Rejects (file source : Text) (r : Run) : Prop where
  iff : r.wasRejected ↔ check file source ≠ []
  output : r.wasRejected → r.output = []
  mistakes : r.wasRejected → r.mistakes = check file source
  stages : r.wasRejected → InStages r.mistakes ∧ ∀ d ∈ r.mistakes, d.isStatic

theorem rejects_run (s : Session) (fuel : Nat) (source : Text) :
    Rejects s.file source (s.run fuel source).2 := by
  have hiff := wasRejected_run s fuel source
  have hrun : check s.file source ≠ [] → (s.run fuel source).2.output = []
      ∧ (s.run fuel source).2.mistakes = check s.file source := by
    intro hmistake
    rw [← diagnostics_analyse s.node] at hmistake ⊢
    simp [run, hmistake, Run.mistakes]
  refine ⟨hiff, fun h => (hrun (hiff.mp h)).1, fun h => (hrun (hiff.mp h)).2, fun h => ?_⟩
  rw [(hrun (hiff.mp h)).2]
  exact ⟨inStages_check _ _, (inStages_check _ _).isStatic⟩

theorem rejects_runAll (fuel : Nat) : ∀ (sources : List Text) (s : Session),
    List.Forall₂ (Rejects s.file) sources (s.runAll fuel sources)
  | [], _ => .nil
  | source :: rest, s => by
      have hrest := rejects_runAll fuel rest (s.run fuel source).1
      rw [file_run] at hrest
      exact .cons (rejects_run s fuel source) hrest

/-- The sources that a check finds nothing wrong with. -/
def accepted (file : Text) (sources : List Text) : List Text :=
  sources.filter fun source => (check file source).isEmpty

/-- The sources as they are run one after the other with the same number of steps. -/
def pastOf (fuel : Nat) (sources : List Text) : Past := sources.map fun source => (fuel, source)

/-- Two sessions that differ in their numbers only still do so when one of them is spared the sources
that are rejected. -/
theorem Beside.runAll {visits visits' : List Visit} (honce : MetOnce visits)
    (honce' : MetOnce visits') (fuel : Nat) : ∀ (sources : List Text) {s s' : Session},
      Beside visits visits' s s' → (∀ v ∈ s.visits (pastOf fuel sources), v ∈ visits) →
      (∀ v ∈ s'.visits (pastOf fuel (accepted s.file sources)), v ∈ visits') →
      s'.runAll fuel (accepted s.file sources)
        = (s.runAll fuel sources).filter fun r => !r.wasRejected
  | [], _, _, _, _, _ => rfl
  | source :: rest, s, s', hb, hvisits, hvisits' => by
      obtain ⟨hhere, hrest⟩ := List.forall_mem_append.mp hvisits
      have hrejected := wasRejected_run s fuel source
      -- Whether a source is rejected does not depend on where the count of nodes stands.
      by_cases hclean : check s.file source = []
      -- rest) = source :: accepted s.file rest :: An accepted source runs alike on both sides.
      -- rest) = accepted s.file rest :: A rejected one only moves the count, on the side that runs
      -- it.
      · have haccepted : accepted s.file (source :: rest) = source :: accepted s.file rest := by
          simp [accepted, hclean]
        have hkept : (s.run fuel source).2.wasRejected = false := by simpa [hclean] using hrejected
        rw [haccepted] at hvisits' ⊢
        obtain ⟨hhere', hrest'⟩ := List.forall_mem_append.mp hvisits'
        obtain ⟨hrun, hbeside⟩ := hb.run hclean hhere hhere' honce honce' fuel
        have ih := Beside.runAll honce honce' fuel rest hbeside hrest
        rw [file_run] at ih
        change (s'.run fuel source).2 :: (s'.run fuel source).1.runAll fuel (accepted s.file rest)
          = List.filter _ ((s.run fuel source).2 :: (s.run fuel source).1.runAll fuel rest)
        rw [List.filter_cons_of_pos (by simp [hkept]), ← hrun, ih hrest']
      · have haccepted : accepted s.file (source :: rest) = accepted s.file rest := by
          simp [accepted, hclean]
        have hdropped : (s.run fuel source).2.wasRejected = true := hrejected.mpr hclean
        have hmistake : (analyse s.node s.file source).diagnostics ≠ [] := by
          rwa [diagnostics_analyse]
        have hafter := run_of_diagnostics_ne_nil fuel hmistake
        rw [haccepted] at hvisits' ⊢
        change _ = List.filter _ ((s.run fuel source).2 :: (s.run fuel source).1.runAll fuel rest)
        rw [List.filter_cons_of_neg (by simp [hdropped])]
        rw [hafter] at hrest ⊢
        exact Beside.runAll honce honce' fuel rest (hb.withNode _) hrest hvisits'

/-- **A rejected source leaves no trace.**  Of the sources that are run one after the other in a fresh
session, whatever its nodes are counted from: those with mistakes are rejected for exactly these, print
nothing, and may be left out without a change to the runs of the others. -/
theorem runAll_rejected (file : Text) (node node' : Nat) (clock : Clock) (fuel : Nat)
    (sources : List Text) :
    List.Forall₂ (Rejects file) sources ((fresh file node clock).runAll fuel sources)
      ∧ (fresh file node' clock).runAll fuel
          (sources.filter fun source => (check file source).isEmpty)
        = ((fresh file node clock).runAll fuel sources).filter fun r => !r.wasRejected := by
  refine ⟨rejects_runAll fuel sources (fresh file node clock), ?_⟩
  have honce : ∀ (s : Session) (past : Past), MetOnce (s.visits past) :=
    fun s past v hv w hw hnode => eq_of_node_eq hv hw hnode
  change (fresh file node' clock).runAll fuel (accepted (fresh file node clock).file sources) = _
  exact Beside.runAll (honce (fresh file node clock) (pastOf fuel sources))
    (honce (fresh file node' clock) (pastOf fuel (accepted file sources))) fuel sources
    (.fresh _ _ file node node' clock) (fun _ hv => hv) fun _ hv => hv

end Session

end YouthLang

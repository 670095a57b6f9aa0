import YouthLang.Proofs.Rejection

/-!
# Proofs/Numbering — a session does not see how nodes are numbered

Sessions draw the numbers of their nodes from one count.  So between two nodes of a session the count
may move on, because other sessions number nodes of theirs, before a source is parsed or while it is.
A session that finds gaps of any size between its numbers (`Session.runAmong`) gives the same runs as a
session that has the count for itself (`runAmong_eq_runAll`): its nodes are still met once
(`numbered_visitsAmong`), and two sessions that differ in their numbers only run every source alike,
whether it is rejected (`run_eq_of_rejected`) or runs (`Session.Beside.run`).
-/

namespace YouthLang

namespace Session

/-- Sources run one after another, each with how many numbers others take before each of its nodes. -/
def runAmong (fuel : Nat) (s : Session) : List (List Nat × Text) → List Run
  | [] => []
  | (others, source) :: rest =>
    (s.run fuel source others).2 :: (s.run fuel source others).1.runAmong fuel rest

/-- What the walks over the sources meet. -/
def visitsAmong (fuel : Nat) (s : Session) : List (List Nat × Text) → List Visit
  | [] => []
  | (others, source) :: rest =>
    visitsOf (analyse s.node s.file source others).statements
      ++ (s.run fuel source others).1.visitsAmong fuel rest

variable {fuel : Nat}

/-- The nodes of a session have numbers of their own, whatever numbers others take. -/
theorem numbered_visitsAmong : ∀ (sources : List (List Nat × Text)) (s : Session),
    ∃ last, Numbered Token.Spelled s.node last ((s.visitsAmong fuel sources).map Visit.reference)
  | [], s => ⟨s.node, .nil (Nat.le_refl _)⟩
  | (others, source) :: rest, s => by
      obtain ⟨last, hlast⟩ := numbered_visitsAmong rest (s.run fuel source others).1
      have hhere := numbered_visitsOf s.node s.file source others
      rw [node_run] at hlast
      refine ⟨last, ?_⟩
      rw [visitsAmong, List.map_append]
      exact hhere.append hlast

theorem metOnce_visitsAmong (s : Session) (sources : List (List Nat × Text)) :
    MetOnce (s.visitsAmong fuel sources) := by
  intro v hv w hw hnode
  obtain ⟨_, hnumbered⟩ := @numbered_visitsAmong fuel sources s
  have hnodup := hnumbered.distinct
  rw [List.map_map] at hnodup
  exact List.inj_on_of_nodup_map hnodup hw hv hnode

theorem metOnce_visits (s : Session) (past : Past) : MetOnce (s.visits past) :=
  fun _ hv _ hw hnode => eq_of_node_eq hv hw hnode

/-- A rejected source is rejected alike in any session. -/
theorem run_eq_of_rejected {s s' : Session} {source : Text} (others : List Nat)
    (hfile : s.file = s'.file) (hmistake : check s.file source ≠ []) :
    (s.run fuel source others).2 = (s'.run fuel source).2 := by
  have hrejected : ∀ (t : Session) (others' : List Nat), t.file = s.file →
      (t.run fuel source others').2 = ⟨[], .rejected (check s.file source),
        (analyse s.node s.file source others).statements.length⟩ := by
    intro t others' ht
    have hdiagnostics : (analyse t.node t.file source others').diagnostics = check s.file source := by
      rw [diagnostics_analyse t.node t.file source others', ht]
    have hlength := (bodyAlike_iff.mp
      (statements_renumbered t.node s.node s.file source others' others)).length_eq
    rw [run, hdiagnostics]
    simp only [List.isEmpty_iff, hmistake, if_false, ht, hlength]
  rw [hrejected s others rfl, hrejected s' [] hfile.symm]

/-- Two sessions that differ in their numbers only run a source alike, be it rejected or not, and still
differ in no more afterwards. -/
theorem Beside.next {visits visits' : List Visit} (honce : MetOnce visits) (honce' : MetOnce visits')
    {s s' : Session} (hb : Beside visits visits' s s') {source : Text} (others : List Nat)
    (hhere : ∀ v ∈ visitsOf (analyse s.node s.file source others).statements, v ∈ visits)
    (hhere' : ∀ v ∈ visitsOf (analyse s'.node s'.file source).statements, v ∈ visits') :
    (s.run fuel source others).2 = (s'.run fuel source).2
      ∧ Beside visits visits' (s.run fuel source others).1 (s'.run fuel source).1 := by
  by_cases hclean : check s.file source = []
  · exact hb.run hclean hhere hhere' honce honce' fuel
  · refine ⟨run_eq_of_rejected others hb.file hclean, ?_⟩
    have hmistake : (analyse s.node s.file source others).diagnostics ≠ [] := by
      rwa [diagnostics_analyse s.node s.file source others]
    have hmistake' : (analyse s'.node s'.file source).diagnostics ≠ [] := by
      rwa [diagnostics_analyse, ← hb.file]
    rw [run_of_diagnostics_ne_nil fuel hmistake, run_of_diagnostics_ne_nil fuel hmistake']
    exact ⟨hb.file, hb.heap, hb.clock, hb.sound, hb.sound'⟩

/-- Two sessions that differ in their numbers only give the same runs, whatever numbers others take
before the nodes of the one. -/
theorem Beside.runAmong {visits visits' : List Visit} (honce : MetOnce visits)
    (honce' : MetOnce visits') : ∀ (sources : List (List Nat × Text)) {s s' : Session},
      Beside visits visits' s s' → (∀ v ∈ s.visitsAmong fuel sources, v ∈ visits) →
      (∀ v ∈ s'.visits (pastOf fuel (sources.map Prod.snd)), v ∈ visits') →
      s.runAmong fuel sources = s'.runAll fuel (sources.map Prod.snd)
  | [], _, _, _, _, _ => rfl
  | (others, source) :: rest, s, s', hb, hvisits, hvisits' => by
      obtain ⟨hhere, hrest⟩ := List.forall_mem_append.mp hvisits
      obtain ⟨hhere', hrest'⟩ := List.forall_mem_append.mp hvisits'
      have hstep : (s.run fuel source others).2 = (s'.run fuel source).2 ∧ _ :=
        hb.next honce honce' others hhere hhere'
      have ih := Beside.runAmong honce honce' rest hstep.2 hrest hrest'
      change (s.run fuel source others).2 :: _
        = (s'.run fuel source).2 :: (s'.run fuel source).1.runAll fuel (rest.map Prod.snd)
      rw [hstep.1, ih]

/-- **A session does not see how nodes are numbered.**  Sources run in a fresh session whose count
starts anywhere, and that others draw from as well, as in one that has the count for itself. -/
theorem runAmong_eq_runAll (file : Text) (node node' : Nat) (clock : Clock)
    (sources : List (List Nat × Text)) : (fresh file node clock).runAmong fuel sources
      = (fresh file node' clock).runAll fuel (sources.map Prod.snd) :=
  Beside.runAmong (metOnce_visitsAmong _ _) (metOnce_visits _ _) sources
    (.fresh _ _ file node node' clock) (fun _ hv => hv) fun _ hv => hv

theorem runAll_append (s : Session) (sources more : List Text) :
    s.runAll fuel (sources ++ more)
      = s.runAll fuel sources ++ (s.after (pastOf fuel sources)).runAll fuel more := by
  induction sources generalizing s with
  | nil => rfl
  | cons source sources ih => exact congrArg ((s.run fuel source).2 :: ·) (ih _)

/-- After one more source a session is the one that the source leaves. -/
theorem after_append_singleton (s : Session) (sources : List Text) (source : Text) :
    s.after (pastOf fuel (sources ++ [source]))
      = ((s.after (pastOf fuel sources)).run fuel source).1 := by
  induction sources generalizing s with
  | nil => rfl
  | cons first sources ih => exact ih _

/-- Sources run in a fresh session as they do when the count starts elsewhere. -/
theorem runAll_fresh_eq (file : Text) (node node' : Nat) (clock : Clock) (sources : List Text) :
    (fresh file node clock).runAll fuel sources = (fresh file node' clock).runAll fuel sources := by
  have hsources : (sources.map fun source => (([] : List Nat), source)).map Prod.snd = sources := by
    simp [Function.comp_def]
  calc (fresh file node clock).runAll fuel sources
      = (fresh file node clock).runAmong fuel (sources.map fun source => ([], source)) := by
        rw [runAmong_eq_runAll file node node, hsources]
    _ = (fresh file node' clock).runAll fuel sources := by
        rw [runAmong_eq_runAll file node node', hsources]

/-- A source runs behind others as it does when the count starts elsewhere. -/
theorem run_after_fresh_eq (file : Text) (node node' : Nat) (clock : Clock) (sources : List Text)
    (source : Text) : (((fresh file node clock).after (pastOf fuel sources)).run fuel source).2
      = (((fresh file node' clock).after (pastOf fuel sources)).run fuel source).2 := by
  have hall := @runAll_fresh_eq fuel file node node' clock (sources ++ [source])
  rw [runAll_append, runAll_append, runAll_fresh_eq file node node' clock sources] at hall
  exact (List.cons.inj (List.append_cancel_left hall)).1

/-- After some sources, sessions that differ in their numbers only still differ in no more. -/
theorem Beside.after {visits visits' : List Visit} (honce : MetOnce visits) (honce' : MetOnce visits') :
    ∀ (sources : List Text) {s s' : Session}, Beside visits visits' s s' →
      (∀ v ∈ s.visits (pastOf fuel sources), v ∈ visits) →
      (∀ v ∈ s'.visits (pastOf fuel sources), v ∈ visits') →
      Beside visits visits' (s.after (pastOf fuel sources)) (s'.after (pastOf fuel sources))
  | [], _, _, hb, _, _ => hb
  | source :: rest, s, s', hb, hvisits, hvisits' => by
      obtain ⟨hhere, hrest⟩ := List.forall_mem_append.mp hvisits
      obtain ⟨hhere', hrest'⟩ := List.forall_mem_append.mp hvisits'
      exact Beside.after honce honce' rest (hb.next honce honce' [] hhere hhere').2 hrest hrest'

/-- The clock is read as it is when the count starts elsewhere. -/
theorem clock_after_fresh_eq (file : Text) (node node' : Nat) (clock : Clock) (sources : List Text) :
    ((fresh file node clock).after (pastOf fuel sources)).machine.clock
      = ((fresh file node' clock).after (pastOf fuel sources)).machine.clock :=
  (Beside.after (metOnce_visits _ _) (metOnce_visits _ _) sources
    (.fresh _ _ file node node' clock) (fun _ hv => hv) fun _ hv => hv).clock

/-- A source runs in a fresh session as it does when the count starts elsewhere, whatever numbers others
take while it is parsed. -/
theorem run_fresh_eq (file source : Text) (node node' : Nat) (clock : Clock) (others : List Nat) :
    ((fresh file node clock).run fuel source others).2 = ((fresh file node' clock).run fuel source).2 :=
  (List.cons.inj (runAmong_eq_runAll file node node' clock [(others, source)])).1

end Session

end YouthLang

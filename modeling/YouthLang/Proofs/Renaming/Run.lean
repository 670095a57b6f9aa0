import YouthLang.Proofs.Renaming.Step
import YouthLang.Proofs.Renaming.Walk
import YouthLang.Proofs.Runs

/-!
# Proofs/Renaming/Run — the name of a local variable does not matter

Two machines that differ in the name of a variable stay so for a whole run (`Machine.Renamed.run`), so
they print the same lines and end alike.  Together with the walk over the renamed program this is
`Session.rename_alike`: a source that runs behind others may have a variable of a block, a function or a
method under any name that it does not use.
-/

namespace YouthLang

/-! ## Heaps in which nothing is renamed -/

section Unmarked

variable {R : Renaming}

theorem Frame.respell_spell_false : Frame.respell (R.spell false) = id :=
  funext fun frame => by simp [Frame.respell]

theorem forall₂_self {α : Type} {P Q : α → α → Prop} {xs ys : List α} (h : List.Forall₂ P xs ys)
    (hQ : ∀ x y, P x y → Q x x) : List.Forall₂ Q xs xs := by
  induction h with
  | nil => exact .nil
  | cons h _ ih => exact .cons (hQ _ _ h) ih

/-- A heap that some renaming relates to another one is related to itself with nothing renamed. -/
theorem Heap.Renamed.unmarked {R' : Renaming} {frameMarks : Nat → List Bool} {h h' : Heap}
    (hh : h.Renamed R' frameMarks h') : h.Renamed R (fun _ => [false]) h := by
  have hclosure : ∀ between : List Bool, true ∉ between → ∀ c c' : Closure,
      Closure.Renamed R' frameMarks h.frames.size between c c' →
      Closure.Renamed R (fun _ => [false]) h.frames.size between c c := fun _ hbetween _ _ hc =>
    ⟨.refl (by simpa using hbetween) _, rfl, rfl, hc.within⟩
  refine ⟨rfl, fun f => ?_, fun f p hp => ⟨(hh.nested f p hp).1, fun d => ?_⟩, ⟨hh.globals.1, rfl⟩,
    rfl, rfl, forall₂_self hh.closures (hclosure [] (by simp)), forall₂_self hh.youths ?_⟩
  · rw [List.headD_cons, Frame.respell_spell_false, Option.map_id, id]
  · cases d <;> rfl
  · exact fun y y' hy => ⟨rfl, forall₂_self hy.methods fun e e' he =>
      ⟨rfl, hclosure [false] (by simp) e.2 e'.2 he.2⟩⟩

/-- A heap without functions, of which the only frame is that of the globals. -/
theorem Heap.Renamed.ofClock (clock : Clock) :
    (Machine.ofClock clock).heap.Renamed R (fun _ => [false]) (Machine.ofClock clock).heap := by
  have hparent : ∀ f, (Machine.ofClock clock).heap.parent? f = none := fun f => by
    cases f <;> rfl
  refine ⟨rfl, fun f => ?_, fun f p hp => ?_, ⟨hparent _, rfl⟩, rfl, rfl, .nil, .nil⟩
  · rw [List.headD_cons, Frame.respell_spell_false, Option.map_id, id]
  · simp [hparent] at hp

end Unmarked

/-! ## Runs -/

section Runs

variable {R : Renaming} {ok : Distances → Visit → Prop} {m m' : Machine}

theorem Diagnostic.Renamed.calledFrom {d d' : Diagnostic} (h : d.Renamed R d') (function : Text)
    (line : Int) : (d.calledFrom function line).Renamed R (d'.calledFrom function line) := by
  obtain rfl | ⟨distance, hcause, hlexeme, rfl⟩ := h
  · exact .inl rfl
  · exact .inr ⟨distance, hcause, hlexeme, rfl⟩

/-- **One step keeps two machines alike** but for the name of the variable. -/
theorem Machine.Renamed.step (hm : m.Sound ok) (h : m.Renamed R m') : m.step.Renamed R m'.step := by
  obtain ⟨marks, ht, hcontrol⟩ := h
  obtain ⟨heap, clock, output, frame, D, depth, control, pending⟩ := m
  obtain ⟨heap', clock', output', frame', D', depth', control', pending'⟩ := m'
  obtain ⟨hheap, hclock, houtput, hframe, hD, hdepth, hwithin, hpending⟩ := id ht
  cases hcontrol with
  | eval he => exact ht.eval he
  | exec hs => exact ht.exec hs
  | value v =>
    -- Neither a block nor a call waits for a value.
    obtain ⟨b, scopes, hstands⟩ := id hm
    cases hpending with
    | ended => exact ht.turn .done
    | task hp hrest => exact (ht.withPending hrest).receive hp v
    | leave _ _ => cases hstands.awaits
    | call _ _ => cases hstands.awaits
  | done =>
    cases hpending with
    | ended => exact ht.turn .done
    | task hp hrest => exact (ht.withPending hrest).resume hp
    | leave hlt hrest =>
      exact ⟨marks, ⟨hheap, hclock, houtput, rfl, hD, hdepth, hlt, hrest⟩, .done⟩
    | call hlt hrest =>
      exact ⟨marks, ⟨hheap, hclock, houtput, rfl, rfl, congrArg (· - 1) hdepth, hlt, hrest⟩,
        .value .emptiness⟩
  | giving v =>
    cases hpending with
    | ended => exact ht.turn .done
    | task hp hrest => exact (ht.withPending hrest).takeGiven hp v
    | leave hlt hrest =>
      exact ⟨marks, ⟨hheap, hclock, houtput, rfl, hD, hdepth, hlt, hrest⟩, .giving v⟩
    | call hlt hrest =>
      exact ⟨marks, ⟨hheap, hclock, houtput, rfl, rfl, congrArg (· - 1) hdepth, hlt, hrest⟩,
        .value v⟩
  | failing hd =>
    cases hpending with
    | ended => exact ht.turn (.failing hd)
    | task hp hrest => exact (ht.withPending hrest).unwind hp hd
    | leave hlt hrest =>
      exact ⟨marks, ⟨hheap, hclock, houtput, rfl, hD, hdepth, hlt, hrest⟩, .failing hd⟩
    | call hlt hrest =>
      exact ⟨marks, ⟨hheap, hclock, houtput, rfl, rfl, congrArg (· - 1) hdepth, hlt, hrest⟩,
        .failing (Diagnostic.Renamed.calledFrom hd _ _)⟩

theorem Machine.Renamed.run (hm : m.Sound ok) (h : m.Renamed R m') :
    ∀ n, (m.run n).Renamed R (m'.run n)
  | 0 => h
  | n + 1 => by
      rw [run_succ, run_succ]
      exact (h.run hm n).step (hm.run n)

/-- Two machines of which both have ended or none, that have printed the same lines, and that have
failed alike but for the name of a variable if they have. -/
structure Machine.EndsRenamed (R : Renaming) (m m' : Machine) : Prop where
  hasEnded : m'.hasEnded = m.hasEnded
  lines : m'.lines = m.lines
  failure : Both (Diagnostic.Renamed R) m.failure? m'.failure?

theorem Waiting.isEmpty {marks : Nat → List Bool} {frames f : Nat} {D : Distances}
    {ps ps' : List Pending} (h : Waiting R marks frames f D ps ps') : ps'.isEmpty = ps.isEmpty := by
  cases h <;> rfl

theorem Machine.Renamed.ends (h : m.Renamed R m') : m.EndsRenamed R m' := by
  obtain ⟨marks, ht, hcontrol⟩ := h
  have hlines : m'.lines = m.lines := congrArg List.reverse ht.output
  have hempty := ht.pending.isEmpty
  generalize hc : m.control = c, hc' : m'.control = c' at hcontrol
  refine ⟨?_, hlines, ?_⟩
  · rw [hasEnded, hasEnded, hempty, hc, hc']
    cases hcontrol <;> rfl
  · rw [failure?, failure?, hc, hc']
    cases hcontrol with
    | failing hd => exact .inr ⟨_, _, rfl, rfl, hd⟩
    | _ => exact .inl ⟨rfl, rfl⟩

/-- Two machines about to run a program, and the same with a variable renamed. -/
theorem Machine.Renamed.load (hheap : m.heap.Renamed R (fun _ => [false]) m'.heap)
    (hclock : m'.clock = m.clock) (hglobals : globals < m.heap.frames.size)
    {program program' : List Stmt} {D : Distances} (h : BodyRenamed R D [false] program program') :
    (m.load program D).Renamed R (m'.load program' D) :=
  ⟨_, ⟨hheap, hclock, rfl, rfl, rfl, rfl, hglobals, .task (.program h) .ended⟩, .done⟩

end Runs

/-! ## Sessions -/

namespace Session

variable {file : Text} {node : Nat} {clock : Clock} {past : Past} {source : Text} {s : Session}
  {R : Renaming}

/-- Whatever the sources of a session were, its heap is related to itself with nothing renamed. -/
theorem unmarked_after {visits : List Visit} : ∀ (past : Past) {s : Session},
    s.machine.heap.Sound (Known visits) → (∀ v ∈ s.visits past, v ∈ visits) →
    s.machine.heap.Renamed R (fun _ => [false]) s.machine.heap →
      (s.after past).machine.heap.Renamed R (fun _ => [false]) (s.after past).machine.heap
  | [], _, _, _, h => h
  | (fuel, source) :: rest, s, hsound, hvisits, h => by
      obtain ⟨hhere, hrest⟩ := List.forall_mem_append.mp hvisits
      by_cases hclean : (analyse s.node s.file source).diagnostics = []
      · have hmachine := sound_machineAt hsound hclean hhere
        have hbody := @BodyRenamed.refl R (analyse s.node s.file source).distances [false] (by simp)
          (analyse s.node s.file source).statements
        have hloaded := Machine.Renamed.load h rfl hsound.globals.1 hbody
        obtain ⟨marks, ht, -⟩ := hloaded.run (hmachine 0) fuel
        refine unmarked_after rest ?_ hrest ?_
        · rw [run_of_diagnostics_eq_nil fuel hclean]
          exact (hmachine fuel).heap
        · rw [run_of_diagnostics_eq_nil fuel hclean]
          exact ht.heap.unmarked
      · refine unmarked_after rest ?_ hrest ?_
        · rwa [run_of_diagnostics_ne_nil fuel hclean]
        · rwa [run_of_diagnostics_ne_nil fuel hclean]

/-- The tokens of a source that does not use a name. -/
theorem formed_of_fresh {node : Nat} {name : Text} (hfresh : ∀ t ∈ (scan source).tokens, t.lexeme ≠ name)
    {token : Token} :
    Numbered (Renaming.Leaves ⟨token, name⟩) node (analyse node file source).node
        (bodyReferences (analyse node file source).statements)
      ∧ BodyFormed (Renaming.Leaves ⟨token, name⟩) (analyse node file source).statements :=
  parse_formed node (fun t ht => ⟨spelled_of_mem_tokens t ht, hfresh t ht⟩) (getLast?_tokens source)

/-- **The names of local variables do not matter.**  Behind any past of a session, a source without
mistakes whose variable of a block, a function or a method is given a name that the source does not use:
no mistake is found and no distance changes, and at every number of steps the two runs have printed the
same lines, and both have ended or none, with the same failure but for the name.  The new name may be that
of a global that an earlier source declared.  A token that declares no such variable renames nothing. -/
theorem rename_alike (hs : s = (fresh file node clock).after past)
    (hclean : (analyse s.node s.file source).diagnostics = []) (token : Token) {name : Text}
    (hname : name ≠ receiver) (hfresh : ∀ t ∈ (scan source).tokens, t.lexeme ≠ name) :
    let a := analyse s.node s.file source
    let renamed := renameVariable ⟨token, name⟩ a.distances a.statements
    (resolve renamed).diagnostics = [] ∧ (resolve renamed).distances = a.distances
      ∧ ∀ steps, Machine.EndsRenamed ⟨token, name⟩
        ((s.machine.load a.statements a.distances).run steps)
        ((s.machine.load renamed (resolve renamed).distances).run steps) := by
  intro a renamed
  obtain ⟨hnumbered, hformed⟩ := @formed_of_fresh file source s.node name hfresh token
  have hmistakes : (resolve a.statements).diagnostics = [] :=
    List.map_eq_nil_iff.mp (List.append_eq_nil_iff.mp hclean).2
  obtain ⟨hresolved, hdistances⟩ := resolve_renameVariable hmistakes hformed hnumbered.formed hname
    hnumbered.distinct
  refine ⟨hresolved, hdistances, fun steps => ?_⟩
  have hdistances : (resolve renamed).distances = a.distances := hdistances
  rw [hdistances]
  have hsound := @sound_of_eq_after file node clock past source 0 s hs hclean
  have hheap : s.machine.heap.Renamed ⟨token, name⟩ (fun _ => [false]) s.machine.heap := by
    subst hs
    exact unmarked_after past (Machine.sound_ofClock clock) (fun v hv => hv) (.ofClock clock)
  have hloaded := Machine.Renamed.load hheap rfl hsound.heap.globals.1
    (bodyRenamed hmistakes hformed hnumbered.formed a.distances)
  exact (hloaded.run hsound steps).ends

/-- The variable of a block under another name, behind a source that declares a global of that name. -/
theorem rename_alike_in_block :
    let s := (fresh [] 0 ⟨0, []⟩).after [(9, "is b;")]
    let a := analyse s.node s.file "( is a; a = emptiness; tell a; )"
    let renamed := renameVariable ⟨⟨.identifier, "a", ⟨1, 6⟩⟩, "b"⟩ a.distances a.statements
    (renamed.map fun | .block body => variablesOf body | _ => []) = [[⟨.identifier, "b", ⟨1, 6⟩⟩]]
      ∧ (resolve renamed).diagnostics = []
      ∧ ((s.machine.load renamed (resolve renamed).distances).run 40).lines
        = ((s.machine.load a.statements a.distances).run 40).lines := by
  intro s a renamed
  obtain ⟨hclean, -, hends⟩ := @rename_alike [] 0 ⟨0, []⟩ [(9, "is b;")]
    "( is a; a = emptiness; tell a; )" s rfl (by decide +kernel) ⟨.identifier, "a", ⟨1, 6⟩⟩ "b"
    (by decide) (by decide +kernel)
  exact ⟨by decide +kernel, hclean, (hends 40).lines⟩

end Session

end YouthLang

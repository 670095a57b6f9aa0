import YouthLang.Proofs.Runs
import YouthLang.Proofs.Simulation.Step

/-!
# Proofs/Simulation/Run — two runs in step

Two machines that start in step stay so until the second is through (`Machine.Alike.run`).  Then one of
two things happens.  If the first machine has no more statements, both end with the next step, so the
two runs end alike at every number of steps (`Machine.Alike.run_endsAlike`).  If it has, then it is in
step with the second machine once that one has loaded them (`Machine.Alike.load`).
-/

namespace YouthLang

/-! ## Machines that are through -/

namespace Machine

variable {m : Machine}

/-- A run is not through, or it was so first at some step. -/
theorem exists_first_through (n : Nat) : (∀ j < n, ¬ (m.run j).IsThrough)
    ∨ ∃ j < n, (m.run j).IsThrough ∧ ∀ i < j, ¬ (m.run i).IsThrough := by
  induction n with
  | zero => exact .inl fun j hj => absurd hj (Nat.not_lt_zero j)
  | succ n ih =>
    obtain hnone | ⟨j, hj, hthrough⟩ := ih
    · by_cases hn : (m.run n).IsThrough
      · exact .inr ⟨n, Nat.lt_succ_self n, hn, hnone⟩
      · refine .inl fun j hj => ?_
        obtain hlt | rfl := Nat.lt_succ_iff_lt_or_eq.mp hj
        · exact hnone j hlt
        · exact hn
    · exact .inr ⟨j, Nat.lt_succ_of_lt hj, hthrough⟩

theorem IsThrough.step (h : m.IsThrough) : m.step = { m with pending := [] } := by
  obtain ⟨heap, clock, output, frame, distances, depth, control, pending⟩ := m
  obtain ⟨rfl, rfl⟩ := h
  rfl

/-- A machine that is through ends with the next step, without a failure. -/
theorem IsThrough.run_of_lt {j n : Nat} (h : (m.run j).IsThrough) (hlt : j < n) :
    m.run n = { m.run j with pending := [] } := by
  have hended : (m.run (j + 1)).hasEnded := by
    rw [run_succ, h.step]
    simp [hasEnded, h.1]
  rw [run_of_le hended hlt, run_succ, h.step]

end Machine

/-! ## Runs in step -/

section Runs

variable {L N : Nat → Nat → Prop} {more : List Stmt} {before : List Text} {m m' : Machine}

/-- Two machines of which both have ended or none, that have printed the same lines, but for some that
the first one had printed before, and that have failed alike if they have. -/
structure Machine.EndsAlike (L : Nat → Nat → Prop) (before : List Text) (m m' : Machine) : Prop where
  hasEnded : m.hasEnded = m'.hasEnded
  output : m.output = m'.output ++ before
  failure : Both (Diagnostic.Alike L) m.failure? m'.failure?

theorem Queued.isEmpty {f n : Nat} {ps ps' : List Pending} (h : Queued L N more f n ps ps') :
    ps.isEmpty = false ∧ ps'.isEmpty = false := by
  cases h <;> exact ⟨rfl, rfl⟩

theorem Control.Alike.failure? (h : Control.Alike L N m.control m'.control) :
    Both (Diagnostic.Alike L) m.failure? m'.failure? := by
  unfold Machine.failure?
  generalize m.control = c, m'.control = c' at h
  cases h with
  | failing h => exact .inr ⟨_, _, rfl, rfl, h⟩
  | _ => exact .inl ⟨rfl, rfl⟩

namespace Machine.Alike

/-- Machines in step end only by failing. -/
theorem endsAlike (ha : Machine.Alike L N more before m m') : EndsAlike L before m m' := by
  cases ha with
  | running hbeside hcontrol =>
    obtain ⟨hpending, hpending'⟩ := hbeside.pending.isEmpty
    exact ⟨by simp only [hasEnded, hpending, hpending', Bool.false_and], hbeside.output,
      hcontrol.failure?⟩
  | @failed d d' _ _ houtput hpending hpending' hcontrol hcontrol' hd =>
    exact ⟨by simp only [hasEnded, hpending, hpending', hcontrol, hcontrol'], houtput,
      .inr ⟨d, d', by simp only [failure?, hcontrol], by simp only [failure?, hcontrol'], hd⟩⟩

theorem heap (ha : Machine.Alike L N more before m m') : m.heap.Alike L N m'.heap := by
  cases ha with
  | running hbeside _ => exact hbeside.heap
  | failed hheap _ => exact hheap

theorem clock (ha : Machine.Alike L N more before m m') : m.clock = m'.clock := by
  cases ha with
  | running hbeside _ => exact hbeside.clock
  | failed _ hclock => exact hclock

theorem failure?_isSome (ha : Machine.Alike L N more before m m') (hended : m'.hasEnded) :
    m'.failure?.isSome := by
  cases ha with
  | running hbeside _ => simp [hasEnded, hbeside.pending.isEmpty.2] at hended
  | failed _ _ _ _ _ _ hcontrol' _ => simp only [failure?, hcontrol', Option.isSome_some]

/-- A machine in step with one that is through has only its other statements left. -/
theorem of_isThrough (ha : Machine.Alike L N more before m m') (h : m'.IsThrough) :
    Beside L N more before m m' ∧ m.control = .done ∧ m.frame = globals ∧ m.depth = 0
      ∧ m.pending = [.program more] := by
  obtain ⟨hdone, hprogram⟩ := h
  cases ha with
  | failed _ _ _ _ hpending' => simp [hprogram] at hpending'
  | running hbeside hcontrol =>
    have hqueued := hbeside.pending
    rw [hdone] at hcontrol
    rw [hprogram] at hqueued
    generalize hc : m.control = c at hcontrol
    generalize hf : m.frame = f at hqueued
    generalize hn : m.depth = n at hqueued
    generalize hp : m.pending = ps at hqueued
    cases hcontrol
    cases hqueued with
    | program h =>
      cases h
      exact ⟨hbeside, rfl, rfl, rfl, rfl⟩
    | task h _ => cases h

/-- **The next source of a session is in step with the other statements of a single one.** -/
theorem load (ha : Machine.Alike L N more before m m') (h : m'.IsThrough) {body : List Stmt}
    (hbody : BodyAlike (Token.Alike L) N more body) (D : Distances) :
    Machine.Alike L N [] (m'.output ++ before) m (Machine.load { m' with pending := [] } body D) := by
  obtain ⟨hbeside, hcontrol, hframe, hdepth, hpending⟩ := ha.of_isThrough h
  refine .running ⟨hbeside.heap, hbeside.clock, hbeside.output, hframe, hdepth, ?_⟩ ?_
  · rw [hframe, hdepth, hpending, ← List.append_nil more]
    exact .program hbody
  · rw [hcontrol]
    exact .done

end Machine.Alike

variable {visits visits' : List Visit}

/-- **Two machines stay in step** as long as the second is not through. -/
theorem Machine.Alike.run (honce : MetOnce visits) (honce' : MetOnce visits')
    (hm : m.Sound (Known visits)) (hm' : m'.Sound (Known visits'))
    (ha : Machine.Alike L (Linked (· ∈ visits) (· ∈ visits')) more before m m') :
    ∀ n, (∀ j < n, ¬ (m'.run j).IsThrough) →
      Machine.Alike L (Linked (· ∈ visits) (· ∈ visits')) more before (m.run n) (m'.run n)
  | 0, _ => ha
  | n + 1, hrun => by
      rw [run_succ, run_succ]
      refine Machine.Alike.step honce honce' (hm.run n) (hm'.run n) ?_ (hrun n (Nat.lt_succ_self n))
      exact ha.run honce honce' hm hm' n fun j hj => hrun j (Nat.lt_succ_of_lt hj)

/-- **Two machines with the same statements end alike.** -/
theorem Machine.Alike.run_endsAlike (honce : MetOnce visits) (honce' : MetOnce visits')
    (hm : m.Sound (Known visits)) (hm' : m'.Sound (Known visits'))
    (ha : Machine.Alike L (Linked (· ∈ visits) (· ∈ visits')) [] before m m') (n : Nat) :
    EndsAlike L before (m.run n) (m'.run n) := by
  obtain hnone | ⟨j, hj, hthrough, hfirst⟩ := @Machine.exists_first_through m' n
  · exact (ha.run honce honce' hm hm' n hnone).endsAlike
  · have hat := ha.run honce honce' hm hm' j hfirst
    obtain ⟨hbeside, hcontrol, -, -, hpending⟩ := hat.of_isThrough hthrough
    have hthrough' : (m.run j).IsThrough := ⟨hcontrol, hpending⟩
    rw [hthrough.run_of_lt hj, hthrough'.run_of_lt hj]
    refine ⟨?_, hbeside.output, .inl ⟨?_, ?_⟩⟩
    · simp only [hasEnded, hcontrol, hthrough.1]
    · simp only [failure?, hcontrol]
    · simp only [failure?, hthrough.1]

/-- **Two machines with the same statements leave alike heaps**, and the same readings of the clock. -/
theorem Machine.Alike.run_leavesAlike (honce : MetOnce visits) (honce' : MetOnce visits')
    (hm : m.Sound (Known visits)) (hm' : m'.Sound (Known visits'))
    (ha : Machine.Alike L (Linked (· ∈ visits) (· ∈ visits')) [] before m m') (n : Nat) :
    (m.run n).heap.Alike L (Linked (· ∈ visits) (· ∈ visits')) (m'.run n).heap
      ∧ (m.run n).clock = (m'.run n).clock := by
  obtain hnone | ⟨j, hj, hthrough, hfirst⟩ := @Machine.exists_first_through m' n
  · have hat := ha.run honce honce' hm hm' n hnone
    exact ⟨hat.heap, hat.clock⟩
  · have hat := ha.run honce honce' hm hm' j hfirst
    obtain ⟨-, hcontrol, -, -, hpending⟩ := hat.of_isThrough hthrough
    have hthrough' : (m.run j).IsThrough := ⟨hcontrol, hpending⟩
    rw [hthrough.run_of_lt hj, hthrough'.run_of_lt hj]
    exact ⟨hat.heap, hat.clock⟩

end Runs

end YouthLang

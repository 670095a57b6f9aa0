import YouthLang.Proofs.Sessions

/-!
# Proofs/Runs — how a run ends

A run is the repetition of a step, and a machine that has ended stays as it is (`Machine.run_succ`,
`Machine.run_of_le`).  So a source that has ended in some number of steps ends in the same way whatever
more it is allowed (`Session.run_eq_of_le`).
-/

namespace YouthLang

/-! ## Machines -/

namespace Machine

variable {m : Machine}

theorem step_of_hasEnded (h : m.hasEnded) : m.step = m := by
  obtain ⟨hpending, hcontrol⟩ := Bool.and_eq_true_iff.mp h
  have hnil : m.pending = [] := List.isEmpty_iff.mp hpending
  split at hcontrol
  · next hdone => simp only [step, hdone, hnil]
  · next d hfailing => simp only [step, hfailing, hnil]
  · exact absurd hcontrol (by simp)

theorem run_of_hasEnded (h : m.hasEnded) (n : Nat) : m.run n = m := by
  cases n with
  | zero => rfl
  | succ n => rw [run, if_pos h]

theorem run_step (n : Nat) : m.step.run n = m.run (n + 1) := by
  by_cases h : m.hasEnded
  · rw [step_of_hasEnded h, run_of_hasEnded h, run_of_hasEnded h]
  · exact (if_neg h).symm

theorem run_succ (n : Nat) : m.run (n + 1) = (m.run n).step := by
  induction n generalizing m with
  | zero => exact (run_step 0).symm
  | succ n ih => rw [← run_step, ih, run_step]

theorem run_add (n k : Nat) : m.run (n + k) = (m.run n).run k := by
  induction k with
  | zero => rfl
  | succ k ih => rw [← Nat.add_assoc, run_succ, ih, run_succ]

/-- More steps than it takes to end change nothing. -/
theorem run_of_le {n k : Nat} (h : (m.run n).hasEnded) (hle : n ≤ k) : m.run k = m.run n := by
  obtain ⟨d, rfl⟩ := Nat.exists_eq_add_of_le hle
  rw [run_add, run_of_hasEnded h]

end Machine

/-! ## Sources -/

namespace Session

variable {s : Session} {source : Text} {fuel : Nat}

/-- What the run of a source without mistakes reports. -/
theorem report_run {others : List Nat} (hclean : (analyse s.node s.file source others).diagnostics = []) :
    (s.run fuel source others).2.output = (s.machineAt source fuel others).lines
      ∧ (s.run fuel source others).2.outcome =
        if (s.machineAt source fuel others).hasEnded then
          match (s.machineAt source fuel others).failure? with
          | some d => .failed (d.decorate s.file source)
          | none => .finished
        else .unfinished := by
  have hempty : (analyse s.node s.file source others).diagnostics.isEmpty :=
    List.isEmpty_iff.mpr hclean
  rw [run, if_pos hempty]
  exact ⟨rfl, rfl⟩

variable (hclean : (analyse s.node s.file source).diagnostics = [])

include hclean

theorem outcome_eq_unfinished_iff : (s.run fuel source).2.outcome = .unfinished
    ↔ (s.machineAt source fuel).hasEnded = false := by
  rw [(report_run hclean).2]
  split
  · next h => split <;> simp [h]
  · next h => simpa using h

theorem outcome_eq_finished_iff : (s.run fuel source).2.outcome = .finished
    ↔ (s.machineAt source fuel).hasEnded ∧ (s.machineAt source fuel).failure? = none := by
  rw [(report_run hclean).2]
  split
  · next h => split <;> simp [*]
  · next h => simp [h]

theorem outcome_eq_failed_iff {d : Diagnostic} : (s.run fuel source).2.outcome = .failed d
    ↔ (s.machineAt source fuel).hasEnded
      ∧ ∃ e, (s.machineAt source fuel).failure? = some e ∧ e.decorate s.file source = d := by
  rw [(report_run hclean).2]
  split
  · next h => split <;> simp [*]
  · next h => simp [h]

theorem hasEnded_of_outcome (hended : (s.run fuel source).2.outcome ≠ .unfinished) :
    (s.machineAt source fuel).hasEnded := by
  rw [ne_eq, outcome_eq_unfinished_iff hclean] at hended
  simpa using hended

/-- A source without mistakes that has ended has done so well or has failed. -/
theorem finished_or_failed (hended : (s.run fuel source).2.outcome ≠ .unfinished) :
    (s.run fuel source).2.outcome = .finished ∨ ∃ d, (s.run fuel source).2.outcome = .failed d := by
  have hend := hasEnded_of_outcome hclean hended
  cases hfailure : (s.machineAt source fuel).failure? with
  | none => exact .inl ((outcome_eq_finished_iff hclean).mpr ⟨hend, hfailure⟩)
  | some e => exact .inr ⟨_, (outcome_eq_failed_iff hclean).mpr ⟨hend, e, hfailure, rfl⟩⟩

/-- More steps than a source takes change nothing. -/
theorem run_eq_of_le (hended : (s.run fuel source).2.outcome ≠ .unfinished) {k : Nat}
    (hle : fuel ≤ k) : s.run k source = s.run fuel source := by
  have hat : s.machineAt source k = s.machineAt source fuel :=
    Machine.run_of_le (hasEnded_of_outcome hclean hended) hle
  unfold machineAt at hat
  simp only [run, hat]

end Session

end YouthLang

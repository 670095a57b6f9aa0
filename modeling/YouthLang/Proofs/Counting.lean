import YouthLang.Proofs.Counting.Grammar
import YouthLang.Proofs.Counting.Simulation
import YouthLang.Proofs.Excerpts

/-!
# Proofs/Counting — counting loops mean what they stand for

A source is read as a program of the language with counting loops, resolved there and run there
(`Counting.runSource`).  It ends in the very way in which it ends when the parser builds what each
loop stands for and a machine runs that: with the same lines and the same mistakes, or not at all
(`runSource_ends_iff`).

One direction is that a machine follows a run (`followed`).  The other one comes with it: while a
run asks for more fuel the machine has not ended either, so a run with enough fuel ends once the
machine does, and a machine ends in one way only.
-/

namespace YouthLang.Counting

/-! ## Programs -/

section Programs

variable {D D' : Distances} {T : Pairs} {scopes scopes' : List Scope} {w : World} {m : Machine}
  {n : Nat}

/-- **A machine follows a program**: its declarations, one behind the other. -/
theorem follows_program {program : List Decl}
    (hb : Beside D D' T ⟨[.both], scopes, scopes', Machine.globals, Machine.globals, 0⟩ w m)
    (hs : Site.SettlesBody D D' ⟨[.both], scopes, scopes', Machine.globals, Machine.globals, 0⟩
      program)
    (hc : m.control = .done) (hp : m.pending = [.program (desugarBody program)]) :
    Follows (n - 1) m [] (fun _ w m => m.control = .done ∧ m.pending = [] ∧ m.output = w.output)
      (performProgram D n program w) := by
  have hstep := Machine.step_of_done hc hp
  induction program generalizing T scopes scopes' w m with
  | nil => exact Follows.of_step hstep (.ended ⟨rfl, rfl, hb.output.symm⟩)
  | cons d program ih =>
    obtain ⟨⟨b, hs⟩, b', hs'⟩ := hs
    refine Follows.of_step hstep (Follows.mono ?_ (Nat.sub_le _ 1))
    have hperformed := (followed n).perform
      (hb.going (.exec d.desugar) [.program (desugarBody program)]) hs.1 hs'.1 rfl
    refine Follows.bind [.program _] hperformed (by simp [IsPassed]) fun given w₁ m₁ h => ?_
    obtain ⟨T₁, hb₁, ho₁, hc₁, hpending₁⟩ := h
    cases given with
    | none =>
      exact ih hb₁ ⟨⟨b, hs.2⟩, b', hs'.2⟩ hc₁ hpending₁ (Machine.step_of_done hc₁ hpending₁)
    | some v =>
      refine Follows.of_step (Machine.step_of_giving hc₁ hpending₁)
        (Follows.mono ?_ (Nat.sub_le _ 1))
      exact ih (hb₁.going .done [.program (desugarBody program)]) ⟨⟨b, hs.2⟩, b', hs'.2⟩ rfl rfl rfl

/-- At the start of a program the globals are twins, and there is nothing else. -/
theorem beside_load (clock : Clock) (statements : List YouthLang.Stmt) :
    Beside D D' (fun f f' => f = Machine.globals ∧ f' = Machine.globals)
      ⟨[.both], [[]], [[]], Machine.globals, Machine.globals, 0⟩ (World.ofClock clock)
      ((Machine.ofClock clock).load statements D') := by
  refine ⟨⟨?_, rfl, rfl, rfl, rfl⟩, rfl, .globals ⟨rfl, rfl⟩, .both [] .nil,
    .globals Nat.zero_lt_one rfl fun name hl => absurd hl (by simp)⟩
  refine ⟨⟨rfl, rfl⟩, ?_, ?_, ?_, ?_, rfl, rfl, ?_, ?_⟩
  · rintro f g g' ⟨-, rfl⟩ ⟨-, rfl⟩
    rfl
  · rintro f f' g ⟨rfl, -⟩ ⟨rfl, -⟩
    rfl
  · rintro f f' ⟨rfl, rfl⟩
    exact ⟨Nat.zero_lt_one, Nat.zero_lt_one⟩
  · rintro f f' ⟨rfl, rfl⟩ name
    rfl
  · exact .nil
  · exact .nil

end Programs

/-! ## Sources -/

/-- A source read as a program with counting loops, ready to run if no mistake was found. -/
structure Analysis where
  statements : List Decl
  distances : Distances
  diagnostics : List Diagnostic

/-- A source analysed. -/
def analyse (file source : Text) : Analysis :=
  let scanned := scan source
  let parsed := parse scanned.tokens
  let resolved := resolve parsed.statements
  { statements := parsed.statements
    distances := resolved.distances
    diagnostics := (scanned.diagnostics ++ parsed.diagnostics ++ resolved.diagnostics).map
      (·.decorate file source) }

/-- A source run with some fuel. -/
def runSource (fuel : Nat) (clock : Clock) (file source : Text) : Run :=
  let a := analyse file source
  if a.diagnostics.isEmpty then
    match performProgram a.distances fuel a.statements (World.ofClock clock) with
    | .ended _ w => ⟨w.output.reverse, .finished, a.statements.length⟩
    | .failed d w => ⟨w.output.reverse, .failed (d.decorate file source), a.statements.length⟩
    | .unfinished => ⟨[], .unfinished, a.statements.length⟩
  else ⟨[], .rejected a.diagnostics, a.statements.length⟩

/-- A run that is bounded somehow comes to its end, if the bound is high enough. -/
def Ends (run : Nat → Run) (r : Run) : Prop := r.outcome ≠ .unfinished ∧ ∃ fuel, run fuel = r

section Sources

variable {clock : Clock} {file source : Text} {fuel : Nat}

/-- A source stands for what the parser makes of it, and has the same mistakes. -/
theorem analyse_desugar (file source : Text) :
    (YouthLang.analyse 0 file source).statements = desugarBody (analyse file source).statements
      ∧ (YouthLang.analyse 0 file source).diagnostics = (analyse file source).diagnostics := by
  obtain ⟨hstatements, hdiagnostics⟩ := parse_desugar (scan source).tokens
  refine ⟨hstatements, ?_⟩
  simp only [YouthLang.analyse, programOf_eq, analyse, hstatements, hdiagnostics, diagnostics_resolve,
    List.map_append, List.append_assoc]

/-- What the machine of a source does, beside a run of the source. -/
theorem follows_source (hclean : (analyse file source).diagnostics = []) :
    Follows (fuel - 1) ((Session.fresh file 0 clock).machineAt source 0) []
      (fun _ w m => m.control = .done ∧ m.pending = [] ∧ m.output = w.output)
      (performProgram (analyse file source).distances fuel (analyse file source).statements
        (World.ofClock clock)) := by
  obtain ⟨hstatements, hdiagnostics⟩ := analyse_desugar file source
  obtain ⟨hnumbered, hformed⟩ := analyse_formed 0 file source
  have hdistances : (YouthLang.analyse 0 file source).distances
      = (YouthLang.resolve (YouthLang.analyse 0 file source).statements).distances := rfl
  have hresolved : (YouthLang.resolve (YouthLang.analyse 0 file source).statements).diagnostics
      = [] :=
    List.map_eq_nil_iff.mp (List.append_eq_nil_iff.mp (hdiagnostics.trans hclean)).2
  rw [hstatements] at hnumbered hformed hresolved hdistances
  obtain ⟨hsettled, hsettled'⟩ := settled_of_clean hnumbered hformed hresolved
  rw [← hdistances] at hsettled'
  refine follows_program (beside_load clock (YouthLang.analyse 0 file source).statements)
    ⟨⟨false, hsettled⟩, false, hsettled'⟩ rfl ?_
  rw [← hstatements]
  rfl

/-- How the machine of a source reports its run. -/
theorem runSource_of_clean {k : Nat} (hclean : (YouthLang.analyse 0 file source).diagnostics = [])
    {m : Machine} (hm : ((Session.fresh file 0 clock).machineAt source 0).run k = m) :
    YouthLang.runSource k clock file source
      = ⟨m.lines, if m.hasEnded then
          match m.failure? with
          | some d => .failed (d.decorate file source)
          | none => .finished
        else .unfinished, (YouthLang.analyse 0 file source).statements.length⟩ := by
  have hempty : (YouthLang.analyse 0 file source).diagnostics.isEmpty := List.isEmpty_iff.mpr hclean
  subst hm
  exact congrArg Prod.snd (if_pos hempty)

/-- A run of a source that ends is the run of a machine. -/
theorem exists_runSource_eq (hended : (runSource fuel clock file source).outcome ≠ .unfinished) :
    ∃ k, YouthLang.runSource k clock file source = runSource fuel clock file source := by
  obtain ⟨hstatements, hdiagnostics⟩ := analyse_desugar file source
  have hlength : (YouthLang.analyse 0 file source).statements.length
      = (analyse file source).statements.length := by
    rw [hstatements, desugarBody_eq_map, List.length_map]
  unfold runSource at hended ⊢
  -- Both parsers report the same, so either both languages run the source or neither does.
  by_cases hclean : (analyse file source).diagnostics = []
  · have hempty : (analyse file source).diagnostics.isEmpty := List.isEmpty_iff.mpr hclean
    have hfollows := @follows_source clock file source fuel hclean
    simp only [if_pos hempty] at hended ⊢
    cases hrun : performProgram (analyse file source).distances fuel
        (analyse file source).statements (World.ofClock clock) with
    | ended a w =>
      rw [hrun] at hfollows
      obtain ⟨k, hcontrol, hpending, houtput⟩ := hfollows
      refine ⟨k, ?_⟩
      rw [runSource_of_clean (hdiagnostics.trans hclean) rfl]
      simp [Machine.lines, Machine.hasEnded, Machine.failure?, hcontrol, hpending, houtput, hlength]
    | failed d w =>
      rw [hrun] at hfollows
      obtain ⟨k, hcontrol, hpending, houtput⟩ := hfollows
      refine ⟨k, ?_⟩
      rw [runSource_of_clean (hdiagnostics.trans hclean) rfl]
      simp [Machine.lines, Machine.hasEnded, Machine.failure?, hcontrol, hpending, houtput, hlength]
    | unfinished => exact absurd rfl (hrun ▸ hended)
  · have hdirty : (analyse file source).diagnostics.isEmpty = false := by
      simpa [List.isEmpty_eq_false_iff] using hclean
    refine ⟨0, ?_⟩
    simp only [YouthLang.runSource, Session.run, Session.fresh, hdiagnostics, hdirty, hlength]
    rfl

/-- While a run of a source asks for more fuel, its machine has not ended. -/
theorem unfinished_of_unfinished (hrun : (runSource fuel clock file source).outcome = .unfinished) :
    (YouthLang.runSource (fuel - 1) clock file source).outcome = .unfinished := by
  have hdiagnostics := (analyse_desugar file source).2
  unfold runSource at hrun
  by_cases hclean : (analyse file source).diagnostics = []
  · have hempty : (analyse file source).diagnostics.isEmpty := List.isEmpty_iff.mpr hclean
    have hfollows := @follows_source clock file source fuel hclean
    simp only [if_pos hempty] at hrun
    cases hperformed : performProgram (analyse file source).distances fuel
        (analyse file source).statements (World.ofClock clock) with
    | unfinished =>
      rw [hperformed] at hfollows
      rw [Follows] at hfollows
      rw [runSource_of_clean (hdiagnostics.trans hclean) rfl]
      simp [hfollows]
    | _ =>
      rw [hperformed] at hrun
      exact absurd hrun (by simp)
  · have hdirty : ¬ (analyse file source).diagnostics.isEmpty := by
      simpa [List.isEmpty_iff] using hclean
    rw [if_neg hdirty] at hrun
    exact absurd hrun (by simp)

/-- Two runs of one source that come to their ends are the same. -/
theorem runSource_unique {k j : Nat}
    (hk : (YouthLang.runSource k clock file source).outcome ≠ .unfinished)
    (hj : (YouthLang.runSource j clock file source).outcome ≠ .unfinished) :
    YouthLang.runSource k clock file source = YouthLang.runSource j clock file source := by
  by_cases hclean : (YouthLang.analyse 0 file source).diagnostics = []
  · rcases Nat.le_total k j with hle | hle
    · exact (congrArg Prod.snd (Session.run_eq_of_le hclean hk hle)).symm
    · exact congrArg Prod.snd (Session.run_eq_of_le hclean hj hle)
  · have hdirty : ¬ (YouthLang.analyse 0 file source).diagnostics.isEmpty := by
      simpa [List.isEmpty_iff] using hclean
    have hrejected : ∀ fuel, (YouthLang.runSource fuel clock file source) = _ := fun fuel =>
      congrArg Prod.snd (if_neg hdirty)
    rw [hrejected, hrejected]

/-- **A counting loop means what it stands for**: a source ends with its counting loops run as they
are just as it ends with every one replaced by what it stands for — with the same lines, and in the
same way. -/
theorem runSource_ends_iff (clock : Clock) (file source : Text) (r : Run) :
    Ends (fun fuel => runSource fuel clock file source) r
      ↔ Ends (fun fuel => YouthLang.runSource fuel clock file source) r := by
  refine and_congr_right fun hr => ⟨?_, ?_⟩
  · rintro ⟨fuel, rfl⟩
    exact exists_runSource_eq hr
  · rintro ⟨k, rfl⟩
    refine ⟨k + 1, ?_⟩
    have hended : (runSource (k + 1) clock file source).outcome ≠ .unfinished := fun hunfinished =>
      hr (unfinished_of_unfinished hunfinished)
    obtain ⟨j, hj⟩ := exists_runSource_eq hended
    exact hj.symm.trans (runSource_unique (hj ▸ hended) hr)

/-- The variable of a loop is one for all its rounds: a function made in a round sees the increment. -/
example : (runSource 20 ⟨0, []⟩ []
    "is f; for (is i = surely; i; i = impossible) ( listen g() ( give i; ) f = g; ) tell f();").output
      = ["false"] := by
  cbv

end Sources

end YouthLang.Counting

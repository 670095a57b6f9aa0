import YouthLang.Report
import YouthLang.Proofs.Workers

/-!
# Proofs/Totals — suites, totals and reports agree

Results are grouped by folder in the order in which the folders first come up, each with its results in
order (`suitesOf_eq`), and no result is lost or told twice (`perm_suitesOf`).  So the totals, the flags
of a JSON report and the counts of a JUnit report all count the same results.  With `Proofs/Workers`
this gives what scripts come to, whatever the workers do (`SuiteRun.ofWorkers_reports`).
-/

namespace YouthLang

/-- The results that ended in a certain way. -/
def countOf (status : Status) (results : List TestResult) : Nat :=
  results.countP (·.status = status)

/-- Every result ended in one of three ways. -/
theorem countOf_add (results : List TestResult) :
    countOf .passed results + countOf .failed results + countOf .skipped results
      = results.length := by
  induction results with
  | nil => rfl
  | cons r results ih =>
    cases hstatus : r.status <;>
      simp only [countOf, List.countP_cons, hstatus, List.length_cons] at ih ⊢ <;> simp <;> omega

/-! ## Suites -/

/-- The suite of a folder among results. -/
def suiteIn (results : List TestResult) (folder : Text) : Suite :=
  let inside := results.filter fun r => Path.folder r.file = folder
  ⟨folder, inside, (inside.map TestResult.duration).sum⟩

/-- Another folder's suite does not see a result. -/
theorem suiteIn_append_of_ne {results : List TestResult} {r : TestResult} {folder : Text}
    (h : Path.folder r.file ≠ folder) : suiteIn (results ++ [r]) folder = suiteIn results folder := by
  simp [suiteIn, List.filter_append, h]

/-- A result is put with its folder's, or starts a suite at the end if it is the first one of its
folder. -/
theorem addResult_map {results : List TestResult} {r : TestResult} : ∀ {folders : List Text},
    folders.Nodup →
    (Path.folder r.file ∉ folders → ∀ x ∈ results, Path.folder x.file ≠ Path.folder r.file) →
    addResult (folders.map (suiteIn results)) r
      = (if Path.folder r.file ∈ folders then folders else folders ++ [Path.folder r.file]).map
          (suiteIn (results ++ [r]))
  | [], _, hnew => by
      have hnone : results.filter (fun x => Path.folder x.file = Path.folder r.file) = [] :=
        List.filter_eq_nil_iff.mpr fun x hx => by simpa using hnew List.not_mem_nil x hx
      simp [addResult, suiteIn, hnone]
  | folder :: folders, hnodup, hnew => by
      -- The folders are distinct, so at most one of their suites sees the result.
      obtain ⟨hhead, hnodup⟩ := List.nodup_cons.mp hnodup
      by_cases heq : folder = Path.folder r.file
      · subst heq
        have hrest : folders.map (suiteIn (results ++ [r])) = folders.map (suiteIn results) :=
          List.map_congr_left fun folder hmem =>
            suiteIn_append_of_ne fun h => hhead (h ▸ hmem)
        simp [addResult, hrest, suiteIn]
      · have ih := addResult_map hnodup fun hmem =>
          hnew (by simp [Ne.symm heq, hmem])
        have hhere : suiteIn (results ++ [r]) folder = suiteIn results folder :=
          suiteIn_append_of_ne (Ne.symm heq)
        have hname : (suiteIn results folder).name ≠ Path.folder r.file := heq
        by_cases hmem : Path.folder r.file ∈ folders <;>
          simpa [addResult, hname, hmem, Ne.symm heq, hhere] using ih

/-- The folders of files, in the order in which they first come up. -/
def foldersOf (files : List Text) : List Text := (files.map Path.folder).eraseDups

theorem foldersOf_append (files : List Text) (file : Text) :
    foldersOf (files ++ [file])
      = if Path.folder file ∈ foldersOf files then foldersOf files
        else foldersOf files ++ [Path.folder file] := by
  simp only [foldersOf, List.map_append, List.map_cons, List.map_nil, List.eraseDups_append,
    List.mem_eraseDups, List.removeAll, List.filter_cons, List.filter_nil]
  by_cases hmem : Path.folder file ∈ files.map Path.folder
  · simp only [List.elem_eq_mem, hmem, decide_true, Bool.not_true, Bool.false_eq_true, if_false,
      if_true, List.eraseDups_nil, List.append_nil]
  · simp only [List.elem_eq_mem, hmem, decide_false, Bool.not_false, if_true, if_false,
      List.eraseDups_cons, List.filter_nil, List.eraseDups_nil]

theorem nodup_foldersOf (files : List Text) : (foldersOf files).Nodup := by
  induction files using List.reverseRecOn with
  | nil => exact List.nodup_nil
  | append_singleton files file ih =>
    rw [foldersOf_append]
    split
    next => exact ih
    next hnew =>
      exact List.nodup_append'.mpr
        ⟨ih, List.nodup_singleton _, List.disjoint_singleton.mpr hnew⟩

/-- **The results grouped by folder.**  The folders are in the order in which they first come up, and
each has its results in their order. -/
theorem suitesOf_eq (results : List TestResult) :
    suitesOf results = (foldersOf (results.map TestResult.file)).map (suiteIn results) := by
  induction results using List.reverseRecOn with
  | nil => rfl
  | append_singleton results r ih =>
    have hnew : Path.folder r.file ∉ foldersOf (results.map TestResult.file) →
        ∀ x ∈ results, Path.folder x.file ≠ Path.folder r.file := by
      intro h x hx heq
      exact h (by
        simp only [foldersOf, List.mem_eraseDups, List.map_map, List.mem_map]
        exact ⟨x, hx, heq⟩)
    calc suitesOf (results ++ [r]) = addResult (suitesOf results) r := by
          simp [suitesOf, List.foldl_append]
      _ = (foldersOf ((results ++ [r]).map TestResult.file)).map (suiteIn (results ++ [r])) := by
          rw [ih, addResult_map (nodup_foldersOf _) hnew, List.map_append, List.map_cons,
            List.map_nil, foldersOf_append]

theorem perm_addResult (suites : List Suite) (r : TestResult) :
    ((addResult suites r).flatMap Suite.results).Perm (r :: suites.flatMap Suite.results) := by
  induction suites with
  | nil => exact .refl _
  | cons s suites ih =>
    simp only [addResult]
    split
    next =>
      simp only [List.flatMap_cons, List.append_assoc, List.singleton_append]
      exact List.perm_middle
    next =>
      simp only [List.flatMap_cons]
      exact (ih.append_left _).trans List.perm_middle

/-- No result is lost or told twice. -/
theorem perm_suitesOf (results : List TestResult) :
    ((suitesOf results).flatMap Suite.results).Perm results := by
  induction results using List.reverseRecOn with
  | nil => exact .refl _
  | append_singleton results r ih =>
    have hstep : suitesOf (results ++ [r]) = addResult (suitesOf results) r := by
      simp [suitesOf, List.foldl_append]
    rw [hstep]
    calc (addResult (suitesOf results) r).flatMap Suite.results
        |>.Perm (r :: (suitesOf results).flatMap Suite.results) := perm_addResult _ r
      _ |>.Perm (r :: results) := ih.cons r
      _ |>.Perm (results ++ [r]) := (List.perm_append_singleton r results).symm

/-! ## Totals -/

/-- The totals after more results. -/
theorem foldl_addResult (s : Stats) (results : List TestResult) :
    results.foldl Stats.addResult s
      = { s with
          total := s.total + results.length
          passed := s.passed + countOf .passed results
          failed := s.failed + countOf .failed results
          skipped := s.skipped + countOf .skipped results } := by
  induction results generalizing s with
  | nil => simp [countOf]
  | cons r results ih =>
    rw [List.foldl_cons, ih]
    cases hstatus : r.status <;>
      simp [Stats.addResult, hstatus, countOf] <;> omega

/-- The totals after more suites. -/
theorem foldl_addSuite (s : Stats) (suites : List Suite) :
    suites.foldl Stats.addSuite s
      = { s with
          total := s.total + (suites.flatMap Suite.results).length
          passed := s.passed + countOf .passed (suites.flatMap Suite.results)
          failed := s.failed + countOf .failed (suites.flatMap Suite.results)
          skipped := s.skipped + countOf .skipped (suites.flatMap Suite.results)
          suites := s.suites + suites.length } := by
  induction suites generalizing s with
  | nil => simp [countOf]
  | cons suite suites ih =>
    rw [List.foldl_cons, ih, Stats.addSuite, foldl_addResult]
    simp [countOf, List.flatMap_cons, List.countP_append]
    omega

/-! ## Reports -/

namespace Report

/-- The flags of a JSON result are those of the result, so exactly one of them is set. -/
theorem JsonResult.flags_ofResult (r : TestResult) :
    ((JsonResult.ofResult r).passed, (JsonResult.ofResult r).failed, (JsonResult.ofResult r).skipped)
      = (decide (r.status = .passed), decide (r.status = .failed), decide (r.status = .skipped)) := by
  cases hstatus : r.status <;> simp [JsonResult.ofResult, hstatus]

theorem JUnitSuite.foldl_addCase (s : JUnitSuite) (results : List TestResult) :
    let told := results.foldl JUnitSuite.addCase s
    told.name = s.name ∧ told.tests = s.tests
      ∧ told.failures = s.failures + countOf .failed results
      ∧ told.skipped = s.skipped + countOf .skipped results := by
  induction results generalizing s with
  | nil => simp [countOf]
  | cons r results ih =>
    obtain ⟨hname, htests, hfailures, hskipped⟩ := ih (s.addCase r)
    simp only [List.foldl_cons, hname, htests, hfailures, hskipped]
    cases hstatus : r.status <;>
      simp [JUnitSuite.addCase, hstatus, countOf] <;> omega

/-- A JUnit suite counts the results of its suite. -/
theorem JUnitSuite.counts_ofSuite (s : Suite) :
    (JUnitSuite.ofSuite s).name = s.name
      ∧ (JUnitSuite.ofSuite s).tests = s.results.length
      ∧ (JUnitSuite.ofSuite s).failures = countOf .failed s.results
      ∧ (JUnitSuite.ofSuite s).skipped = countOf .skipped s.results := by
  have h := foldl_addCase ⟨s.name, s.results.length, 0, 0, s.duration, []⟩ s.results
  simpa [ofSuite] using h

end Report

/-! ## What scripts come to -/

namespace SuiteRun

/-- Each script has one result, in the suite of its folder. -/
structure Reported (alone : Text → TestResult) (failFast : Bool) (files : List Text)
    (results : List TestResult) (suites : List Suite) : Prop where
  inPlace : results.map TestResult.file = files
  /-- A script has the result of running it alone, unless it was left out. -/
  each : ∀ r ∈ results,
    r = if r.status = .skipped then (leftOut r.file).result else alone r.file
  /-- Scripts are left out only after a failure, and only if that is asked for. -/
  skips : (∃ r ∈ results, r.status = .skipped) →
    failFast = true ∧ ∃ r ∈ results, r.status = .failed
  /-- The suites are in the order in which their folders first come up. -/
  grouped : suites = (foldersOf files).map (suiteIn results)
  once : (suites.flatMap Suite.results).Perm results

/-- The totals count the results. -/
structure Counted (fs : Files) (alone : Text → TestResult) (files : List Text)
    (results : List TestResult) (stats : Stats) : Prop where
  total : stats.total = files.length
  sum : stats.total = stats.passed + stats.failed + stats.skipped
  passed : stats.passed = countOf .passed results
  failed : stats.failed = countOf .failed results
  skipped : stats.skipped = countOf .skipped results
  suites : stats.suites = (foldersOf files).length
  /-- A script that cannot be read has no source. -/
  sourceBytes : stats.sourceBytes
    = ((results.filter (·.status ≠ .skipped)).map fun r => fs.sizeOf r.file).sum
  /-- The verdict is that of the scripts run alone, whichever of them were left out. -/
  isOk : stats.isOk = true ↔ ∀ file ∈ files, (alone file).status = .passed

/-- What the reports for programs tell agrees with the totals. -/
structure Told (suites : List Suite) (stats : Stats) : Prop where
  /-- A JSON report sets the one flag of each result. -/
  flags : (Report.jsonResults suites).map (fun j => (j.passed, j.failed, j.skipped))
    = (suites.flatMap Suite.results).map fun r =>
        (decide (r.status = .passed), decide (r.status = .failed), decide (r.status = .skipped))
  jsonPassed : stats.passed = (Report.jsonResults suites).countP Report.JsonResult.passed
  jsonFailed : stats.failed = (Report.jsonResults suites).countP Report.JsonResult.failed
  jsonSkipped : stats.skipped = (Report.jsonResults suites).countP Report.JsonResult.skipped
  /-- A JUnit report counts the results of each suite. -/
  cases : ∀ s ∈ suites, (Report.JUnitSuite.ofSuite s).name = s.name
    ∧ (Report.JUnitSuite.ofSuite s).tests = s.results.length
    ∧ (Report.JUnitSuite.ofSuite s).failures = countOf .failed s.results
    ∧ (Report.JUnitSuite.ofSuite s).skipped = countOf .skipped s.results
  junitTests : stats.total = (suites.map fun s => (Report.JUnitSuite.ofSuite s).tests).sum
  junitFailures : stats.failed = (suites.map fun s => (Report.JUnitSuite.ofSuite s).failures).sum
  junitSkipped : stats.skipped = (suites.map fun s => (Report.JUnitSuite.ofSuite s).skipped).sum

/-- The flags that a JSON report sets are counted by the ways the results ended. -/
theorem countP_jsonResults {flag : Report.JsonResult → Bool} {status : Status}
    (h : ∀ r, flag (.ofResult r) = decide (r.status = status)) (suites : List Suite) :
    (Report.jsonResults suites).countP flag = countOf status (suites.flatMap Suite.results) := by
  simp only [Report.jsonResults, List.countP_map, Function.comp_def, h, countOf]

/-- The counts of suites add up to those of all their results. -/
theorem sum_countOf (status : Status) (suites : List Suite) :
    (suites.map fun s => countOf status s.results).sum
      = countOf status (suites.flatMap Suite.results) := by
  simp only [countOf, List.countP_flatMap, Function.comp_def]

/-- Totals that count the results of suites are what the reports tell. -/
theorem told_of_totals (suites : List Suite) (bytes : Nat) :
    Told suites (suites.foldl Stats.addSuite { sourceBytes := bytes }) := by
  have hflags := Report.JsonResult.flags_ofResult
  rw [foldl_addSuite]
  refine ⟨?_, ?_, ?_, ?_, fun s _ => Report.JUnitSuite.counts_ofSuite s, ?_, ?_, ?_⟩
  · simp only [Report.jsonResults, List.map_map, Function.comp_def, hflags]
  · rw [countP_jsonResults fun r => congrArg Prod.fst (hflags r)]
    simp
  · rw [countP_jsonResults fun r => congrArg (fun flags => flags.2.1) (hflags r)]
    simp
  · rw [countP_jsonResults fun r => congrArg (fun flags => flags.2.2) (hflags r)]
    simp
  · simp [Report.JUnitSuite.counts_ofSuite, List.length_flatMap]
  · simp [Report.JUnitSuite.counts_ofSuite, sum_countOf]
  · simp [Report.JUnitSuite.counts_ofSuite, sum_countOf]

variable {fuel : Nat} {clock : Clock} {fs : Files} {failFast : Bool} {files : List Text}
  {ts : List Turn}

variable (fuel clock fs failFast) in
/-- Workers that run scripts come to their end. -/
theorem over_turns (h : Workers.Complete files.length ts) :
    Workers.Over (runAlone fuel clock fs) failFast files
      ((Workers.ready files).turns (tryScript fuel clock fs) failFast ts) :=
  Workers.over_turns (tryScript_eq_runAlone fuel clock fs)
    (fun file => (runAlone_spec fuel clock fs file).1) h

/-- Unless a failure stops the rest, any order of the turns has the same outcome. -/
theorem ofWorkers_eq_runScripts (h : Workers.Complete files.length ts) :
    ofWorkers ((Workers.ready files).turns (tryScript fuel clock fs) false ts)
      = runScripts fuel clock fs false files := by
  have hover := over_turns fuel clock fs false h
  have hover' := over_turns fuel clock fs false (Workers.complete_oneByOne files.length)
  simp only [runScripts, ofWorkers, hover.bytes, hover'.bytes, hover.trials_eq, hover'.trials_eq]

/-- The trials of the workers tell of each script once. -/
theorem reported_of_over {w : Workers}
    (h : Workers.Over (runAlone fuel clock fs) failFast files w) :
    Reported (fun file => (runAlone fuel clock fs file).result) failFast files
      (w.trials.map Trial.result) (ofWorkers w).suites := by
  have hfiles : (w.trials.map Trial.result).map TestResult.file = files := by
    rw [List.map_map]
    exact h.files
  refine ⟨hfiles, ?_, ?_, ?_, perm_suitesOf _⟩
  · simp only [List.forall_mem_map]
    intro t ht
    rcases h.tried t ht with htried | ⟨-, hleft⟩
    · have hstatus : t.result.status ≠ .skipped := htried ▸ (runAlone_spec fuel clock fs _).2.1
      rw [if_neg hstatus]
      exact congrArg Trial.result htried
    · have hstatus : t.result.status = .skipped := hleft ▸ rfl
      rw [if_pos hstatus]
      exact congrArg Trial.result hleft
  · rintro ⟨r, hr, hskipped⟩
    obtain ⟨t, ht, rfl⟩ := List.mem_map.mp hr
    rcases h.tried t ht with htried | ⟨hstopped, -⟩
    · exact absurd hskipped (htried ▸ (runAlone_spec fuel clock fs _).2.1)
    · obtain ⟨hfast, t', ht', hfailed⟩ := h.stopped hstopped
      exact ⟨hfast, t'.result, List.mem_map_of_mem ht', hfailed⟩
  · rw [← hfiles]
    exact suitesOf_eq _

/-- The bytes of source are those of the scripts that were not left out. -/
theorem sum_size {trials : List Trial} (h : ∀ t ∈ trials,
    t = runAlone fuel clock fs t.result.file ∨ t = leftOut t.result.file) :
    (trials.map Trial.size).sum
      = (((trials.map Trial.result).filter (·.status ≠ .skipped)).map
          fun r => fs.sizeOf r.file).sum := by
  induction trials with
  | nil => rfl
  | cons t trials ih =>
    obtain ⟨hhere, hrest⟩ := List.forall_mem_cons.mp h
    have ih := ih hrest
    rcases hhere with htried | hleft
    · obtain ⟨-, hstatus, hsize⟩ := runAlone_spec fuel clock fs t.result.file
      rw [← htried] at hstatus hsize
      simp [hstatus, hsize, ih]
    · have hstatus : t.result.status = .skipped := hleft ▸ rfl
      have hsize : t.size = 0 := hleft ▸ rfl
      simp [hstatus, hsize, ih]

/-- The verdict does not see which scripts were left out. -/
theorem countOf_failed_eq_zero {alone : Text → TestResult} {results : List TestResult}
    {suites : List Suite} (hreported : Reported alone failFast files results suites) :
    countOf .failed results = 0 ↔ ∀ file ∈ files, (alone file).status = .passed := by
  obtain ⟨hfiles, heach, hskips, -, -⟩ := hreported
  simp only [countOf, List.countP_eq_zero, decide_eq_true_eq, ← hfiles, List.forall_mem_map]
  constructor
  · intro hnone r hr
    have hran : r.status ≠ .skipped := by
      intro hskipped
      obtain ⟨-, x, hx, hfailed⟩ := hskips ⟨r, hr, hskipped⟩
      exact hnone x hx hfailed
    have heq : r = alone r.file := by
      simpa [hran] using heach r hr
    cases hstatus : r.status with
    | passed => rw [← heq, hstatus]
    | failed => exact absurd hstatus (hnone r hr)
    | skipped => exact absurd hstatus hran
  · intro hall r hr hfailed
    have heq : r = alone r.file := by
      simpa [hfailed] using heach r hr
    have hpassed := hall r hr
    rw [← heq, hfailed] at hpassed
    cases hpassed

/-- The totals count the trials of the workers. -/
theorem counted_of_over {w : Workers}
    (h : Workers.Over (runAlone fuel clock fs) failFast files w) :
    Counted fs (fun file => (runAlone fuel clock fs file).result) files
      (w.trials.map Trial.result) (ofWorkers w).stats := by
  have hreported := reported_of_over h
  have honce := hreported.once
  have hlength : (w.trials.map Trial.result).length = files.length := by
    rw [← h.files, List.length_map, List.length_map]
  have hcount (status : Status) : countOf status ((ofWorkers w).suites.flatMap Suite.results)
      = countOf status (w.trials.map Trial.result) := honce.countP_eq _
  have hstats : (ofWorkers w).stats = (ofWorkers w).suites.foldl Stats.addSuite
      { sourceBytes := w.bytes } := rfl
  have hsum := countOf_add (w.trials.map Trial.result)
  have hfailed := countOf_failed_eq_zero hreported
  rw [hstats, foldl_addSuite]
  simp only [hcount, honce.length_eq, hlength] at hsum ⊢
  refine ⟨by simp, by simp; omega, by simp, by simp, by simp, ?_, ?_, ?_⟩
  · simp [hreported.grouped]
  · exact h.bytes.trans (sum_size fun t ht => (h.tried t ht).imp_right And.right)
  · rw [← hfailed]
    simp [Stats.isOk]

/-- **What scripts come to does not depend on how workers take them.**  Whatever the turns in which
every script starts and finishes, each script is reported in its place with the result of running it
alone, unless it was left out after a failure; the totals count these results, and the verdict is good
exactly if all scripts pass when run alone; and the reports for programs agree with the totals. -/
theorem ofWorkers_reports (h : Workers.Complete files.length ts) :
    let run := ofWorkers ((Workers.ready files).turns (tryScript fuel clock fs) failFast ts)
    let alone := fun file => (runAlone fuel clock fs file).result
    ∃ results, Reported alone failFast files results run.suites
      ∧ Counted fs alone files results run.stats ∧ Told run.suites run.stats := by
  intro run alone
  have hover := over_turns fuel clock fs failFast h
  exact ⟨_, reported_of_over hover, counted_of_over hover, told_of_totals _ _⟩

/-- Two folders whose scripts come mixed, one of which fails before another has started. -/
theorem ofWorkers_reports_mixed :
    let files : List Text := ["a/x_test.youth", "b/y_test.youth", "a/z_test.youth"]
    let fs := ((Files.none.withFile "a/x_test.youth" "tell 1; aside expect: 1").withFile
      "b/y_test.youth" "tell 2; aside expect: 3").withFile "a/z_test.youth" "tell 4; aside expect: 4"
    let ts : List Turn :=
      [.start 1, .start 0, .finish 1 0 [], .start 2, .finish 0 4 [2], .finish 2 0 []]
    let run := ofWorkers ((Workers.ready files).turns (tryScript 100 ⟨0, []⟩ fs) true ts)
    let alone := fun file => (runAlone 100 ⟨0, []⟩ fs file).result
    run.suites.map Suite.name = ["a", "b"]
      ∧ run.suites.map (fun s => s.results.map TestResult.status) = [[.passed, .skipped], [.failed]]
      ∧ ∃ results, Reported alone true files results run.suites
        ∧ Counted fs alone files results run.stats ∧ Told run.suites run.stats := by
  refine ⟨by decide +kernel, by decide +kernel, ofWorkers_reports fun i hi => ?_⟩
  match i, hi with
  | 0, _ => exact ⟨4, [2], by decide⟩
  | 1, _ => exact ⟨0, [], by decide⟩
  | 2, _ => exact ⟨0, [], by decide⟩

end SuiteRun

end YouthLang

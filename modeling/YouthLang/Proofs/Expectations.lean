import YouthLang.Proofs.Annotations
import YouthLang.Proofs.Rejection
import YouthLang.Suite

/-!
# Proofs/Expectations — when a script passes

A script passes just when the run of its source does what it says (`Script.MetBy`).  For this a run has
to be reported truly: a run that was rejected has mistakes, one that failed has one mistake, and none is
both, so the check never asks for a mistake that is not there (`Script.check_run`).
-/

namespace YouthLang

theorem Text.has_iff {needle t : Text} : Text.has needle t = true ↔ needle <:+: t := by
  by_cases hneedle : needle = []
  · subst hneedle
    cases t <;> simp [has, cut]
  · rw [has, Option.isSome_iff_ne_none, ne_eq, cut_eq_none_iff hneedle, not_not]

/-! ## Lines -/

/-- The number of positions at which two lists of lines differ, when the shorter list goes on with
places that have no line. -/
def differences (wanted got : List Text) : Nat :=
  (List.range (max wanted.length got.length)).countP fun i => wanted[i]? ≠ got[i]?

theorem differences_nil_left (got : List Text) : differences [] got = got.length := by
  have hall : ∀ i ∈ List.range got.length, decide (([] : List Text)[i]? ≠ got[i]?) = true := by
    intro i hi
    simp [List.mem_range.mp hi]
  rw [differences, List.length_nil, Nat.zero_max, List.countP_eq_length.mpr hall, List.length_range]

theorem differences_comm (wanted got : List Text) : differences wanted got = differences got wanted := by
  rw [differences, differences, Nat.max_comm]
  exact List.countP_congr fun i _ => by rw [decide_eq_true_iff, decide_eq_true_iff, ne_comm]

theorem differences_nil_right (wanted : List Text) : differences wanted [] = wanted.length := by
  rw [differences_comm, differences_nil_left]

theorem differences_cons (w g : Text) (wanted got : List Text) : differences (w :: wanted) (g :: got)
    = (if w = g then 0 else 1) + differences wanted got := by
  rw [differences, List.length_cons, List.length_cons, Nat.succ_max_succ, List.range_succ_eq_map,
    List.countP_cons, List.countP_map, Nat.add_comm]
  congr 1
  by_cases h : w = g <;> simp [h]

namespace Script

theorem length_compareLines : ∀ (number : Nat) (wanted got : List Text),
    (compareLines number wanted got).length = differences wanted got
  | number, [], got => by rw [compareLines, List.length_mapIdx, differences_nil_left]
  | number, w :: wanted, [] => by
      rw [compareLines, List.length_cons, length_compareLines, differences_nil_right,
        differences_nil_right, List.length_cons]
  | number, w :: wanted, g :: got => by
      rw [compareLines, differences_cons, ← length_compareLines (number + 1)]
      split
      · rw [Nat.zero_add]
      · rw [List.length_cons, Nat.add_comm]

/-- Nothing is said of two lists of lines just when they are the same. -/
theorem compareLines_eq_nil : ∀ {number : Nat} {wanted got : List Text},
    compareLines number wanted got = [] ↔ got = wanted
  | number, [], got => by simp [compareLines]
  | number, w :: wanted, [] => by simp [compareLines]
  | number, w :: wanted, g :: got => by
      rw [compareLines]
      split
      · next h => rw [compareLines_eq_nil, h, List.cons.injEq, eq_self, true_and]
      · next h => simp [Ne.symm h]

/-! ## Messages -/

/-- A message about a line of output. -/
def isAboutOutput (message : Text) : Bool := ("output line " : Text).isPrefixOf message

theorem isAboutOutput_of_mem_compareLines : ∀ {number : Nat} {wanted got : List Text} {m : Mismatch},
    m ∈ compareLines number wanted got → isAboutOutput m.message = true
  | number, [], got, m, hm => by
      obtain ⟨i, hi, rfl⟩ := List.mem_mapIdx.mp hm
      exact List.isPrefixOf_iff_prefix.mpr (by simp [Mismatch.message, List.append_assoc])
  | number, w :: wanted, [], m, hm => by
      rcases List.mem_cons.mp hm with rfl | hm
      · exact List.isPrefixOf_iff_prefix.mpr (by simp [Mismatch.message, List.append_assoc])
      · exact isAboutOutput_of_mem_compareLines hm
  | number, w :: wanted, g :: got, m, hm => by
      rw [compareLines] at hm
      split at hm
      · exact isAboutOutput_of_mem_compareLines hm
      · rcases List.mem_cons.mp hm with rfl | hm
        · exact List.isPrefixOf_iff_prefix.mpr (by simp [Mismatch.message, List.append_assoc])
        · exact isAboutOutput_of_mem_compareLines hm

variable (s : Script)

/-- How a run ended is told in other words than what it printed. -/
theorem isAboutOutput_of_mem_checkEnd {r : Run} {m : Mismatch} (hm : m ∈ s.checkEnd r) :
    isAboutOutput m.message = false := by
  unfold checkEnd at hm
  split at hm
  · split at hm
    · simp at hm
    · obtain rfl := List.mem_singleton.mp hm
      rfl
  · obtain rfl := List.mem_singleton.mp hm
    rfl
  · obtain rfl := List.mem_singleton.mp hm
    rfl
  · simp at hm

/-! ## Runs -/

/-- The check of what a run reports: two flags, a list of mistakes and the lines.  There is no answer if
the first mistake is asked for and there is none. -/
def checkReport? (rejected failed : Bool) (mistakes : List Diagnostic) (output : List Text) :
    Option (List Mismatch) :=
  let compared := compareLines 1 s.expected output
  if s.expectStatic then some (if rejected then [] else [.notRejected])
  else if rejected then some (mistakes.map .mistake)
  else
    match s.expectRuntime, failed with
    | some part, true => mistakes.head?.map fun d =>
      if Text.has part d.message then compared else .otherMessage d.message part :: compared
    | some _, false => some (.notFailed :: compared)
    | none, true => mistakes.head?.map fun d => .mistake d :: compared
    | none, false => some compared

/-- A script that expects to be rejected says nothing of what is printed, and neither does one that is
rejected. -/
theorem check_eq (r : Run) : s.check r =
    if s.expectStatic then if r.wasRejected then [] else [.notRejected]
    else if r.wasRejected then r.mistakes.map .mistake
    else s.checkEnd r ++ compareLines 1 s.expected r.output := by
  unfold check Run.wasRejected Run.mistakes
  cases s.expectStatic <;> cases r.outcome <;> rfl

/-- **A run reports a mistake wherever the check asks for one.** -/
theorem checkReport?_run (r : Run) :
    s.checkReport? r.wasRejected r.hasFailed r.mistakes r.output = some (s.check r) := by
  unfold checkReport? check checkEnd Run.wasRejected Run.hasFailed Run.mistakes
  cases s.expectStatic <;> cases r.outcome <;> cases s.expectRuntime <;> simp
  split <;> simp

/-- What a script expects of a run: that it is rejected, or that it prints the expected lines and ends as
expected, with the expected words in the message of its mistake. -/
inductive MetBy (r : Run) : Prop
  | rejected (hexpected : s.expectStatic = true) (hrejected : r.wasRejected = true)
  | ran (hexpected : s.expectStatic = false) (hrejected : r.wasRejected = false)
      (houtput : r.output = s.expected) (hfailed : r.hasFailed = s.expectRuntime.isSome)
      (hmessage : ∀ part ∈ s.expectRuntime, ∃ d, r.mistakes = [d] ∧ part <:+: d.message)

/-- Nothing is said of how a run ended just when it ended as expected. -/
theorem checkEnd_eq_nil {r : Run} (hran : r.wasRejected = false) : s.checkEnd r = [] ↔
    r.hasFailed = s.expectRuntime.isSome
      ∧ ∀ part ∈ s.expectRuntime, ∃ d, r.mistakes = [d] ∧ part <:+: d.message := by
  unfold checkEnd Run.hasFailed Run.mistakes
  unfold Run.wasRejected at hran
  cases houtcome : r.outcome <;> cases s.expectRuntime <;> simp [houtcome, Text.has_iff] at hran ⊢

/-- **Nothing is said of a run just when it meets the expectations**, if a run that was rejected has
mistakes. -/
theorem check_eq_nil {r : Run} (hreport : r.wasRejected = true → r.mistakes ≠ []) :
    s.check r = [] ↔ s.MetBy r := by
  rw [check_eq]
  constructor
  · intro hcheck
    split at hcheck
    · next hexpected =>
      split at hcheck
      · next hrejected => exact .rejected hexpected hrejected
      · exact absurd hcheck (by simp)
    · next hexpected =>
      split at hcheck
      · next hrejected => exact absurd (List.map_eq_nil_iff.mp hcheck) (hreport hrejected)
      · next hran =>
        obtain ⟨hend, hlines⟩ := List.append_eq_nil_iff.mp hcheck
        obtain ⟨hfailed, hmessage⟩ := (s.checkEnd_eq_nil (Bool.eq_false_iff.mpr hran)).mp hend
        exact .ran (Bool.eq_false_iff.mpr hexpected) (Bool.eq_false_iff.mpr hran)
          (compareLines_eq_nil.mp hlines) hfailed hmessage
  · rintro (⟨hexpected, hrejected⟩ | ⟨hexpected, hran, houtput, hfailed, hmessage⟩)
    · simp [hexpected, hrejected]
    · have hend := (s.checkEnd_eq_nil hran).mpr ⟨hfailed, hmessage⟩
      simp [hexpected, hran, hend, compareLines_eq_nil.mpr houtput]

end Script

namespace Session

/-- A source is rejected for a mistake in it, and every mistake it is rejected for was found before it
ran. -/
theorem mistakes_of_wasRejected {s : Session} {source : Text} {fuel : Nat} {others : List Nat}
    (h : (s.run fuel source others).2.wasRejected = true) :
    (s.run fuel source others).2.mistakes ≠ []
      ∧ ∀ d ∈ (s.run fuel source others).2.mistakes, d.isStatic = true := by
  by_cases hclean : (analyse s.node s.file source others).diagnostics = []
  · refine absurd h ?_
    simp only [run, hclean, List.isEmpty_nil, if_true, Run.wasRejected]
    cases hended : ((s.machine.load _ _).run fuel).hasEnded <;> simp
    cases hfailure : ((s.machine.load _ _).run fuel).failure? <;> simp
  · rw [run, if_neg (by simpa using hclean)]
    rw [diagnostics_analyse s.node s.file source others] at hclean ⊢
    exact ⟨hclean, (inStages_check _ _).isStatic⟩

end Session

/-- A script file passes just when it can be read, says what can be expected, and the run of its source
meets that. -/
theorem status_tryScript (fuel : Nat) (clock : Clock) (fs : Files) (node : Nat) (others : List Nat)
    (file : Text) : (tryScript fuel clock fs node others file).result.status = .passed ↔
      ∃ source script, fs.read file = .ok source ∧ Script.ofSource file source = .ok script
        ∧ script.MetBy ((Session.fresh file node clock).run fuel source others).2 := by
  unfold tryScript
  cases fs.read file with
  | error problem => simp
  | ok source =>
    cases hscript : Script.ofSource file source with
    | error e => simp [hscript]
    | ok script =>
      have hmet := script.check_eq_nil fun h =>
        (@Session.mistakes_of_wasRejected (Session.fresh file node clock) source fuel others h).1
      simp only [Except.ok.injEq, exists_and_left, exists_eq_left', hscript, ← hmet]
      split
      · next hcheck => simp [hcheck]
      · next hcheck => simpa using hcheck

/-- **A script passes exactly when its expectations are met.**  Whatever a script says, and in whatever
session its source is run: the check finds a mistake in the report of the run wherever it asks for the
first one; it says nothing just when the run meets what is expected; and if the script neither expects
to be rejected nor is, it says something of as many lines as there are positions at which what is
printed differs from what is expected. -/
theorem Script.check_run (s : Script) (session : Session) (fuel : Nat) :
    let r := (session.run fuel s.source).2
    s.checkReport? r.wasRejected r.hasFailed r.mistakes r.output = some (s.check r)
    ∧ (s.check r = [] ↔ s.MetBy r)
    ∧ (s.expectStatic = false → r.wasRejected = false →
      ((s.check r).map Mismatch.message).countP isAboutOutput = differences s.expected r.output) := by
  intro r
  refine ⟨s.checkReport?_run r, s.check_eq_nil fun h => (Session.mistakes_of_wasRejected h).1, ?_⟩
  intro hexpected hran
  have hend : ∀ m ∈ s.checkEnd r, ¬ (isAboutOutput ∘ Mismatch.message) m = true := fun m hm => by
    simp [s.isAboutOutput_of_mem_checkEnd hm]
  have hlines : ∀ m ∈ compareLines 1 s.expected r.output,
      (isAboutOutput ∘ Mismatch.message) m = true := fun m hm => isAboutOutput_of_mem_compareLines hm
  rw [check_eq, hexpected, hran, if_neg (by simp), if_neg (by simp), List.countP_map,
    List.countP_append, List.countP_eq_zero.mpr hend, List.countP_eq_length.mpr hlines,
    length_compareLines, Nat.zero_add]

/-- A script with another second line than it prints, and a third one that it does not print. -/
def Script.threeLines : Script := ⟨"s", "tell 1; tell 2;", ["1", "3", "4"], false, none⟩

/-- It is neither rejected nor expected to be, and two lines are about what it prints. -/
theorem Script.check_run_threeLines :
    threeLines.expectStatic = false
      ∧ ((Session.fresh [] 0 ⟨0, []⟩).run 9 threeLines.source).2.wasRejected = false
      ∧ ((threeLines.check ((Session.fresh [] 0 ⟨0, []⟩).run 9 threeLines.source).2).map
          Mismatch.message).countP isAboutOutput = 2 := by
  have hran : ((Session.fresh [] 0 ⟨0, []⟩).run 9 threeLines.source).2.wasRejected = false := by
    decide +kernel
  have hlines : differences threeLines.expected
      ((Session.fresh [] 0 ⟨0, []⟩).run 9 threeLines.source).2.output = 2 := by decide +kernel
  obtain ⟨-, -, hcounted⟩ := check_run threeLines (Session.fresh [] 0 ⟨0, []⟩) 9
  exact ⟨rfl, hran, (hcounted rfl hran).trans hlines⟩

end YouthLang

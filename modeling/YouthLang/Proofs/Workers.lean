import YouthLang.Suite
import YouthLang.Proofs.Numbering

/-!
# Proofs/Workers — what workers leave behind

Workers take turns in any order.  `Workers.Moved` tells what a turn can do: it keeps what is true of
the scripts so far (`Workers.Sound`) and takes no script back (`Workers.reached_le_turn`).  So when
every script has started and finished, each one has come to what comes of it on its own, or was left
out after a failure (`Workers.over_turns`).
-/

namespace YouthLang

/-! ## A script on its own -/

section Trials

variable (fuel : Nat) (clock : Clock) (fs : Files)

/-- The bytes of source that a script has; none if it cannot be read. -/
def Files.sizeOf (file : Text) : Nat :=
  match fs.read file with
  | .ok source => source.length
  | .error _ => 0

/-- A script does not see the nodes of the others, neither of those before it nor of those that are
parsed along with it. -/
theorem tryScript_eq_runAlone (node : Nat) (others : List Nat) (file : Text) :
    tryScript fuel clock fs node others file = runAlone fuel clock fs file := by
  simp only [runAlone, tryScript, Session.run_fresh_eq file _ node 0 clock others]

/-- A script that is run keeps its name, is not skipped, and is read as a whole. -/
theorem runAlone_spec (file : Text) :
    (runAlone fuel clock fs file).result.file = file
      ∧ (runAlone fuel clock fs file).result.status ≠ .skipped
      ∧ (runAlone fuel clock fs file).size = fs.sizeOf file := by
  simp only [runAlone, tryScript, Files.sizeOf]
  cases fs.read file with
  | error problem => exact ⟨rfl, nofun, rfl⟩
  | ok source =>
    dsimp only
    split
    next e hscript => exact ⟨rfl, nofun, rfl⟩
    next script hscript => split <;> exact ⟨rfl, nofun, rfl⟩

end Trials

/-! ## One turn -/

namespace Workers

variable {trial : Nat → List Nat → Text → Trial} {alone : Text → Trial} {failFast : Bool}

/-- What a turn can do. -/
inductive Moved (trial : Nat → List Nat → Text → Trial) (failFast : Bool) (w : Workers) : Workers → Prop
  | idle : Moved trial failFast w w
  | started {before after : List (Text × Slot)} {file : Text}
      (hslots : w.slots = before ++ (file, .waiting) :: after) (hgoes : w.stopped = false) :
      Moved trial failFast w { w with slots := before ++ (file, .running) :: after }
  | passedOver {before after : List (Text × Slot)} {file : Text}
      (hslots : w.slots = before ++ (file, .waiting) :: after) (hstopped : w.stopped = true) :
      Moved trial failFast w { w with slots := before ++ (file, .done (leftOut file)) :: after }
  | finished (node : Nat) (others : List Nat) {before after : List (Text × Slot)} {file : Text}
      (hslots : w.slots = before ++ (file, .running) :: after) :
      Moved trial failFast w
        { slots := before ++ (file, .done (trial node others file)) :: after
          bytes := w.bytes + (trial node others file).size
          stopped := w.stopped || (failFast && (trial node others file).result.status = .failed) }

/-- A list around one of its members. -/
theorem split_at {α : Type} {l : List α} {i : Nat} {x : α} (h : l[i]? = some x) :
    l = l.take i ++ x :: l.drop (i + 1) ∧ ∀ y, l.set i y = l.take i ++ y :: l.drop (i + 1) := by
  obtain ⟨hi, rfl⟩ := List.getElem?_eq_some_iff.mp h
  refine ⟨?_, fun y => ?_⟩
  · rw [← List.drop_eq_getElem_cons hi, List.take_append_drop]
  · rw [List.set_eq_take_append_cons_drop, if_pos hi]

theorem moved_turn (w : Workers) (t : Turn) : Moved trial failFast w (w.turn trial failFast t) := by
  cases t with
  | start i =>
    simp only [turn]
    split
    next file hslot =>
      obtain ⟨hslots, hset⟩ := split_at hslot
      rw [hset]
      by_cases hstopped : w.stopped
      · rw [if_pos hstopped]
        exact .passedOver hslots hstopped
      · rw [if_neg hstopped]
        exact .started hslots (Bool.not_eq_true _ ▸ hstopped)
    next => exact .idle
  | finish i node others =>
    simp only [turn]
    split
    next file hslot =>
      obtain ⟨hslots, hset⟩ := split_at hslot
      rw [hset]
      exact .finished node others hslots
    next => exact .idle

/-! ## What turns keep -/

/-- What has come of a script so far is right: what comes of it on its own, or that it was left out
once no more were to be run. -/
inductive Fits (alone : Text → Trial) (stopped : Bool) (file : Text) : Slot → Prop
  | waiting : Fits alone stopped file .waiting
  | running : Fits alone stopped file .running
  | tried : Fits alone stopped file (.done (alone file))
  | passedOver (h : stopped = true) : Fits alone stopped file (.done (leftOut file))

theorem Fits.mono {stopped stopped' : Bool} {file : Text} {slot : Slot}
    (h : Fits alone stopped file slot) (hle : stopped = true → stopped' = true) :
    Fits alone stopped' file slot := by
  cases h with
  | waiting => exact .waiting
  | running => exact .running
  | tried => exact .tried
  | passedOver hstopped => exact .passedOver (hle hstopped)

/-- What is true of workers all along. -/
structure Sound (alone : Text → Trial) (failFast : Bool) (files : List Text) (w : Workers) :
    Prop where
  /-- Every script keeps its place. -/
  files : w.slots.map Prod.fst = files
  fits : ∀ slot ∈ w.slots, Fits alone w.stopped slot.1 slot.2
  bytes : w.bytes = (w.trials.map Trial.size).sum
  stopped : w.stopped = true → failFast = true ∧ ∃ t ∈ w.trials, t.result.status = .failed

theorem sound_ready (files : List Text) : Sound alone failFast files (ready files) where
  files := by simp [ready, Function.comp_def]
  fits := by
    simp only [ready, List.mem_map]
    rintro _ ⟨file, -, rfl⟩
    exact .waiting
  bytes := by simp [ready, trials, List.filterMap_map, Slot.trial?]
  stopped := by simp [ready]

variable {files : List Text} {w w' : Workers}

/-- The trials when the scripts before and after a certain one are told apart. -/
theorem trials_split {before after : List (Text × Slot)} {slot : Text × Slot} {bytes : Nat}
    {stopped : Bool} : trials ⟨before ++ slot :: after, bytes, stopped⟩
      = before.filterMap (fun s => s.2.trial?) ++ (slot.2.trial?.toList
        ++ after.filterMap (fun s => s.2.trial?)) := by
  obtain ⟨file, slot⟩ := slot
  cases slot <;> simp [trials, Slot.trial?]

/-- A script may come further, if what comes of it is right and is counted. -/
theorem Sound.replace {before after : List (Text × Slot)} {file : Text} {slot slot' : Slot}
    {bytes bytes' : Nat} {stopped stopped' : Bool}
    (h : Sound alone failFast files ⟨before ++ (file, slot) :: after, bytes, stopped⟩)
    (hnone : slot.trial? = none) (hfit : Fits alone stopped' file slot')
    (hmono : stopped = true → stopped' = true)
    (hbytes : bytes' = bytes + (slot'.trial?.toList.map Trial.size).sum)
    (hstops : stopped' = true → stopped = true
      ∨ failFast = true ∧ ∃ t ∈ slot'.trial?.toList, t.result.status = .failed) :
    Sound alone failFast files ⟨before ++ (file, slot') :: after, bytes', stopped'⟩ := by
  obtain ⟨hfiles, hfits, hsum, hstop⟩ := h
  simp only [List.forall_mem_append, List.forall_mem_cons] at hfits
  obtain ⟨hbefore, -, hafter⟩ := hfits
  simp only [trials_split, hnone, Option.toList_none, List.nil_append] at hsum hstop
  refine ⟨by simpa using hfiles, ?_, ?_, fun hs => ?_⟩
  · simp only [List.forall_mem_append, List.forall_mem_cons]
    exact ⟨fun slot hslot => (hbefore slot hslot).mono hmono, hfit,
      fun slot hslot => (hafter slot hslot).mono hmono⟩
  · simp only [trials_split, List.map_append, List.sum_append] at hsum ⊢
    omega
  · simp only [trials_split, List.mem_append]
    rcases hstops hs with hstopped | ⟨hfast, t, ht, hfailed⟩
    · obtain ⟨hfast, t, ht, hfailed⟩ := hstop hstopped
      exact ⟨hfast, t, (List.mem_append.mp ht).imp_right .inr, hfailed⟩
    · exact ⟨hfast, t, .inr (.inl ht), hfailed⟩

/-- A turn keeps what is true of workers. -/
theorem Sound.moved (htrial : ∀ node others file, trial node others file = alone file)
    (h : Sound alone failFast files w) (hmoved : Moved trial failFast w w') :
    Sound alone failFast files w' := by
  obtain ⟨slots, bytes, stopped⟩ := w
  cases hmoved with
  | idle => exact h
  | started hslots hgoes =>
    obtain rfl := hslots
    exact h.replace rfl .running id rfl .inl
  | passedOver hslots hstopped =>
    obtain rfl := hslots
    exact h.replace rfl (.passedOver hstopped) id rfl .inl
  | @finished node others before after file hslots =>
    obtain rfl := hslots
    rw [htrial]
    refine h.replace rfl .tried (fun hs => by rw [hs, Bool.true_or]) (by simp [Slot.trial?])
      fun hs => ?_
    simpa [Slot.trial?] using hs

/-- What is true of workers all along is true after any turns. -/
theorem Sound.turns (htrial : ∀ node others file, trial node others file = alone file) (ts : List Turn) :
    ∀ {w : Workers}, Sound alone failFast files w →
      Sound alone failFast files (w.turns trial failFast ts) := by
  induction ts with
  | nil => exact fun h => h
  | cons t ts ih => exact fun h => ih (h.moved htrial (moved_turn _ t))

/-! ## How far the scripts have come -/

/-- How far a script has come, as a number. -/
def rank : Slot → Nat
  | .waiting => 0
  | .running => 1
  | .done _ => 2

/-- How far the script at a place has come; past the last script nothing is to be done. -/
def reached (w : Workers) (i : Nat) : Nat := ((w.slots[i]?).map fun slot => rank slot.2).getD 2

/-- The script at a place, put further, leaves no script further back. -/
theorem reached_le_set {w : Workers} {i : Nat} {file : Text} {slot slot' : Slot} {bytes : Nat}
    {stopped : Bool} (h : w.slots[i]? = some (file, slot)) (hle : rank slot ≤ rank slot') (j : Nat) :
    w.reached j ≤ reached ⟨w.slots.set i (file, slot'), bytes, stopped⟩ j := by
  obtain ⟨hi, hslot⟩ := List.getElem?_eq_some_iff.mp h
  by_cases hij : i = j
  · subst hij
    simpa [reached, hslot, hi] using hle
  · simp [reached, List.getElem?_set_ne hij]

variable (trial failFast)

/-- A turn takes no script back. -/
theorem reached_le_turn (w : Workers) (t : Turn) (j : Nat) :
    w.reached j ≤ (w.turn trial failFast t).reached j := by
  cases t with
  | start i =>
    simp only [turn]
    split
    next file hslot => exact reached_le_set hslot (Nat.zero_le _) j
    next => exact Nat.le_refl _
  | finish i node others =>
    simp only [turn]
    split
    next file hslot => exact reached_le_set hslot (by simp [rank]) j
    next => exact Nat.le_refl _

theorem reached_le_turns (ts : List Turn) (j : Nat) :
    ∀ w : Workers, w.reached j ≤ (w.turns trial failFast ts).reached j := by
  induction ts with
  | nil => exact fun w => Nat.le_refl _
  | cons t ts ih => exact fun w => Nat.le_trans (reached_le_turn _ _ w t j) (ih _)

/-- A script that starts is no longer waiting. -/
theorem one_le_reached_start (w : Workers) (i : Nat) :
    1 ≤ (w.turn trial failFast (.start i)).reached i := by
  simp only [turn]
  split
  next file hslot =>
    obtain ⟨hi, -⟩ := List.getElem?_eq_some_iff.mp hslot
    by_cases hstopped : w.stopped <;> simp [reached, hi, hstopped, rank]
  next hother =>
    rcases hslot : w.slots[i]? with _ | ⟨file, _ | _ | done⟩
    · simp [reached, hslot]
    · exact absurd hslot (hother file)
    · simp [reached, hslot, rank]
    · simp [reached, hslot, rank]

/-- A script that has started and finishes is done. -/
theorem two_le_reached_finish {w : Workers} {i : Nat} (h : 1 ≤ w.reached i) (node : Nat) (others : List Nat) :
    2 ≤ (w.turn trial failFast (.finish i node others)).reached i := by
  simp only [turn]
  split
  next file hslot =>
    obtain ⟨hi, -⟩ := List.getElem?_eq_some_iff.mp hslot
    simp [reached, hi, rank]
  next hother =>
    rcases hslot : w.slots[i]? with _ | ⟨file, _ | _ | done⟩
    · simp [reached, hslot]
    · simp [reached, hslot, rank] at h
    · exact absurd hslot (hother file)
    · simp [reached, hslot, rank]

theorem turns_append (w : Workers) (ts us : List Turn) :
    w.turns trial failFast (ts ++ us) = (w.turns trial failFast ts).turns trial failFast us :=
  List.foldl_append

/-- A script that starts and later finishes is done in the end. -/
theorem two_le_reached_turns {i node : Nat} {others : List Nat} {ts : List Turn}
    (h : [.start i, .finish i node others].Sublist ts) (w : Workers) :
    2 ≤ (w.turns trial failFast ts).reached i := by
  obtain ⟨before, after, rfl, hstart, hfinish⟩ := List.cons_sublist_iff.mp h
  obtain ⟨before, between, rfl⟩ := List.append_of_mem hstart
  obtain ⟨between', after, rfl⟩ := List.append_of_mem (List.singleton_sublist.mp hfinish)
  -- Other turns may come in between; none of them takes the script back.
  let started := (w.turns trial failFast before).turn trial failFast (.start i)
  let waited := (started.turns trial failFast between).turns trial failFast between'
  have hrunning : 1 ≤ waited.reached i :=
    calc 1 ≤ started.reached i := one_le_reached_start _ _ _ i
      _ ≤ (started.turns trial failFast between).reached i := reached_le_turns _ _ between i _
      _ ≤ waited.reached i := reached_le_turns _ _ between' i _
  rw [turns_append, turns_append, turns_append]
  calc 2 ≤ (waited.turn trial failFast (.finish i node others)).reached i :=
        two_le_reached_finish _ _ hrunning node others
    _ ≤ _ := reached_le_turns _ _ after i _

variable {trial failFast}

/-! ## When all is done -/

/-- The schedules in which every one of so many scripts starts and later finishes.  A limit on the
workers at a time only rules some of them out. -/
def Complete (n : Nat) (ts : List Turn) : Prop :=
  ∀ i < n, ∃ node others, [.start i, .finish i node others].Sublist ts

theorem complete_oneByOne (n : Nat) : Complete n (oneByOne n) := by
  intro i hi
  have hmem : [Turn.start i, .finish i 0 []] ∈ (List.range n).map fun i => [.start i, .finish i 0 []] :=
    List.mem_map.mpr ⟨i, List.mem_range.mpr hi, rfl⟩
  exact ⟨0, [], List.sublist_flatten_of_mem hmem⟩

/-- Workers that are done: what has come of the scripts, in their order. -/
structure Over (alone : Text → Trial) (failFast : Bool) (files : List Text) (w : Workers) : Prop where
  files : w.trials.map (fun t => t.result.file) = files
  /-- A trial is what comes of the script on its own, unless it was left out. -/
  tried : ∀ t ∈ w.trials,
    t = alone t.result.file ∨ w.stopped = true ∧ t = leftOut t.result.file
  bytes : w.bytes = (w.trials.map Trial.size).sum
  stopped : w.stopped = true → failFast = true ∧ ∃ t ∈ w.trials, t.result.status = .failed

/-- A slot's trial tells of the script in its place. -/
theorem Fits.of_done (halone : ∀ file, (alone file).result.file = file) {stopped : Bool} {file : Text}
    {slot : Slot} (h : Fits alone stopped file slot) : ∀ t ∈ slot.trial?, t.result.file = file
      ∧ (t = alone t.result.file ∨ stopped = true ∧ t = leftOut t.result.file) := by
  cases h with
  | waiting => nofun
  | running => nofun
  | tried =>
    rintro _ ⟨⟩
    exact ⟨halone file, .inl (by rw [halone])⟩
  | passedOver hstopped =>
    rintro _ ⟨⟩
    exact ⟨rfl, .inr ⟨hstopped, rfl⟩⟩

/-- Scripts that have all come to their end have a trial each, in their order. -/
theorem file_trials {slots : List (Text × Slot)} (hend : ∀ slot ∈ slots, 2 ≤ rank slot.2)
    (hfile : ∀ slot ∈ slots, ∀ t ∈ slot.2.trial?, t.result.file = slot.1) :
    (slots.filterMap fun slot => slot.2.trial?).map (fun t => t.result.file)
      = slots.map Prod.fst := by
  induction slots with
  | nil => rfl
  | cons slot slots ih =>
    obtain ⟨hend, hends⟩ := List.forall_mem_cons.mp hend
    obtain ⟨hfile, hfiles⟩ := List.forall_mem_cons.mp hfile
    obtain ⟨file, _ | _ | trial⟩ := slot
    · simp [rank] at hend
    · simp [rank] at hend
    · simpa [Slot.trial?] using ⟨hfile trial rfl, ih hends hfiles⟩

/-- **The order of the turns does not matter.**  When every script has started and finished, each has
its trial in its place: what comes of it on its own, or that it was left out after a failure. -/
theorem over_turns (htrial : ∀ node others file, trial node others file = alone file)
    (halone : ∀ file, (alone file).result.file = file) {ts : List Turn}
    (h : Complete files.length ts) :
    Over alone failFast files ((ready files).turns trial failFast ts) := by
  have hsound : Sound alone failFast files ((ready files).turns trial failFast ts) :=
    (sound_ready files).turns htrial ts
  obtain ⟨hfiles, hfits, hbytes, hstopped⟩ := hsound
  refine ⟨?_, ?_, hbytes, hstopped⟩
  · have hend : ∀ slot ∈ ((ready files).turns trial failFast ts).slots, 2 ≤ rank slot.2 := by
      intro slot hslot
      obtain ⟨i, hi, rfl⟩ := List.mem_iff_getElem.mp hslot
      have hlength : i < files.length := by
        rw [← hfiles]
        simpa using hi
      obtain ⟨node, others, hturns⟩ := h i hlength
      have hreached := two_le_reached_turns trial failFast hturns (ready files)
      simpa [reached, hi] using hreached
    exact (file_trials hend fun slot hslot t ht => ((hfits slot hslot).of_done halone t ht).1).trans
      hfiles
  · intro t ht
    obtain ⟨slot, hslot, htrial⟩ := List.mem_filterMap.mp ht
    exact ((hfits slot hslot).of_done halone t htrial).2

/-- If a failure does not stop the rest, every script has come to what comes of it on its own. -/
theorem Over.trials_eq (h : Over alone false files w) : w.trials = files.map alone := by
  have halone : ∀ t ∈ w.trials, alone t.result.file = t := by
    intro t ht
    rcases h.tried t ht with htried | ⟨hstopped, -⟩
    · exact htried.symm
    · cases (h.stopped hstopped).1
  rw [← h.files, List.map_map]
  calc w.trials = w.trials.map id := (List.map_id _).symm
    _ = w.trials.map (alone ∘ fun t => t.result.file) :=
      List.map_congr_left fun t ht => (halone t ht).symm

end Workers

end YouthLang

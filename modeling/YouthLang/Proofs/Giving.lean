import YouthLang.Proofs.CallStack

/-!
# Proofs/Giving — a value given back ends one call

A statement that gives a value back drops what is left of the body it stands in, through blocks,
branches and loops, and nothing else: the tasks up to the end of the innermost active call
(`Machine.InnermostCall`) are passed by without a step of their own, and the caller goes on with the
value where it made the call (`Machine.HandsBack`).  A walk without mistakes leaves no such statement
outside of a function, so none is ever dropped by the program itself (`Session.give_returns`).
-/

namespace YouthLang

/-- A value that is given back passes the task by: it is the rest of a body, of a block or of a loop. -/
def Pending.isPassed : Pending → Bool
  | .sequence _ | .leave _ | .loopBody _ _ => true
  | _ => false

theorem Pending.callSite?_of_isPassed {p : Pending} (h : p.isPassed) : p.callSite? = none := by
  cases p <;> first | rfl | exact absurd h (by simp [isPassed])

/-- **Only tasks that are passed by stand before the innermost call**, when a statement of a function
has ended. -/
theorem Awaits.exists_call {ok : Distances → Visit → Prop} {h : Heap} {ending : Awaited} {f : Nat}
    {D : Distances} {b : Bool} {scopes : List Scope} {pending : List Pending}
    (ha : Awaits ok h ending f D b scopes pending) (hending : ending = .done) (hb : b = true) :
    ∃ tasks function line g D' rest, pending = tasks ++ .call function line g D' :: rest
      ∧ ∀ p ∈ tasks, p.isPassed := by
  have hcons : ∀ {p : Pending} {rest : List Pending}, p.isPassed →
      (∃ tasks function line g D' rest', rest = tasks ++ .call function line g D' :: rest'
        ∧ ∀ p ∈ tasks, p.isPassed) →
      ∃ tasks function line g D' rest', p :: rest = tasks ++ .call function line g D' :: rest'
        ∧ ∀ p ∈ tasks, p.isPassed := by
    rintro p _ hp ⟨tasks, function, line, g, D', rest', rfl, htasks⟩
    exact ⟨p :: tasks, function, line, g, D', rest', rfl, List.forall_mem_cons.mpr ⟨hp, htasks⟩⟩
  induction ha with
  | ended | program => exact absurd hb (by simp)
  | loopBody _ _ ih | sequence _ _ ih | leave _ _ _ ih => exact hcons rfl (ih rfl hb)
  | call => exact ⟨[], _, _, _, _, _, rfl, by simp⟩
  | _ => exact absurd hending (by simp)

namespace Machine

variable {m m' : Machine} {ok : Distances → Visit → Prop} {v : Value} {tasks rest : List Pending}
  {function : Text} {line frame : Nat} {distances : Distances} {keyword : Token}

/-! ## On the way to the call -/

/-- The task is passed by in one step, and nothing but the frame changes. -/
theorem step_of_isPassed {p : Pending} (hgiving : m.control = .giving v)
    (hpending : m.pending = p :: rest) (hpassed : p.isPassed) :
    ∃ frame, m.step = { m with frame := frame, pending := rest } := by
  cases p with
  | leave frame => exact ⟨frame, by simp only [step, hgiving, hpending, takeGiven]⟩
  | sequence _ | loopBody _ _ =>
    exact ⟨m.frame, by simp only [step, hgiving, hpending, takeGiven, turn]⟩
  | _ => exact absurd hpassed (by simp [Pending.isPassed])

/-- Tasks are passed by one after the other. -/
theorem run_passed (hpassed : ∀ p ∈ tasks, p.isPassed) : ∀ {m : Machine},
    m.control = .giving v → m.pending = tasks ++ rest → ∀ i ≤ tasks.length,
      ∃ frame, m.run i = { m with frame := frame, pending := tasks.drop i ++ rest } := by
  induction tasks with
  | nil =>
    intro m _ hpending i hi
    obtain rfl := Nat.le_zero.mp hi
    exact ⟨m.frame, by rw [List.drop_zero, ← hpending]; rfl⟩
  | cons p tasks ih =>
    intro m hgiving hpending i hi
    obtain ⟨hp, htasks⟩ := List.forall_mem_cons.mp hpassed
    cases i with
    | zero => exact ⟨m.frame, by rw [List.drop_zero, ← hpending]; rfl⟩
    | succ i =>
      obtain ⟨frame, hstep⟩ := step_of_isPassed hgiving hpending hp
      obtain ⟨frame', hrun⟩ := ih htasks (m := m.step) (by rw [hstep, hgiving]) (by rw [hstep]; rfl) i
        (Nat.le_of_succ_le_succ hi)
      exact ⟨frame', by rw [← run_step, hrun, hstep, List.drop_succ_cons]⟩

/-- A call takes the value, and its caller goes on with it. -/
theorem step_of_call (hgiving : m.control = .giving v)
    (hpending : m.pending = .call function line frame distances :: rest) :
    m.step = { m with
      frame := frame, distances := distances, depth := m.depth - 1, control := .value v,
      pending := rest } := by
  simp only [step, hgiving, hpending, takeGiven]

/-! ## The innermost call -/

/-- A call that is active after `n` steps was made before, with what waits behind it, by the machine
that it goes back to, and has been active since. -/
structure ActiveCall (m : Machine) (n j : Nat) (function : Text) (line : Nat) (rest : List Pending) :
    Prop where
  lt : j < n
  entered : (m.run j).entering? = some ⟨function, [], line⟩
  caller : ∃ p, p.isPlain ∧ (m.run j).pending = p :: rest
  active : ∀ i, j < i → i ≤ n → ∃ tasks, (m.run i).pending
    = tasks ++ .call function line (m.run j).frame (m.run j).distances :: rest

/-- The innermost of the calls that are active after `n` steps: in front of its end are only tasks that
a value given back passes by, and the other active calls were so when it was made. -/
structure InnermostCall (m : Machine) (n j : Nat) (function : Text) (line : Nat)
    (tasks rest : List Pending) : Prop extends m.ActiveCall n j function line rest where
  body : (m.run n).pending
    = tasks ++ .call function line (m.run j).frame (m.run j).distances :: rest
  passed : ∀ p ∈ tasks, p.isPassed
  calls : m.activeCalls n = ⟨function, [], line⟩ :: m.activeCalls j

/-- The end of a call behind tasks that do not contain it is behind what comes after them. -/
theorem exists_append_of_append {pushed left tasks : List Pending} {p : Pending}
    (heq : pushed ++ left = tasks ++ p :: rest) (hnot : p ∉ pushed) :
    ∃ tasks', left = tasks' ++ p :: rest := by
  rcases List.append_eq_append_iff.mp heq with ⟨more, -, hleft⟩ | ⟨more, hpushed, hleft⟩
  · exact ⟨more, hleft⟩
  · cases more with
    | nil => exact ⟨[], by simpa using hleft.symm⟩
    | cons q more =>
      obtain ⟨rfl, -⟩ := List.cons.inj hleft
      exact absurd (hpushed ▸ by simp) hnot

/-- A call that is active after a move was so before, or is made by the move. -/
theorem Move.call_active (hm : m.Move m')
    (hpending : m'.pending = tasks ++ .call function line frame distances :: rest) :
    (∃ tasks, m.pending = tasks ++ .call function line frame distances :: rest)
      ∨ m.entering? = some ⟨function, [], line⟩ ∧ (∃ p, p.isPlain ∧ m.pending = p :: rest)
        ∧ m.frame = frame ∧ m.distances = distances := by
  have hnot : ∀ {pushed : List Pending}, (∀ p ∈ pushed, p.isPlain) →
      Pending.call function line frame distances ∉ pushed := fun hplain hmem =>
    absurd (hplain _ hmem) (by simp [Pending.isPlain])
  have htail : ∀ {p : Pending}, m.pending = p :: m'.pending →
      ∃ tasks, m.pending = tasks ++ .call function line frame distances :: rest := fun {p} h =>
    ⟨p :: tasks, by rw [h, hpending, List.cons_append]⟩
  have htaken : ∀ {popped : Option Pending} {left : List Pending}, m.Takes popped left →
      m'.pending = left → ∃ tasks, m.pending = tasks ++ .call function line frame distances :: rest :=
    fun {popped left} htakes hleft =>
      ⟨popped.toList ++ tasks, by rw [htakes.pending, ← hleft, hpending, List.append_assoc]⟩
  -- Only entering and leaving a call change which calls are active.
  cases hm with
  | steady | function | youth => exact .inl ⟨tasks, hpending⟩
  | plain htakes hplain _ _ _ =>
    obtain ⟨tasks', hleft⟩ := exists_append_of_append hpending (hnot hplain)
    exact .inl ⟨_ ++ tasks', by rw [htakes.pending, hleft, List.append_assoc]⟩
  | fails htakes _ => exact .inl (htaken htakes rfl)
  | «variable» htakes _ => exact .inl (htaken htakes rfl)
  | drops h _ _ | leave h _ _ | returns h _ | escapes h _ => exact .inl (htail h)
  | block _ =>
    obtain ⟨tasks', h⟩ := @exists_append_of_append rest [_, _] _ tasks _ hpending (by simp)
    exact .inl ⟨tasks', h⟩
  | @enters p left c paren arguments v h hplain _ _ _ _ hentering =>
    cases tasks with
    | nil => exact absurd (List.cons.inj hpending).1 (by simp)
    | cons q tasks =>
      have hcall := (List.cons.inj hpending).2
      cases tasks with
      | nil =>
        obtain ⟨hsite, rfl⟩ := List.cons.inj hcall
        obtain ⟨rfl, rfl, rfl, rfl⟩ := Pending.call.inj hsite
        exact .inr ⟨hentering, ⟨p, hplain, h⟩, rfl, rfl⟩
      | cons q' tasks =>
        exact .inl ⟨p :: tasks, h.trans (congrArg (p :: ·) (List.cons.inj hcall).2)⟩

/-- **An active call was made in the run**, if none was active at its start. -/
theorem Sound.activeCall (hs : m.Sound ok) (hnone : ∀ p ∈ m.pending, p.isPlain) :
    ∀ (n : Nat) {tasks : List Pending},
      (m.run n).pending = tasks ++ .call function line frame distances :: rest →
      ∃ j, m.ActiveCall n j function line rest ∧ (m.run j).frame = frame
        ∧ (m.run j).distances = distances
  | 0, tasks, hpending => by
      have hmem : Pending.call function line frame distances ∈ m.pending := by
        rw [show m.pending = _ from hpending]
        simp
      exact absurd (hnone _ hmem) (by simp [Pending.isPlain])
  | n + 1, tasks, hpending => by
      have hbehind := hpending
      rw [run_succ] at hpending
      rcases (hs.run n).move.call_active hpending with ⟨tasks', hbefore⟩ | ⟨hentered, hcaller, hf, hd⟩
      · obtain ⟨j, ⟨hlt, hentered, hcaller, hactive⟩, rfl, rfl⟩ := hs.activeCall hnone n hbefore
        refine ⟨j, ⟨Nat.lt_succ_of_lt hlt, hentered, hcaller, fun i hi hle => ?_⟩, rfl, rfl⟩
        rcases Nat.lt_succ_iff_lt_or_eq.mp (Nat.lt_succ_of_le hle) with hle | rfl
        · exact hactive i hi (Nat.le_of_lt_succ hle)
        · exact ⟨tasks, hbehind⟩
      · refine ⟨n, ⟨Nat.lt_succ_self n, hentered, hcaller, fun i hi hle => ?_⟩, hf, hd⟩
        obtain rfl : i = n + 1 := Nat.le_antisymm hle hi
        exact ⟨tasks, by rw [hf, hd, hbehind]⟩

/-- The calls that were active when the innermost one was made are those behind its end. -/
theorem ActiveCall.calls {j n : Nat} (hc : m.ActiveCall n j function line rest)
    (ht : (m.run j).Tracks (m.activeCalls j)) :
    rest.filterMap Pending.callSite? = m.activeCalls j := by
  obtain ⟨p, hplain, hpending⟩ := hc.caller
  rw [← ht.tasks, hpending, List.filterMap_cons_none (Pending.callSite?_of_isPlain hplain)]

/-- Where a statement of a function has ended or is executed, there is an innermost call. -/
theorem Sound.innermostCall (hs : m.Sound ok) (hstart : m.Tracks [])
    (hnone : ∀ p ∈ m.pending, p.isPlain) {n : Nat} {h : Heap} {f : Nat} {scopes : List Scope}
    (ha : Awaits ok h .done f distances true scopes (m.run n).pending) :
    ∃ j function line tasks rest, m.InnermostCall n j function line tasks rest := by
  obtain ⟨tasks, function, line, frame, distances, rest, hpending, hpassed⟩ := ha.exists_call rfl rfl
  obtain ⟨j, hactive, rfl, rfl⟩ := hs.activeCall hnone n hpending
  refine ⟨j, function, line, tasks, rest, hactive, hpending, hpassed, ?_⟩
  rw [← (hs.tracks hstart n).tasks, hpending, List.filterMap_append,
    List.filterMap_eq_nil_iff.mpr fun p hp => Pending.callSite?_of_isPassed (hpassed p hp),
    List.nil_append, List.filterMap_cons_some (by rfl : Pending.callSite? _ = some ⟨function, [], line⟩),
    hactive.calls (hs.tracks hstart j)]

/-! ## What a given value does -/

/-- After `n` steps a value is given back, and it goes to the call that was made at step `j`: in the
steps to the end of that call nothing is evaluated or executed, printed or changed in the heap, and
then the machine is where it made the call, with the value in the place of the call. -/
structure HandsBack (m : Machine) (n j : Nat) (v : Value) (tasks rest : List Pending) : Prop where
  giving : ∀ i ≤ tasks.length, ∃ frame, m.run (n + i)
    = { m.run n with frame := frame, control := .giving v, pending := (m.run n).pending.drop i }
  returned : m.run (n + (tasks.length + 1)) = { m.run n with
    frame := (m.run j).frame, distances := (m.run j).distances, depth := (m.run j).depth,
    control := .value v, pending := rest }
  calls : m.activeCalls (n + (tasks.length + 1)) = m.activeCalls j

theorem Sound.handsBack (hs : m.Sound ok) (hstart : m.Tracks []) {n j : Nat}
    (hactive : m.ActiveCall n j function line rest) {k : Nat} (hgiving : (m.run k).control = .giving v)
    (htasks : (m.run k).pending
      = tasks ++ .call function line (m.run j).frame (m.run j).distances :: rest)
    (hpassed : ∀ p ∈ tasks, p.isPassed) : m.HandsBack k j v tasks rest := by
  have hpassing := run_passed hpassed hgiving htasks
  have hcalls := hactive.calls (hs.tracks hstart j)
  have hdepth : (m.run k).depth - 1 = (m.run j).depth := by
    have hnow := hs.tracks hstart k
    rw [hnow.depth, (hs.tracks hstart j).depth, ← hnow.tasks, htasks, List.filterMap_append,
      List.filterMap_eq_nil_iff.mpr fun p hp => Pending.callSite?_of_isPassed (hpassed p hp),
      List.nil_append, List.filterMap_cons_some (by rfl : Pending.callSite? _ = some ⟨function, [], line⟩),
      hcalls, List.length_cons, Nat.add_sub_cancel]
  have hreturned : m.run (k + (tasks.length + 1)) = { m.run k with
      frame := (m.run j).frame, distances := (m.run j).distances, depth := (m.run j).depth,
      control := .value v, pending := rest } := by
    obtain ⟨frame, hrun⟩ := hpassing tasks.length (Nat.le_refl _)
    rw [run_add, run_succ, hrun, ← hdepth]
    exact step_of_call hgiving (by rw [List.drop_length]; rfl)
  refine ⟨fun i hi => ?_, hreturned, ?_⟩
  · obtain ⟨frame, hrun⟩ := hpassing i hi
    refine ⟨frame, ?_⟩
    rw [run_add, hrun, htasks, List.drop_append_of_le_length hi, ← hgiving]
  · rw [← hcalls, ← (hs.tracks hstart _).tasks, hreturned]

/-- A statement that gives a value back has its value after some steps: emptiness at once, and a value
that has to be found when its expression has ended. -/
def GivesAfter (m : Machine) (value : Option Expr) (k : Nat) (v : Value) : Prop :=
  match value with
  | none => k = 1 ∧ v = .emptiness
  | some _ => ∃ l, k = l + 2 ∧ m.step.EndsAfter l ∧ (m.step.run l).control = .value v

theorem Sound.givesAfter (hs : m.Sound ok) {value : Option Expr}
    (hexec : m.control = .exec (.give keyword value)) {k : Nat} (hgives : m.GivesAfter value k v) :
    (m.run k).control = .giving v ∧ (m.run k).pending = m.pending := by
  cases value with
  | none =>
    obtain ⟨rfl, rfl⟩ := hgives
    have hstep : m.run 1 = m.turn (.giving .emptiness) := by
      rw [← run_step]
      simp only [Machine.step, hexec, Machine.exec]
      rfl
    exact ⟨by rw [hstep]; rfl, by rw [hstep]; rfl⟩
  | some e =>
    obtain ⟨l, rfl, hends, hvalue⟩ := hgives
    have hstep : m.step = m.evalFor e .give := by simp only [Machine.step, hexec, Machine.exec]
    have hpending : (m.step.run l).pending = .give :: m.pending :=
      (hs.step.restores hends).1.pending.trans (by rw [hstep]; rfl)
    have hrun : m.run (l + 2) = { m.step.run l with control := .giving v, pending := m.pending } := by
      rw [← run_step, run_succ]
      simp only [Machine.step.eq_def (m.step.run l), hvalue, hpending, Machine.receive]
      rfl
    exact ⟨by rw [hrun], by rw [hrun]⟩

/-- The expression of a statement that gives its value back ends with a value, unless it fails. -/
theorem Sound.givesAfter_or_failing (hs : m.Sound ok) {e : Expr}
    (hexec : m.control = .exec (.give keyword (some e))) {l : Nat} (hends : m.step.EndsAfter l) :
    (∃ v, m.GivesAfter (some e) (l + 2) v) ∨ ∃ d, (m.step.run l).control = .failing d := by
  have hstep : m.step = m.evalFor e .give := by simp only [Machine.step, hexec, Machine.exec]
  have hpending : (m.step.run l).pending = .give :: m.pending :=
    (hs.step.restores hends).1.pending.trans (by rw [hstep]; rfl)
  have hsound := hs.step.run l
  have houtcome := hends.1.2
  cases hcontrol : (m.step.run l).control with
  | value v => exact .inl ⟨v, l, rfl, hends, hcontrol⟩
  | failing d => exact .inr ⟨d, rfl⟩
  | eval e => simp [hcontrol, Control.isOutcome] at houtcome
  | exec s => simp [hcontrol, Control.isOutcome] at houtcome
  | done =>
    rw [Sound, hcontrol] at hsound
    obtain ⟨_, _, -, -, hawaits⟩ := hsound
    rw [hpending] at hawaits
    cases hawaits
  | giving v =>
    rw [Sound, hcontrol] at hsound
    obtain ⟨-, _, hawaits⟩ := hsound
    rw [hpending] at hawaits
    cases hawaits

end Machine

/-! ## Sessions -/

namespace Session

variable {s : Session} {file source : Text} {node : Nat} {clock : Clock} {past : Past}

/-- **A value given back ends exactly the innermost active call.**  Behind any past of a session, in the
run of a source without mistakes: no value that is given back ever meets the program, so no statement at
the top level ends by giving.  Whenever a statement that gives a value back is executed, a call is
active, and the innermost one was made at some step before; if the statement gives nothing, or its
expression ends with a value and not with a failure, then emptiness or that value is handed back to that
step. -/
theorem give_returns (hs : s = (fresh file node clock).after past)
    (hclean : (analyse s.node s.file source).diagnostics = []) :
    (∀ n v, (s.machineAt source n).control = .giving v →
      ∃ p rest, (s.machineAt source n).pending = p :: rest ∧ ∀ body, p ≠ .program body)
    ∧ ∀ n keyword value, (s.machineAt source n).control = .exec (.give keyword value) →
      ∃ j function line tasks rest,
        (s.machineAt source 0).InnermostCall n j function line tasks rest
        ∧ (∀ k v, (s.machineAt source n).GivesAfter value k v →
            (s.machineAt source 0).HandsBack (n + k) j v tasks rest)
        ∧ ∀ l, value.isSome → (s.machineAt source n).step.EndsAfter l →
            (∃ v, (s.machineAt source n).GivesAfter value (l + 2) v)
            ∨ ∃ d, ((s.machineAt source n).step.run l).control = .failing d := by
  have hheap : s.machine.heap.Sound anywhere := hs ▸ (sound_rooted file node clock past).1
  have hsound : ∀ n, (s.machineAt source n).Sound anywhere := sound_anywhere hheap hclean
  have hstart : (s.machineAt source 0).Tracks [] := ⟨rfl, rfl, Nat.zero_le _⟩
  have hplain : ∀ p ∈ (s.machineAt source 0).pending, p.isPlain := by
    simp [machineAt, Machine.run, Machine.load, Pending.isPlain]
  refine ⟨fun n v hgiving => ?_, fun n keyword value hexec => ?_⟩
  -- A value that is given passes blocks and loops on its way, and then comes to a call.
  · have := hsound n
    rw [Machine.Sound, hgiving] at this
    obtain ⟨-, scopes, hawaits⟩ := this
    obtain ⟨tasks, function, line, frame, distances, rest, hpending, hpassed⟩ :=
      hawaits.exists_call rfl rfl
    cases tasks with
    | nil => exact ⟨_, _, hpending, by simp⟩
    | cons p tasks =>
      refine ⟨p, _, hpending, fun body hp => ?_⟩
      subst hp
      exact absurd (hpassed _ List.mem_cons_self) (by simp [Pending.isPassed])
  -- The resolver has let a `give` stand only in a function, so a call is active around it.
  · have hawaits : ∃ scopes, Awaits anywhere (s.machineAt source n).heap .done
        (s.machineAt source n).frame (s.machineAt source n).distances true scopes
        (s.machineAt source n).pending := by
      have := hsound n
      rw [Machine.Sound, hexec] at this
      obtain ⟨b, scopes, -, -, hsettled, hawaits⟩ := this
      obtain rfl : b = true := by
        cases value with
        | none => exact hsettled
        | some e => exact hsettled.1
      exact ⟨_, hawaits⟩
    obtain ⟨scopes, hawaits⟩ := hawaits
    obtain ⟨j, function, line, tasks, rest, hinnermost⟩ :=
      (hsound 0).innermostCall hstart hplain (n := n) hawaits
    refine ⟨j, function, line, tasks, rest, hinnermost, fun k v hgives => ?_, fun l hvalue hends => ?_⟩
    · obtain ⟨hgiving, hpending⟩ := (hsound n).givesAfter hexec hgives
      have hrun : (s.machineAt source 0).run (n + k) = (s.machineAt source n).run k :=
        Machine.run_add n k
      refine (hsound 0).handsBack hstart hinnermost.toActiveCall (by rw [hrun, hgiving]) ?_
        hinnermost.passed
      rw [hrun, hpending]
      exact hinnermost.body
    · obtain ⟨e, rfl⟩ := Option.isSome_iff_exists.mp hvalue
      exact (hsound n).givesAfter_or_failing hexec hends

/-- A session in which a function was declared that gives a value back from within a loop. -/
def withLoop : Session :=
  (fresh [] 0 ⟨0, []⟩).after [(9, "listen f() ( while (surely) ( give surely; ) )")]

/-- The value goes from the block in the loop to the call, which another source made. -/
theorem give_returns_fromLoop : ∃ j < 11, ∃ tasks rest,
    (withLoop.machineAt "tell f();" 0).HandsBack 14 j (.truth true) tasks rest := by
  have hclean : (analyse withLoop.node withLoop.file "tell f();").diagnostics = [] := by
    decide +kernel
  have hexec : (withLoop.machineAt "tell f();" 11).control
      = .exec (.give ⟨.giveKey, "give", ⟨1, 31⟩⟩ (some (.literal (.truth true)))) := by cbv
  have hends : (withLoop.machineAt "tell f();" 11).step.EndsAfter 1 := by
    refine ⟨⟨by cbv, by cbv⟩, fun k hk hback => ?_⟩
    obtain rfl := Nat.lt_one_iff.mp hk
    have hbusy : (withLoop.machineAt "tell f();" 11).step.control.isOutcome = false := by cbv
    exact absurd (hbusy.symm.trans hback.2) (by simp)
  have hvalue : ((withLoop.machineAt "tell f();" 11).step.run 1).control = .value (.truth true) := by
    cbv
  obtain ⟨-, hgives⟩ := @give_returns withLoop [] "tell f();" 0 ⟨0, []⟩ _ rfl hclean
  obtain ⟨j, _, _, tasks, rest, hinnermost, hhandsBack, -⟩ := hgives 11 _ _ hexec
  exact ⟨j, hinnermost.lt, tasks, rest, hhandsBack 3 _ ⟨1, rfl, hends, hvalue⟩⟩

end Session

end YouthLang

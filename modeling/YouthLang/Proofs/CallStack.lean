import YouthLang.Proofs.Discipline

/-!
# Proofs/CallStack — the active calls

The *active calls* of a run are told by its history alone: a function that is entered is put in front of
them, and one that is left is taken away (`Machine.activeCalls`).  A machine keeps no such list, only
tasks that wait and a number.  Both agree with the history at every step (`Machine.Tracks`), and a
failure on its way out collects just the calls that were active when it arose
(`Session.call_stack`).
-/

namespace YouthLang

/-! ## The history of calls -/

/-- The call that a task is the end of, as a diagnostic shows it. -/
def Pending.callSite? : Pending → Option CallSite
  | .call function line _ _ => some ⟨function, [], line⟩
  | _ => none

theorem Pending.callSite?_of_isPlain {p : Pending} (h : p.isPlain) : p.callSite? = none := by
  cases p <;> first | rfl | exact absurd h (by simp [isPlain])

namespace Machine

variable (m : Machine)

/-- The next step leaves a function. -/
def leavesCall : Bool :=
  m.control.isOutcome && (m.pending.head?.bind Pending.callSite?).isSome

/-- The calls that are active after the next step. -/
def nextCalls (calls : List CallSite) : List CallSite :=
  match m.entering? with
  | some call => call :: calls
  | none => if m.leavesCall then calls.tail else calls

/-- The calls that are active after some steps, innermost first. -/
def activeCalls : Nat → List CallSite
  | 0 => []
  | n + 1 => (m.run n).nextCalls (activeCalls n)

/-- The next step raises a failure. -/
def Throws (e : Diagnostic) : Prop := (∀ d, m.control ≠ .failing d) ∧ m.step.control = .failing e

/-- The tasks that wait and the depth are those of some active calls. -/
structure Tracks (calls : List CallSite) : Prop where
  tasks : m.pending.filterMap Pending.callSite? = calls
  depth : m.depth = calls.length
  le : m.depth ≤ maxCalls

variable {m} {m' : Machine} {calls : List CallSite} {popped : Option Pending} {rest : List Pending}
  {p : Pending} {d e : Diagnostic} {ok : Distances → Visit → Prop}

/-! ## One step -/

theorem leavesCall_of_head (hpending : m.pending = p :: rest) (hplain : p.callSite? = none) :
    m.leavesCall = false := by
  simp [leavesCall, hpending, hplain]

theorem leavesCall_of_begins (h : m.control.isOutcome = false) : m.leavesCall = false := by
  simp [leavesCall, h]

theorem Takes.leavesCall (ht : m.Takes popped rest) : m.leavesCall = false := by
  cases popped with
  | none =>
    by_cases hended : m.control.isOutcome
    · simp [Machine.leavesCall, ht.idle rfl hended]
    · exact leavesCall_of_begins (by simpa using hended)
  | some p => exact leavesCall_of_head ht.pending (Pending.callSite?_of_isPlain (ht.plain p rfl))

theorem Takes.nextCalls (ht : m.Takes popped rest) : m.nextCalls calls = calls := by
  simp [Machine.nextCalls, ht.entering, ht.leavesCall]

/-- The active calls stay when a statement is begun or a plain task is dropped. -/
theorem nextCalls_of_ne_value (hvalue : ∀ v, m.control ≠ .value v) (hleaves : m.leavesCall = false) :
    m.nextCalls calls = calls := by
  simp [nextCalls, entering?_of_ne_value hvalue, hleaves]

theorem Takes.filterMap_callSite? (ht : m.Takes popped rest) :
    m.pending.filterMap Pending.callSite? = rest.filterMap Pending.callSite? := by
  rw [ht.pending]
  cases popped with
  | none => rfl
  | some p => simp [Pending.callSite?_of_isPlain (ht.plain p rfl)]

theorem filterMap_callSite?_plain {pushed : List Pending} (h : ∀ p ∈ pushed, p.isPlain) :
    (pushed ++ rest).filterMap Pending.callSite? = rest.filterMap Pending.callSite? := by
  rw [List.filterMap_append, List.filterMap_eq_nil_iff.mpr fun p hp =>
    Pending.callSite?_of_isPlain (h p hp), List.nil_append]

/-- A call that is left is the innermost one of the active calls. -/
theorem Tracks.innermost {function : Text} {line frame : Nat} {distances : Distances}
    (ht : m.Tracks calls) (hpending : m.pending = .call function line frame distances :: rest)
    (hvalue : ∀ v, m.control ≠ .value v) (hended : m.control.isOutcome) :
    calls = ⟨function, [], line⟩ :: m.nextCalls calls := by
  have htasks := ht.tasks
  simp only [hpending, List.filterMap_cons, Pending.callSite?] at htasks
  simp [nextCalls, entering?_of_ne_value hvalue, leavesCall, hended, hpending, Pending.callSite?,
    ← htasks]

/-- A machine with the same depth, whose tasks end the same calls. -/
theorem Tracks.stays (ht : m.Tracks calls) (hcalls : m.nextCalls calls = calls)
    (hdepth : m'.depth = m.depth)
    (htasks : m'.pending.filterMap Pending.callSite? = m.pending.filterMap Pending.callSite?) :
    m'.Tracks (m.nextCalls calls) where
  tasks := htasks.trans (ht.tasks.trans hcalls.symm)
  depth := hdepth.trans (ht.depth.trans (congrArg List.length hcalls.symm))
  le := hdepth ▸ ht.le

/-- A machine that has left a call. -/
theorem Tracks.leaves {function : Text} {line frame : Nat} {distances : Distances}
    (ht : m.Tracks calls) (hpending : m.pending = .call function line frame distances :: rest)
    (hvalue : ∀ v, m.control ≠ .value v) (hended : m.control.isOutcome) (hrest : m'.pending = rest)
    (hdepth : m'.depth = m.depth - 1) : m'.Tracks (m.nextCalls calls) := by
  have hcalls := ht.innermost hpending hvalue hended
  obtain ⟨htasks, hlength, hle⟩ := ht
  rw [hpending, List.filterMap_cons_some (by rfl : Pending.callSite? _ = some ⟨function, [], line⟩),
    hcalls] at htasks
  rw [hcalls, List.length_cons] at hlength
  exact ⟨hrest ▸ (List.cons.inj htasks).2, by omega, by omega⟩

/-- **One move keeps the tasks and the depth in step with the history.** -/
theorem Tracks.move (ht : m.Tracks calls) (hm : m.Move m') : m'.Tracks (m.nextCalls calls) := by
  -- Only the last three moves change the active calls; the others keep the call tasks in their
  -- order.
  cases hm with
  | steady hended =>
    refine ht.stays (nextCalls_of_ne_value ?_ ?_) rfl rfl
    · intro v hv
      simp [hasEnded, hv] at hended
    · simp [leavesCall, List.isEmpty_iff.mp (Bool.and_eq_true_iff.mp hended).1]
  | plain htakes hplain _ _ _ =>
    exact ht.stays htakes.nextCalls rfl
      ((filterMap_callSite?_plain hplain).trans htakes.filterMap_callSite?.symm)
  | fails htakes _ => exact ht.stays htakes.nextCalls rfl htakes.filterMap_callSite?.symm
  | drops hpending hplain hcontrol =>
    have hnone := Pending.callSite?_of_isPlain hplain
    refine ht.stays (nextCalls_of_ne_value (by simp [hcontrol]) (leavesCall_of_head hpending hnone))
      rfl ?_
    simp [hpending, hnone]
  | «variable» htakes _ => exact ht.stays htakes.nextCalls rfl htakes.filterMap_callSite?.symm
  | function hcontrol | youth hcontrol | block hcontrol =>
    exact ht.stays (nextCalls_of_ne_value (by simp [hcontrol])
      (leavesCall_of_begins (by simp [hcontrol, Control.isOutcome]))) rfl
      (by simp [List.filterMap_cons, Pending.callSite?])
  | leave hpending _ hcontrol =>
    refine ht.stays (nextCalls_of_ne_value hcontrol (leavesCall_of_head hpending rfl)) rfl ?_
    simp [hpending, List.filterMap_cons, Pending.callSite?]
  | enters hpending hplain _ _ _ hlt hentering =>
    obtain ⟨htasks, hdepth, -⟩ := ht
    simp only [nextCalls, hentering]
    rw [hpending, List.filterMap_cons_none (Pending.callSite?_of_isPlain hplain)] at htasks
    exact ⟨by simp [callClosure, List.filterMap_cons, Pending.callSite?, htasks],
      by simp [callClosure, hdepth], hlt⟩
  | returns hpending hcontrol =>
    exact ht.leaves hpending (by rcases hcontrol with h | h <;> simp [h])
      (by rcases hcontrol with h | h <;> simp [h, Control.isOutcome]) rfl rfl
  | escapes hpending hcontrol =>
    exact ht.leaves hpending (by simp [hcontrol]) (by simp [hcontrol, Control.isOutcome]) rfl rfl

/-- A failure that arises has collected no call yet. -/
theorem Move.throws (hm : m.Move m') (hrunning : ∀ d, m.control ≠ .failing d)
    (hfailing : m'.control = .failing e) : (∀ calls, m.nextCalls calls = calls)
      ∧ e.calls = [] ∧ e.file = [] ∧ ∃ cause, e.cause = .runtime cause ∧ m.Raises cause := by
  cases hm with
  | steady _ | leave _ _ _ => exact absurd hfailing (hrunning e)
  | plain _ _ _ hrunning' _ => exact absurd hfailing (hrunning' e)
  | fails htakes hraises =>
    obtain rfl := Control.failing.inj hfailing
    exact ⟨fun _ => htakes.nextCalls, rfl, rfl, _, rfl, hraises⟩
  | drops _ _ hcontrol | escapes _ hcontrol => exact absurd hcontrol (hrunning _)
  | _ => exact absurd hfailing (by simp [callClosure])

/-- A failure on its way out collects the calls that it leaves. -/
theorem Move.unwinds (hm : m.Move m') (ht : m.Tracks calls) (hfailing : m.control = .failing d)
    (hfile : d.file = []) : ∃ left, m'.control = .failing { d with calls := d.calls ++ left }
      ∧ left ++ m.nextCalls calls = calls := by
  have hvalue : ∀ v, m.control ≠ .value v := by simp [hfailing]
  have hstays : m.leavesCall = false → m'.control = m.control →
      ∃ left, m'.control = .failing { d with calls := d.calls ++ left }
        ∧ left ++ m.nextCalls calls = calls := fun hleaves hsame =>
    ⟨[], by rw [hsame, hfailing, List.append_nil], nextCalls_of_ne_value hvalue hleaves⟩
  cases hm with
  | steady hended =>
    exact hstays (by simp [leavesCall, List.isEmpty_iff.mp (Bool.and_eq_true_iff.mp hended).1]) rfl
  | plain htakes _ _ _ _ | fails htakes _ | «variable» htakes _ =>
    exact absurd hfailing (htakes.running d)
  | drops hpending hplain _ =>
    exact hstays (leavesCall_of_head hpending (Pending.callSite?_of_isPlain hplain)) rfl
  | function hcontrol | youth hcontrol | block hcontrol =>
    exact absurd (hfailing.symm.trans hcontrol) (by simp)
  | leave hpending _ _ => exact hstays (leavesCall_of_head hpending rfl) rfl
  | enters _ _ _ hcontrol _ _ _ => exact absurd hcontrol (hvalue _)
  | returns _ hcontrol =>
    rcases hcontrol with h | h <;> exact absurd (hfailing.symm.trans h) (by simp)
  | @escapes function line frame distances rest d' hpending hcontrol =>
    obtain rfl := Control.failing.inj (hfailing.symm.trans hcontrol)
    exact ⟨[⟨function, [], line⟩], by simp [Diagnostic.calledFrom, hfile],
      (ht.innermost hpending hvalue (by simp [hcontrol, Control.isOutcome])).symm⟩

/-! ## Runs -/

/-- At every step of a run, the tasks and the depth are those of the active calls. -/
theorem Sound.tracks (hs : m.Sound ok) (ht : m.Tracks []) : ∀ n, (m.run n).Tracks (m.activeCalls n)
  | 0 => ht
  | n + 1 => by
      rw [run_succ]
      exact (hs.tracks ht n).move (hs.run n).move

/-- **A failure collects the calls that were active when it arose**, some of them by any later step. -/
theorem Throws.collects (hs : m.Sound ok) (ht : m.Tracks []) {n : Nat} (hthrows : (m.run n).Throws e) :
    ∀ k, ∃ left, (m.run (n + 1 + k)).control = .failing { e with calls := left }
      ∧ left ++ m.activeCalls (n + 1 + k) = m.activeCalls n
  | 0 => by
      obtain ⟨hcalls, hnone, -⟩ := (hs.run n).move.throws hthrows.1 hthrows.2
      exact ⟨[], by rw [Nat.add_zero, run_succ, hthrows.2, ← hnone], hcalls _⟩
  | k + 1 => by
      obtain ⟨left, hcontrol, hleft⟩ := hthrows.collects hs ht k
      obtain ⟨-, -, hfile, -⟩ := (hs.run n).move.throws hthrows.1 hthrows.2
      obtain ⟨more, hcontrol', hmore⟩ :=
        (hs.run (n + 1 + k)).move.unwinds (hs.tracks ht (n + 1 + k)) hcontrol hfile
      refine ⟨left ++ more, ?_, ?_⟩
      · rw [← Nat.add_assoc, run_succ, hcontrol']
      · rw [List.append_assoc, ← Nat.add_assoc, activeCalls, hmore, hleft]

/-- A run that has failed has raised a failure before. -/
theorem exists_throws (hstart : ∀ d, m.control ≠ .failing d) :
    ∀ {n d}, (m.run n).control = .failing d → ∃ j < n, ∃ e, (m.run j).Throws e
  | 0, d, hfailing => absurd hfailing (hstart d)
  | n + 1, d, hfailing => by
      rw [run_succ] at hfailing
      by_cases hbefore : ∃ e, (m.run n).control = .failing e
      · obtain ⟨e, he⟩ := hbefore
        obtain ⟨j, hj, hthrows⟩ := exists_throws hstart he
        exact ⟨j, Nat.lt_succ_of_lt hj, hthrows⟩
      · exact ⟨n, Nat.lt_succ_self n, d, not_exists.mp hbefore, hfailing⟩

/-- What a run that has failed reports: the failure that arose, with the calls active then. -/
theorem Throws.ends (hs : m.Sound ok) (ht : m.Tracks []) {n j : Nat} (hthrows : (m.run j).Throws e)
    (hended : (m.run n).hasEnded) (hfailing : (m.run n).control = .failing d) :
    d = { e with calls := m.activeCalls j } := by
  have hlt : j < n := by
    by_contra hge
    rw [run_of_le hended (Nat.le_of_not_lt hge)] at hthrows
    exact hthrows.1 d hfailing
  obtain ⟨k, rfl⟩ := Nat.exists_eq_add_of_le (Nat.succ_le_of_lt hlt)
  obtain ⟨left, hcontrol, hleft⟩ := hthrows.collects hs ht k
  -- no task waits any more, so no call is active, and all of them have been collected
  have hnone : m.activeCalls (j + 1 + k) = [] := by
    rw [← (hs.tracks ht (j + 1 + k)).tasks, List.isEmpty_iff.mp (Bool.and_eq_true_iff.mp hended).1]
    rfl
  rw [hnone, List.append_nil] at hleft
  rw [← hleft]
  exact Control.failing.inj (hfailing.symm.trans hcontrol)

/-! ## Too many calls -/

/-- The step that makes a call. -/
theorem step_of_calling? {callee : Value} {paren : Token} {arguments : List Value}
    (h : m.calling? = some (callee, paren, arguments)) : (∃ v, m.control = .value v)
      ∧ ∃ rest, m.step = { m with pending := rest }.call callee paren arguments := by
  unfold calling? at h
  split at h
  · next v paren rest hvalue hpending =>
    obtain ⟨rfl, rfl, rfl⟩ := by simpa only [Option.some.injEq, Prod.mk.injEq] using h
    exact ⟨⟨v, hvalue⟩, rest, by simp only [step, hvalue, hpending, receive]⟩
  · next v paren callee read rest hvalue hpending =>
    obtain ⟨rfl, rfl, rfl⟩ := by simpa only [Option.some.injEq, Prod.mk.injEq] using h
    exact ⟨⟨v, hvalue⟩, rest, by simp only [step, hvalue, hpending, receive]⟩
  · exact absurd h (by simp)

/-- A call that would be one too many fails. -/
theorem Overflows.throws (h : m.Overflows) :
    ∃ e, m.Throws e ∧ e.cause = .runtime .stackOverflow := by
  obtain ⟨callee, paren, arguments, hcalling, harity, hdepth⟩ := h
  obtain ⟨⟨v, hvalue⟩, rest, hstep⟩ := step_of_calling? hcalling
  have harity' : arity? { m with pending := rest } callee = some (arguments.length : Int) := harity
  have hdepth' : maxCalls ≤ { m with pending := rest }.depth := hdepth
  rw [call, harity'] at hstep
  simp only [ne_eq, not_true, if_false, if_pos hdepth'] at hstep
  exact ⟨_, ⟨by simp [hvalue], congrArg Machine.control hstep⟩, rfl⟩

end Machine

/-- No built-in function fails with a message of its own. -/
def Heap.Standard (h : Heap) : Prop := ∀ n ∈ h.natives, ∀ message, n.builtin ≠ .failing message

theorem Text.append_ne_of_head? {t u : Text} (hne : t ≠ []) (hhead : t.head? ≠ u.head?) (w : Text) :
    t ++ w ≠ u := fun heq => hhead (by rw [← heq, List.head?_append_of_ne_nil _ hne])

/-- The message tells the cause, unless a built-in function has reported it. -/
theorem RuntimeCause.of_message {cause : RuntimeCause} (h : cause.message = "Stack overflow.") :
    cause = .stackOverflow ∨ cause = .reported "Stack overflow." := by
  cases cause with
  | stackOverflow => exact .inl rfl
  | reported message => exact .inr (congrArg _ h)
  | arity expected got | undefinedProperty name | undefinedVariable name | unboundAt name distance =>
    simp only [message, List.append_assoc] at h
    exact absurd h (Text.append_ne_of_head? (by decide) (by decide) _)
  | _ => exact absurd h (by decide)

namespace Machine

variable {m : Machine} {ok : Distances → Visit → Prop}

theorem standard_ofClock (clock : Clock) : (Machine.ofClock clock).heap.Standard := by
  intro n hn message
  simp only [ofClock, builtins, install, Heap.newNative, Heap.define, Heap.newFrame, Heap.empty,
    List.foldl_cons, List.foldl_nil, Array.mem_push, Array.not_mem_empty, false_or] at hn
  rcases hn with (rfl | rfl) | rfl <;> simp

theorem Sound.natives_run (hs : m.Sound ok) : ∀ n, (m.run n).heap.natives = m.heap.natives
  | 0 => rfl
  | n + 1 => by
      rw [run_succ]
      exact (hs.run n).move.keeps.natives.trans (hs.natives_run n)

/-- **The message of too many calls is raised by a call that would be one too many**, and by nothing
else. -/
theorem Sound.throws_overflow_iff (hs : m.Sound ok) (hstandard : m.heap.Standard) :
    (∃ e, m.Throws e ∧ e.message = "Stack overflow.") ↔ m.Overflows := by
  constructor
  · rintro ⟨e, hthrows, hmessage⟩
    obtain ⟨-, -, -, cause, hcause, hraises⟩ := hs.move.throws hthrows.1 hthrows.2
    rw [Diagnostic.message, hcause] at hmessage
    rcases RuntimeCause.of_message hmessage with rfl | rfl
    · exact hraises.overflow rfl
    · rcases hraises.reported _ rfl with ⟨n, hn, hfailing⟩ | ⟨v, hlen⟩
      · exact absurd hfailing (hstandard n hn _)
      · exact absurd hlen.symm (Text.append_ne_of_head? (by decide) (by decide) _)
  · intro hoverflows
    obtain ⟨e, hthrows, hcause⟩ := hoverflows.throws
    exact ⟨e, hthrows, by rw [Diagnostic.message, hcause]; rfl⟩

end Machine

/-! ## Sessions -/

/-- A diagnostic as a run reports it has its calls in the file of the run. -/
theorem Diagnostic.calls_decorate {d : Diagnostic} (hfiles : ∀ c ∈ d.calls, c.file = [])
    (file source : Text) :
    (d.decorate file source).calls = d.calls.map fun c => { c with file := file } := by
  have hattach : ∀ d : Diagnostic, (d.attach source).calls = d.calls := fun d => by
    unfold attach
    split
    · split <;> rfl
    · rfl
  rw [decorate, hattach, placed]
  split
  · next hfile =>
    subst hfile
    refine (List.map_id _).symm.trans (List.map_congr_left fun c hc => ?_)
    rw [← hfiles c hc]
    rfl
  · rfl

namespace Session

variable {s : Session} {file source : Text} {node : Nat} {clock : Clock} {past : Past}

/-- The calls that are active some steps into a source without mistakes, innermost first. -/
def activeCalls (s : Session) (source : Text) (steps : Nat) : List CallSite :=
  (s.machineAt source 0).activeCalls steps

/-- **The calls of a failure are those that were active when it arose.**  Behind any past of a session,
for the run of a source without mistakes: if the run fails, then a failure was raised at some step, and
what is reported is that failure with the calls that were active then, in the file of the session.  A
call becomes active exactly where a function, and nothing else, is called with as many arguments as it
takes while fewer than `maxCalls` calls are active; it goes by the name in the declaration and the line
of the closing parenthesis.  At most `maxCalls` calls are active at any step, and the message of too many
calls is raised exactly by the steps that call something with as many arguments as it takes while so many
are active. -/
theorem call_stack (hs : s = (fresh file node clock).after past)
    (hclean : (analyse s.node s.file source).diagnostics = []) :
    (∀ fuel d, (s.run fuel source).2.outcome = .failed d →
      (∃ j < fuel, ∃ e, (s.machineAt source j).Throws e)
      ∧ ∀ j e, (s.machineAt source j).Throws e →
          d = { e with calls := s.activeCalls source j }.decorate s.file source
          ∧ d.calls = (s.activeCalls source j).map fun c => { c with file := s.file })
    ∧ (∀ n site, (s.machineAt source n).entering? = some site ↔
        ∃ (id : Nat) (c : Closure) (paren : Token) (arguments : List Value),
          (s.machineAt source n).calling? = some (.function id, paren, arguments)
          ∧ (s.machineAt source n).heap.closures[id]? = some c
          ∧ c.declaration.parameters.length = arguments.length
          ∧ (s.activeCalls source n).length < maxCalls
          ∧ site = ⟨c.declaration.name.lexeme, [], paren.place.line⟩)
    ∧ (∀ n, (s.activeCalls source n).length ≤ maxCalls)
    ∧ ∀ n, (∃ e, (s.machineAt source n).Throws e ∧ e.message = "Stack overflow.") ↔
        ∃ callee paren arguments,
          (s.machineAt source n).calling? = some (callee, paren, arguments)
          ∧ (s.machineAt source n).arity? callee = some (arguments.length : Int)
          ∧ (s.activeCalls source n).length = maxCalls := by
  obtain ⟨hheap, hstandard⟩ : s.machine.heap.Sound anywhere ∧ s.machine.heap.Standard := by
    rw [hs]
    refine heap_after (Machine.standard_ofClock clock) (fun m n hsound hstandard => ?_) file node past
    rw [Heap.Standard, hsound.natives_run n]
    exact hstandard
  have hsound : (s.machineAt source 0).Sound anywhere := sound_anywhere hheap hclean 0
  -- The ghost history and the calls among the pending tasks agree all along.
  have htracks : ∀ n, (s.machineAt source n).Tracks (s.activeCalls source n) :=
    hsound.tracks ⟨rfl, rfl, Nat.zero_le _⟩
  refine ⟨fun fuel d hfailed => ?_, fun n site => ?_,
    fun n => (htracks n).depth ▸ (htracks n).le, fun n => ?_⟩
  -- The failure that the run ends with is the one thrown last, with the calls active then.
  · obtain ⟨hended, e', hfailure, rfl⟩ := (outcome_eq_failed_iff hclean).mp hfailed
    have hfailing : (s.machineAt source fuel).control = .failing e' := by
      unfold Machine.failure? at hfailure
      split at hfailure
      · next hcontrol => rw [hcontrol, Option.some.inj hfailure]
      · exact absurd hfailure (by simp)
    refine ⟨Machine.exists_throws (fun d hd => by cases hd) hfailing, fun j e hthrows => ?_⟩
    obtain rfl : e' = { e with calls := s.activeCalls source j } :=
      hthrows.ends hsound (htracks 0) hended hfailing
    refine ⟨rfl, Diagnostic.calls_decorate (fun c hc => ?_) s.file source⟩
    obtain ⟨p, -, hp⟩ := List.mem_filterMap.mp ((htracks j).tasks.symm ▸ hc)
    unfold Pending.callSite? at hp
    split at hp
    · exact (Option.some.inj hp) ▸ rfl
    · exact absurd hp (by simp)
  -- Entering a call depends on its depth, which is the number of active calls.
  · rw [Machine.entering?_eq_some_iff, (htracks n).depth]
  · have hsound' : (s.machineAt source n).Sound anywhere := sound_anywhere hheap hclean n
    have hstandard' : (s.machineAt source n).heap.Standard := by
      rw [Heap.Standard, show (s.machineAt source n).heap.natives = s.machine.heap.natives from
        hsound.natives_run n]
      exact hstandard
    have hdepth := (htracks n).depth
    have hle := (htracks n).le
    rw [hsound'.throws_overflow_iff hstandard', Machine.Overflows]
    refine exists_congr fun callee => exists_congr fun paren => exists_congr fun arguments => ?_
    rw [← hdepth, Nat.le_antisymm_iff]
    simp [hle]

/-- A session in which a function that fails was declared. -/
def withFailing : Session := (fresh [] 0 ⟨0, []⟩).after [(9, "listen f() ( tell -emptiness; )")]

/-- The call of a function of an earlier source that fails is in the report. -/
theorem call_stack_failing : ∃ d, (withFailing.run 15 "f();").2.outcome = .failed d
    ∧ d.calls = [⟨"f", [], 1⟩] := by
  have hclean : (analyse withFailing.node withFailing.file "f();").diagnostics = [] := by
    decide +kernel
  have hfailed : (withFailing.run 15 "f();").2.hasFailed := by cbv
  obtain ⟨d, hd⟩ : ∃ d, (withFailing.run 15 "f();").2.outcome = .failed d := by
    unfold Run.hasFailed at hfailed
    split at hfailed
    · next d hd => exact ⟨d, hd⟩
    · exact absurd hfailed (by simp)
  have hvalue : (withFailing.machineAt "f();" 9).control = .value .emptiness := by cbv
  have hthrows : (withFailing.machineAt "f();" 9).Throws
      { cause := .runtime .operandNotNumber, line := 1, column := 19, lexeme := "-" } :=
    ⟨by simp [hvalue], by cbv⟩
  obtain ⟨hreports, -⟩ := @call_stack withFailing [] "f();" 0 ⟨0, []⟩ _ rfl hclean
  have hactive : withFailing.activeCalls "f();" 9 = [⟨"f", [], 1⟩] := by cbv
  refine ⟨d, hd, ?_⟩
  rw [((hreports 15 d hd).2 9 _ hthrows).2, hactive]
  rfl

end Session

end YouthLang

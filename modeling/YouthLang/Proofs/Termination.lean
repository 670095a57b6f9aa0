import YouthLang.Proofs.Moves

/-!
# Proofs/Termination — programs without loops end

A recursion may go through any function that is found in the heap, so no size of the code alone becomes
smaller when a function is entered.  What does is the *cost* of a machine: the weight of all that lies
ahead, where code at each depth of calls counts so much more than code one call further in that the body
of any function is cheaper there than its call is here.  As long as no code has a loop and no function
is heavier than some bound (`Machine.Tame`), every step lowers the cost, and at the greatest depth no
function is entered any more.  So a machine ends in at most as many steps as its cost
(`Machine.Tame.ends`).
-/

namespace YouthLang

variable {bound bound' : Nat}

/-! ## Tame machines -/

/-- Every function and every method of a heap is tame. -/
structure Heap.Tame (bound : Nat) (h : Heap) : Prop where
  closures : ∀ c ∈ h.closures, c.declaration.Tame bound
  methods : ∀ y ∈ h.youths, ∀ entry ∈ y.methods, entry.2.declaration.Tame bound

namespace Heap.Tame

variable {h h' : Heap}

theorem mono (hle : bound ≤ bound') (ht : h.Tame bound) : h.Tame bound' where
  closures c hc := (ht.closures c hc).mono hle
  methods y hy entry hentry := (ht.methods y hy entry hentry).mono hle

theorem of_eq (ht : h.Tame bound) (hclosures : h'.closures = h.closures)
    (hyouths : h'.youths = h.youths) : h'.Tame bound where
  closures c hc := ht.closures c (hclosures ▸ hc)
  methods y hy := ht.methods y (hyouths ▸ hy)

theorem newClosure {c : Closure} (ht : h.Tame bound) (hc : c.declaration.Tame bound) :
    (h.newClosure c).Tame bound where
  closures d hd := by
    rcases Array.mem_push.mp hd with hd | rfl
    · exact ht.closures d hd
    · exact hc
  methods := ht.methods

theorem newYouth {y : Youth} (ht : h.Tame bound)
    (hy : ∀ entry ∈ y.methods, entry.2.declaration.Tame bound) : (h.newYouth y).Tame bound where
  closures := ht.closures
  methods z hz := by
    rcases Array.mem_push.mp hz with hz | rfl
    · exact ht.methods z hz
    · exact hy

end Heap.Tame

namespace Machine

variable {m m' : Machine} {popped : Option Pending} {rest : List Pending} {p : Pending}
  {ok : Distances → Visit → Prop}

/-- All the code of a machine is tame: what it is about to do, the tasks that wait, and every function
that may be found. -/
structure Tame (bound : Nat) (m : Machine) : Prop where
  heap : m.heap.Tame bound
  control : m.control.Tame bound
  pending : ∀ p ∈ m.pending, p.Tame bound

/-- What a plain step puts in the place of what it takes up. -/
theorem Tame.shrinks {c : Control} {pushed : List Pending} (ht : m.Tame bound)
    (htakes : m.Takes popped rest) (hshrinks : m.control.Shrinks popped c pushed) :
    c.Tame bound ∧ (∀ p ∈ pushed, p.Tame bound)
      ∧ c.weight + tasksWeight pushed < m.control.weight + tasksWeight popped.toList :=
  hshrinks.tame bound ht.control fun p hp =>
    ht.pending p (htakes.pending ▸ List.mem_append_left _ (by simpa using hp))

/-- **One move keeps a machine tame.** -/
theorem Tame.move (ht : m.Tame bound) (hm : m.Move m') : m'.Tame bound := by
  obtain ⟨hheap, hcontrol, hpending⟩ := ht
  have hrest : ∀ {popped rest}, m.Takes popped rest → ∀ p ∈ rest, p.Tame bound :=
    fun htakes p hp => hpending p (htakes.pending ▸ List.mem_append_right _ hp)
  have htail : ∀ {p rest}, m.pending = p :: rest → ∀ q ∈ rest, q.Tame bound :=
    fun hcons q hq => hpending q (hcons ▸ List.mem_cons_of_mem _ hq)
  cases hm with
  | steady _ => exact ⟨hheap, hcontrol, hpending⟩
  | plain htakes _ hshrinks _ hquiet =>
    obtain ⟨hcontrol', hpushed, -⟩ := Tame.shrinks ⟨hheap, hcontrol, hpending⟩ htakes hshrinks
    refine ⟨?_, hcontrol', List.forall_mem_append.mpr ⟨hpushed, hrest htakes⟩⟩
    cases hquiet with
    | method hyouth hmethod =>
      exact .newClosure (hheap.of_eq rfl rfl) (by exact hheap.methods _ hyouth _ hmethod)
    | _ => exact hheap.of_eq rfl rfl
  | fails htakes _ => exact ⟨hheap, trivial, hrest htakes⟩
  | drops hcons _ _ => exact ⟨hheap, hcontrol, htail hcons⟩
  | «variable» htakes _ => exact ⟨hheap.of_eq rfl rfl, trivial, hrest htakes⟩
  | function hexec =>
    rw [hexec] at hcontrol
    exact ⟨(hheap.newClosure (c := m.closureOf _) hcontrol).of_eq rfl rfl, trivial, hpending⟩
  | youth hexec =>
    rw [hexec] at hcontrol
    refine ⟨(hheap.newYouth fun entry hentry => ?_).of_eq rfl rfl, trivial, hpending⟩
    obtain ⟨f, hf, rfl⟩ := List.mem_map.mp hentry
    exact hcontrol.methods f (List.mem_reverse.mp hf)
  | block hexec =>
    rw [hexec] at hcontrol
    exact ⟨hheap.of_eq rfl rfl, trivial,
      List.forall_mem_cons.mpr ⟨hcontrol, List.forall_mem_cons.mpr ⟨trivial, hpending⟩⟩⟩
  | leave hcons _ _ => exact ⟨hheap, hcontrol, htail hcons⟩
  | enters hcons _ _ _ hclosure _ _ =>
    exact ⟨hheap.of_eq rfl rfl, trivial, List.forall_mem_cons.mpr
      ⟨(hheap.closures _ hclosure).body.1,
        List.forall_mem_cons.mpr ⟨trivial, htail hcons⟩⟩⟩
  | returns hcons _ | escapes hcons _ => exact ⟨hheap, trivial, htail hcons⟩

/-! ## Costs -/

/-- What a unit of weight costs at a depth. -/
def unitCost (bound depth : Nat) : Nat := Nat.pow (bound + 2) (maxCalls - depth)

/-- The cost of the tasks that wait for code at a depth. -/
def tasksCost (bound : Nat) : Nat → List Pending → Nat
  | _, [] => 0
  | depth, .call _ _ _ _ :: rest =>
    unitCost bound (depth - 1) * 2 + tasksCost bound (depth - 1) rest
  | depth, p :: rest => unitCost bound depth * p.weight + tasksCost bound depth rest

/-- The cost of all that lies ahead of a machine. -/
def cost (bound : Nat) (m : Machine) : Nat :=
  unitCost bound m.depth * m.control.weight + tasksCost bound m.depth m.pending

theorem unitCost_pos (bound depth : Nat) : 0 < unitCost bound depth := Nat.pow_pos (by omega)

/-- Code one call further in is cheaper, so much that there is room for any body. -/
theorem unitCost_of_lt {depth : Nat} (hlt : depth < maxCalls) :
    unitCost bound depth = unitCost bound (depth + 1) * (bound + 2) := by
  rw [unitCost, unitCost, show maxCalls - depth = maxCalls - (depth + 1) + 1 by omega]
  rfl

variable {depth : Nat}

theorem tasksCost_cons_plain (hplain : p.isPlain) :
    tasksCost bound depth (p :: rest)
      = unitCost bound depth * p.weight + tasksCost bound depth rest := by
  cases p <;> first | rfl | exact absurd hplain (by simp [Pending.isPlain])

theorem tasksCost_plain : ∀ {pushed : List Pending}, (∀ p ∈ pushed, p.isPlain) →
    tasksCost bound depth (pushed ++ rest)
      = unitCost bound depth * tasksWeight pushed + tasksCost bound depth rest
  | [], _ => by simp
  | p :: pushed, h => by
      obtain ⟨hp, hpushed⟩ := List.forall_mem_cons.mp h
      rw [List.cons_append, tasksCost_cons_plain hp, tasksCost_plain hpushed, tasksWeight_cons,
        Nat.mul_add, Nat.add_assoc]

/-- Where something has ended, only the tasks cost. -/
theorem cost_of_weight_eq_zero (h : m.control.weight = 0) :
    m.cost bound = tasksCost bound m.depth m.pending := by
  simp [cost, h]

/-- The cost of a machine that takes up a plain task, if any. -/
theorem Takes.cost (ht : m.Takes popped rest) : m.cost bound
    = unitCost bound m.depth * (m.control.weight + tasksWeight popped.toList)
      + tasksCost bound m.depth rest := by
  rw [Machine.cost, ht.pending, tasksCost_plain (by simpa using ht.plain), Nat.mul_add, Nat.add_assoc]

/-- A machine that has not ended takes up something. -/
theorem Takes.weight_pos (ht : m.Takes popped rest) (hended : m.hasEnded = false) :
    0 < m.control.weight + tasksWeight popped.toList := by
  cases popped with
  | some p => exact Nat.add_pos_right _ (by simp [p.weight_pos])
  | none =>
    refine Nat.add_pos_left ?_ _
    cases hcontrol : m.control with
    | eval e => exact e.weight_pos
    | exec s => exact s.weight_pos
    | value v | giving v => exact Nat.one_pos
    | done =>
      have hnil := ht.idle rfl (by simp [hcontrol, Control.isOutcome])
      exact absurd hended (by simp [hasEnded, hcontrol, hnil])
    | failing d => exact absurd hcontrol (ht.running d)

/-- **Every step lowers the cost.** -/
theorem Tame.cost_lt (ht : m.Tame bound) (hm : m.Move m') (hended : m.hasEnded = false) :
    m'.cost bound < m.cost bound := by
  have hunit := unitCost_pos bound m.depth
  -- The cost counts what waits in units of its depth, a unit of a caller being more than any
  -- callee's.
  cases hm with
  | steady h => exact absurd h (by simp [hended])
  | plain htakes hplain hshrinks _ _ =>
    obtain ⟨-, -, hweight⟩ := ht.shrinks htakes hshrinks
    rw [htakes.cost]
    simp only [cost, tasksCost_plain hplain]
    rw [← Nat.add_assoc, ← Nat.mul_add]
    exact Nat.add_lt_add_right (Nat.mul_lt_mul_of_pos_left hweight hunit) _
  | fails htakes _ | «variable» htakes _ =>
    rw [cost_of_weight_eq_zero rfl, htakes.cost]
    exact Nat.lt_add_of_pos_left (Nat.mul_pos hunit (htakes.weight_pos hended))
  | @drops p rest d hcons hplain _ =>
    have hdropped := Nat.mul_pos hunit p.weight_pos
    simp only [cost, hcons, tasksCost_cons_plain hplain]
    omega
  | function hexec | youth hexec =>
    rw [cost_of_weight_eq_zero rfl, cost, hexec]
    exact Nat.lt_add_of_pos_left (Nat.mul_pos hunit (Stmt.weight_pos _))
  | block hexec =>
    rw [cost_of_weight_eq_zero rfl]
    simp only [cost, hexec, Control.weight, Stmt.weight, tasksCost, Pending.weight, Nat.mul_add]
    omega
  -- To leave a scope or a call drops a task of positive weight.
  | leave hcons _ _ =>
    simp only [cost, hcons, tasksCost, Pending.weight]
    omega
  -- A call costs a unit of the depth around it; the body costs less than that, one level deeper.
  | @enters p rest c paren arguments v hcons hplain hweight hcontrol hclosure hlt _ =>
    have hbody := (ht.heap.closures c hclosure).body.2
    have hcallee : unitCost bound (m.depth + 1) * (bodyWeight c.declaration.body + 1)
        < unitCost bound m.depth := by
      rw [unitCost_of_lt hlt]
      exact Nat.mul_lt_mul_of_pos_left (by omega) (unitCost_pos bound _)
    have hcall : unitCost bound m.depth * 2 ≤ unitCost bound m.depth * p.weight :=
      Nat.mul_le_mul_left _ hweight
    rw [cost_of_weight_eq_zero rfl, cost, hcons, hcontrol, tasksCost_cons_plain hplain]
    generalize p.weight = weight at hcall ⊢
    simp only [callClosure, tasksCost, Pending.weight, Control.weight, Nat.add_sub_cancel]
    omega
  | returns hcons _ =>
    have hcaller := unitCost_pos bound (m.depth - 1)
    simp only [cost, hcons, tasksCost, Control.weight]
    omega
  | escapes hcons _ =>
    have hcaller := unitCost_pos bound (m.depth - 1)
    simp only [cost, hcons, tasksCost, Control.weight]
    omega

/-! ## Runs -/

theorem Tame.run (hs : m.Sound ok) (ht : m.Tame bound) : ∀ n, (m.run n).Tame bound
  | 0 => ht
  | n + 1 => by
      rw [run_succ]
      exact (ht.run hs n).move (hs.run n).move

/-- **A tame machine ends**, in at most as many steps as its cost. -/
theorem Tame.ends (hs : m.Sound ok) (ht : m.Tame bound) : (m.run (m.cost bound)).hasEnded := by
  induction hcost : m.cost bound using Nat.strongRecOn generalizing m with
  | _ n ih =>
    by_cases hended : m.hasEnded
    · rwa [run_of_hasEnded hended]
    · have hlt := ht.cost_lt hs.move (by simpa using hended)
      have hstep := ih (m.step.cost bound) (hcost ▸ hlt) hs.step (ht.move hs.move) rfl
      rw [run_step] at hstep
      rwa [run_of_le hstep (by omega)]

end Machine

/-! ## Sessions -/

namespace Session

variable {s : Session} {file source : Text} {node : Nat} {clock : Clock} {past : Past}

/-- Each of some sources that runs, since it has no mistakes, has no loop. -/
def LoopFree (s : Session) (past : Past) : Prop :=
  s.Forall (fun s _ source => (analyse s.node s.file source).diagnostics = [] →
    bodyHasLoop (analyse s.node s.file source).statements = false) past

/-- A source without loops is tame, for a bound that the functions in the heap keep to as well. -/
theorem exists_tame (hheap : ∃ bound, s.machine.heap.Tame bound)
    (hloop : bodyHasLoop (analyse s.node s.file source).statements = false) :
    ∃ bound, (s.machineAt source 0).Tame bound := by
  obtain ⟨bound, htame⟩ := hheap
  refine ⟨max bound (bodyHeaviest (analyse s.node s.file source).statements),
    htame.mono (Nat.le_max_left _ _), trivial, fun p hp => ?_⟩
  obtain rfl := List.mem_singleton.mp hp
  exact ⟨hloop, Nat.le_max_right _ _⟩

/-- **Programs without loops end.**  Behind a past in which no source that ran has a loop, a source
without loops ends, whatever functions it calls and however: from some number of steps on, more change
nothing, and the run has finished, or has been rejected, or has failed. -/
theorem terminates (hs : s = (fresh file node clock).after past)
    (hpast : (fresh file node clock).LoopFree past)
    (hsource : bodyHasLoop (analyse s.node s.file source).statements = false) :
    ∃ n, (s.run n source).2.outcome ≠ .unfinished ∧ ∀ k ≥ n, s.run k source = s.run n source := by
  by_cases hclean : (analyse s.node s.file source).diagnostics = []
  · obtain ⟨hheap, htame⟩ : s.machine.heap.Sound anywhere ∧ ∃ bound, s.machine.heap.Tame bound := by
      rw [hs]
      refine machine_after (P := fun m => ∃ bound, m.heap.Tame bound) ⟨0, ?_, ?_⟩
        (fun s fuel source hsource hclean hsound htame => ?_) hpast
      · exact fun c hc => absurd hc (by simp [Machine.ofClock, Machine.builtins, Machine.install,
          Heap.newNative, Heap.define, Heap.newFrame, Heap.empty])
      · exact fun y hy => absurd hy (by simp [Machine.ofClock, Machine.builtins, Machine.install,
          Heap.newNative, Heap.define, Heap.newFrame, Heap.empty])
      · obtain ⟨bound, htame⟩ := exists_tame htame (hsource hclean)
        exact ⟨bound, (htame.run hsound fuel).heap⟩
    have hsound := sound_anywhere hheap hclean 0
    obtain ⟨bound, htame⟩ := exists_tame htame hsource
    have hended : (s.machineAt source ((s.machineAt source 0).cost bound)).hasEnded :=
      htame.ends hsound
    have hstops : (s.run ((s.machineAt source 0).cost bound) source).2.outcome ≠ .unfinished :=
      mt (outcome_eq_unfinished_iff hclean).mp (by simp [hended])
    exact ⟨_, hstops, fun k hk => run_eq_of_le hclean hstops hk⟩
  · refine ⟨0, ?_, fun k _ => ?_⟩ <;> simp [run, hclean]

/-- A session with two functions that call each other for ever. -/
def withRecursion : Session :=
  (fresh [] 0 ⟨0, []⟩).after [(9, "listen f() ( g(); ) listen g() ( f(); )")]

theorem terminates_recursive : check [] "f();" = []
    ∧ ∃ n, (withRecursion.run n "f();").2.outcome ≠ .unfinished := by
  obtain ⟨n, hstops, -⟩ := @terminates withRecursion [] "f();" 0 ⟨0, []⟩
    [(9, "listen f() ( g(); ) listen g() ( f(); )")] rfl ⟨fun _ => by decide +kernel, trivial⟩
    (by decide +kernel)
  exact ⟨by decide +kernel, n, hstops⟩

end Session

end YouthLang

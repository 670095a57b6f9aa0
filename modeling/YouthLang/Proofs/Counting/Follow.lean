import YouthLang.Proofs.Counting.Twins
import YouthLang.Proofs.Runs

/-!
# Proofs/Counting/Follow — a machine follows a run

A machine *follows* a piece of a run if it comes, in some number of steps, to where the piece ends:
to what it ends with, or to its failure with the tasks that waited for it; and if the piece needs
more fuel than it has, then the machine does not end within as many steps (`Follows`).  Pieces that
come one behind the other are followed one after the other (`Follows.bind`).

What a machine does in one step is told here for everything but the trees: for names, operators,
properties and built-in functions.
-/

namespace YouthLang

namespace Machine

variable {m : Machine} {rest : List Pending} {p : Pending}

/-- An expression in control is evaluated. -/
theorem step_of_eval {e : Expr} (h : m.control = .eval e) : m.step = m.eval e := by
  simp only [step, h]

/-- A statement in control is executed. -/
theorem step_of_exec {s : Stmt} (h : m.control = .exec s) : m.step = m.exec s := by
  simp only [step, h]

/-- A value goes to the work that waits for it. -/
theorem step_of_value {v : Value} (h : m.control = .value v) (hp : m.pending = p :: rest) :
    m.step = receive { m with pending := rest } v p := by
  simp only [step, h, hp]

/-- Work that waits for a statement goes on when that is done. -/
theorem step_of_done (h : m.control = .done) (hp : m.pending = p :: rest) :
    m.step = resume { m with pending := rest } p := by
  simp only [step, h, hp]

/-- A value that is given passes the work on its way out. -/
theorem step_of_giving {v : Value} (h : m.control = .giving v) (hp : m.pending = p :: rest) :
    m.step = takeGiven { m with pending := rest } v p := by
  simp only [step, h, hp]

/-- So does a failure. -/
theorem step_of_failing {d : Diagnostic} (h : m.control = .failing d) (hp : m.pending = p :: rest) :
    m.step = unwind { m with pending := rest } d p := by
  simp only [step, h, hp]

/-- A block is entered. -/
theorem run_of_exec_block {s : Stmt} {body : List Stmt}
    (h : m.control = .exec (.block (s :: body))) : m.run 2 = { m with
      heap := m.heap.newFrame (some m.frame) []
      frame := m.heap.frames.size
      control := .exec s
      pending := .sequence body :: .leave m.frame :: m.pending } := by
  rw [run_succ, run_succ, run, step_of_exec h]
  rfl

/-- The next statement of a block is begun. -/
theorem run_of_sequence {s : Stmt} {body : List Stmt} (h : m.control = .done)
    (hp : m.pending = .sequence (s :: body) :: rest) :
    m.run 2 = exec { m with control := .exec s, pending := .sequence body :: rest } s := by
  rw [run_succ, run_succ, run, step_of_done h hp]
  rfl

/-- Who has not ended had not ended before. -/
theorem hasEnded_of_le {n k : Nat} (h : (m.run k).hasEnded = false) (hle : n ≤ k) :
    (m.run n).hasEnded = false := by
  cases hn : (m.run n).hasEnded with
  | false => rfl
  | true => rw [run_of_le hn hle, hn] at h; exact absurd h (by simp)

end Machine

namespace Counting

/-! ## Following -/

section Follows

variable {α β : Type}

/-- **A machine follows a piece of a run**, before the tasks that wait for it. -/
def Follows (n : Nat) (m : Machine) (rest : List Pending) (post : α → World → Machine → Prop) :
    Ending α → Prop
  | .ended a w => ∃ k, post a w (m.run k)
  | .failed d w => ∃ k, (m.run k).control = .failing d ∧ (m.run k).pending = rest
      ∧ (m.run k).output = w.output
  | .unfinished => (m.run n).hasEnded = false

variable {n k : Nat} {m : Machine} {rest : List Pending} {post post₁ : α → World → Machine → Prop}
  {post' : β → World → Machine → Prop} {x : Ending α}

namespace Follows

/-- What ends as wanted needs no step. -/
theorem ended {a : α} {w : World} (h : post a w m) : Follows n m rest post (.ended a w) := ⟨0, h⟩

/-- A machine that follows for so many steps follows for fewer. -/
theorem mono (h : Follows k m rest post x) (hle : n ≤ k) : Follows n m rest post x := by
  cases x with
  | unfinished => exact Machine.hasEnded_of_le h hle
  | _ => exact h

/-- What holds at the end may be weakened. -/
theorem weaken (h : Follows n m rest post₁ x) (hpost : ∀ a w m', post₁ a w m' → post a w m') :
    Follows n m rest post x := by
  cases x with
  | ended a w =>
    obtain ⟨k, hk⟩ := h
    exact ⟨k, hpost a w _ hk⟩
  | _ => exact h

/-- Behind some steps the machine follows for longer. -/
theorem steps (h : Follows n (m.run k) rest post x) : Follows (k + n) m rest post x := by
  cases x with
  | ended a w =>
    obtain ⟨j, hj⟩ := h
    exact ⟨k + j, by rwa [Machine.run_add]⟩
  | failed d w =>
    obtain ⟨j, hj⟩ := h
    exact ⟨k + j, by rwa [Machine.run_add]⟩
  | unfinished => rw [Follows, Machine.run_add]; exact h

/-- A step may be taken first. -/
theorem step (h : Follows n m.step rest post x) : Follows (n + 1) m rest post x := by
  have hone : m.run 1 = m.step := Machine.run_succ 0
  rw [← hone] at h
  exact Nat.add_comm 1 n ▸ h.steps

/-- So may a step whose result is known. -/
theorem of_step {m' : Machine} (hstep : m.step = m') (h : Follows (n - 1) m' rest post x) :
    Follows n m rest post x := by
  subst hstep
  exact h.step.mono (by omega)

/-- So may several. -/
theorem of_run {m' : Machine} (hrun : m.run k = m') (h : Follows (n - k) m' rest post x) :
    Follows n m rest post x := by
  subst hrun
  exact h.steps.mono (by omega)

end Follows

/-- A task that a failure passes by. -/
def IsPassed : Pending → Prop
  | .call _ _ _ _ => False
  | _ => True

/-- A failure passes by tasks that are no calls. -/
theorem Follows.failed {d : Diagnostic} {w : World} : ∀ {tasks : List Pending} {m : Machine},
    m.control = .failing d → m.pending = tasks ++ rest → m.output = w.output →
      (∀ p ∈ tasks, IsPassed p) → Follows n m rest post (.failed d w)
  | [], m, hcontrol, hpending, houtput, _ => ⟨0, hcontrol, hpending, houtput⟩
  | p :: tasks, m, hcontrol, hpending, houtput, hpassed => by
      obtain ⟨hp, htasks⟩ := List.forall_mem_cons.mp hpassed
      have hstep := Machine.step_of_failing hcontrol hpending
      refine Follows.mono (Follows.step (n := n) ?_) (Nat.le_succ n)
      have hunwound : m.step.control = .failing d ∧ m.step.pending = tasks ++ rest
          ∧ m.step.output = m.output := by
        rw [hstep]
        cases p with
        | call function line frame distances => exact absurd hp (by simp [IsPassed])
        | _ => exact ⟨rfl, rfl, rfl⟩
      exact Follows.failed hunwound.1 hunwound.2.1 (hunwound.2.2.trans houtput) htasks

/-- **Pieces of a run one behind the other are followed one after the other.** -/
theorem Follows.andThen (tasks : List Pending) {f : α → World → Ending β}
    (hx : Follows n m (tasks ++ rest) post x) (hpassed : ∀ p ∈ tasks, IsPassed p)
    (hf : ∀ a w m', post a w m' → Follows n m' rest post' (f a w)) :
    Follows n m rest post' (x.andThen f) := by
  cases x with
  | ended a w =>
    obtain ⟨k, hk⟩ := hx
    exact (hf a w _ hk).steps.mono (Nat.le_add_left n k)
  | failed d w =>
    obtain ⟨k, hcontrol, hpending, houtput⟩ := hx
    exact (Follows.failed (n := n) hcontrol hpending houtput hpassed).steps.mono
      (Nat.le_add_left n k)
  | unfinished => exact hx

/-- Behind some pieces of a run the machine has steps of its own to take. -/
theorem Follows.andSteps (tasks : List Pending) (hx : Follows n m (tasks ++ rest) post₁ x)
    (hpassed : ∀ p ∈ tasks, IsPassed p)
    (hsteps : ∀ a w m', post₁ a w m' → ∃ k, post a w (m'.run k)) : Follows n m rest post x := by
  have hid : x.andThen .ended = x := by cases x <;> rfl
  rw [← hid]
  exact Follows.andThen tasks hx hpassed hsteps

/-- **Runs follow one another.** The work pushed for the first is passed by a failure, and the
second goes on in the world that the first leaves. -/
theorem Follows.bind (tasks : List Pending) {x : Action α} {f : α → Action β} {w : World}
    (hx : Follows n m (tasks ++ rest) post (x w)) (hpassed : ∀ p ∈ tasks, IsPassed p)
    (hf : ∀ a w m', post a w m' → Follows n m' rest post' (f a w)) :
    Follows n m rest post' ((x >>= f) w) :=
  Follows.andThen tasks hx hpassed hf

/-- A call enters itself into a failure. -/
theorem Follows.called {x : Action α} {w : World} {function : Text} {line frame : Nat}
    {distances : Distances}
    (hx : Follows n m (.call function line frame distances :: rest) post (x w)) :
    Follows n m rest post (Action.called function line x w) := by
  unfold Action.called
  cases hw : x w with
  | ended a w₁ => rw [hw] at hx; exact hx
  | failed d w₁ =>
    rw [hw] at hx
    obtain ⟨k, hcontrol, hpending, houtput⟩ := hx
    refine ⟨k + 1, ?_⟩
    rw [Machine.run_succ, Machine.step_of_failing hcontrol hpending]
    exact ⟨rfl, rfl, houtput⟩
  | unfinished => rw [hw] at hx; exact hx

end Follows

/-! ## A run and a machine side by side -/

/-- Where a piece of a run stands, and what it stands for: the scopes around them and which of these
are on which side, the two frames, and the number of active calls. -/
structure Site where
  marks : List Mark
  scopes : List Scope
  scopes' : List Scope
  frame : Nat
  frame' : Nat
  depth : Nat

/-- A run and a machine that have made and printed the same. -/
structure Matched (D D' : Distances) (T : Pairs) (depth : Nat) (w : World) (m : Machine) :
    Prop where
  twin : w.Twin D D' T m.heap
  clock : w.clock = m.clock
  output : w.output = m.output
  distances : m.distances = D'
  depth : m.depth = depth

/-- A run that stands at some code, and a machine that stands at what the code stands for. -/
structure Beside (D D' : Distances) (T : Pairs) (s : Site) (w : World) (m : Machine) : Prop extends
    Matched D D' T s.depth w m where
  frame : m.frame = s.frame'
  standing : Standing T w.heap m.heap s.marks s.scopes s.scopes' s.frame s.frame'

section Comes

variable (D D' : Distances) (T : Pairs) (h h' : Heap) (s : Site) (rest : List Pending)
  {α : Type} (control : α → Control)

/-- The machine has come, from some heaps on, to what a piece of a run has ended with, and stands
where it stood. -/
def Comes (a : α) (w : World) (m : Machine) : Prop :=
  ∃ T₁, Beside D D' T₁ s w m ∧ Onward T T₁ h w.heap h' m.heap ∧ m.control = control a
    ∧ m.pending = rest

end Comes

/-- How a statement has ended. -/
def flow : Option Value → Control
  | none => .done
  | some v => .giving v

/-! ## The ends of statements -/

section Flow

variable {m : Machine} {rest : List Pending} {given : Option Value}

/-- To leave a scope restores the frame around it, however the block ended. -/
theorem step_of_leave {f : Nat} (hc : m.control = flow given) (hp : m.pending = .leave f :: rest) :
    m.step = { m with frame := f, control := flow given, pending := rest } := by
  cases given with
  | none => rw [Machine.step_of_done hc hp]; rfl
  | some v => rw [Machine.step_of_giving hc hp]; rfl

/-- What is left of a list of statements is dropped behind the end of the last or a value given
back. -/
theorem step_of_sequence {body : List YouthLang.Stmt} (hc : m.control = flow given)
    (hp : m.pending = .sequence body :: rest) (hbody : given = none → body = []) :
    m.step = { m with control := flow given, pending := rest } := by
  cases given with
  | none =>
    rw [Machine.step_of_done hc hp, hbody rfl]
    rfl
  | some v => rw [Machine.step_of_giving hc hp]; rfl

/-- A block is left. -/
theorem run_of_block {body : List YouthLang.Stmt} {f : Nat} (hc : m.control = flow given)
    (hp : m.pending = .sequence body :: .leave f :: rest) (hbody : given = none → body = []) :
    m.run 2 = { m with frame := f, control := flow given, pending := rest } := by
  rw [Machine.run_succ, Machine.run_succ, Machine.run, step_of_sequence hc hp hbody]
  exact step_of_leave rfl rfl

end Flow

section Steps

variable {D D' : Distances} {T T₁ : Pairs} {s : Site} {w w₁ : World} {m m₁ : Machine} {n : Nat}
  {rest : List Pending} {α : Type} {control : α → Control} {x : Ending α}

/-- The machine about to do something else. -/
theorem Beside.going (hb : Beside D D' T s w m) (c : Control) (pending : List Pending) :
    Beside D D' T s w { m with control := c, pending := pending } :=
  ⟨⟨hb.twin, hb.clock, hb.output, hb.distances, hb.depth⟩, hb.frame, hb.standing⟩

/-- The run and the machine with other heaps. -/
theorem Beside.onto (hb : Beside D D' T s w m) {h' : Heap} (ht : w₁.Twin D D' T₁ h')
    (ho : Onward T T₁ w.heap w₁.heap m.heap h') (hclock : w₁.clock = w.clock)
    (houtput : w₁.output = w.output) (c : Control) (pending : List Pending) :
    Beside D D' T₁ s w₁ { m with heap := h', control := c, pending := pending } :=
  ⟨⟨ht, hclock.trans hb.clock, houtput.trans hb.output, hb.distances, hb.depth⟩, hb.frame,
    hb.standing.onward ho⟩

/-- The run and the machine in new frames, twins with the same names. -/
theorem Beside.entered (hb : Beside D D' T s w m) {ms : List Mark} {scopes scopes' : List Scope}
    {scope : Scope} {f f' : Nat} {bindings : Bindings}
    (hs : Standing T w.heap m.heap ms scopes scopes' f f')
    (hcovers : ∀ name, scope.lookup name = some true → (bindings.lookup name).isSome)
    {distances : Distances} (hdistances : distances = D') {depth depth' : Nat}
    (hdepth : depth' = depth) (c : Control) (pending : List Pending) :
    Beside D D' (T.insert w.heap.frames.size m.heap.frames.size)
        ⟨.both :: ms, scope :: scopes, scope :: scopes', w.heap.frames.size,
          m.heap.frames.size, depth⟩
        (w.newFrame f bindings)
        { m with
          heap := m.heap.newFrame (some f') bindings
          frame := m.heap.frames.size
          distances := distances
          depth := depth'
          control := c
          pending := pending }
      ∧ Onward T (T.insert w.heap.frames.size m.heap.frames.size) w.heap
        (w.newFrame f bindings).heap m.heap (m.heap.newFrame (some f') bindings) :=
  ⟨⟨⟨hb.twin.enter, hb.clock, hb.output, hdistances, hdepth⟩, rfl, hs.enter hcovers⟩,
    World.Twin.onward_enter T w m.heap⟩

/-- A block is entered on both sides. -/
theorem Beside.enter (hb : Beside D D' T s w m) (c : Control) (pending : List Pending) :
    Beside D D' (T.insert w.heap.frames.size m.heap.frames.size)
        ⟨.both :: s.marks, [] :: s.scopes, [] :: s.scopes', w.heap.frames.size, m.heap.frames.size,
          s.depth⟩
        (w.newFrame s.frame [])
        { m with
          heap := m.heap.newFrame (some m.frame) []
          frame := m.heap.frames.size
          control := c
          pending := pending }
      ∧ Onward T (T.insert w.heap.frames.size m.heap.frames.size) w.heap
        (w.newFrame s.frame []).heap m.heap (m.heap.newFrame (some m.frame) []) := by
  have hstanding := hb.standing
  rw [← hb.frame] at hstanding
  exact hb.entered hstanding (by simp) hb.distances hb.depth c pending

/-- A scope of the first side is entered. -/
theorem Beside.enter_first (hb : Beside D D' T s w m) (c : Control) (pending : List Pending) :
    Beside D D' T
      ⟨.first :: s.marks, [] :: s.scopes, s.scopes', w.heap.frames.size, s.frame', s.depth⟩
      (w.newFrame s.frame []) { m with control := c, pending := pending } :=
  ⟨⟨hb.twin.enter_first, hb.clock, hb.output, hb.distances, hb.depth⟩, hb.frame,
    hb.standing.enter_first⟩

/-- A scope of the second side is entered. -/
theorem Beside.enter_second (hb : Beside D D' T s w m) (c : Control) (pending : List Pending) :
    Beside D D' T
      ⟨.second :: s.marks, s.scopes, [] :: s.scopes', s.frame, m.heap.frames.size, s.depth⟩ w
      { m with
        heap := m.heap.newFrame (some m.frame) []
        frame := m.heap.frames.size
        control := c
        pending := pending } := by
  have hstanding := hb.standing
  rw [← hb.frame] at hstanding
  exact ⟨⟨hb.twin.enter_second, hb.clock, hb.output, hb.distances, hb.depth⟩, rfl,
    hstanding.enter_second⟩

/-- The run and the machine back where they were. -/
theorem Beside.back (hb : Beside D D' T s w m) (hm : Matched D D' T₁ s.depth w₁ m₁)
    (ho : Onward T T₁ w.heap w₁.heap m.heap m₁.heap) (a : α) :
    Comes D D' T w.heap m.heap s rest control a w₁
      { m₁ with frame := m.frame, control := control a, pending := rest } :=
  ⟨T₁, ⟨⟨hm.twin, hm.clock, hm.output, hm.distances, hm.depth⟩, hb.frame, hb.standing.onward ho⟩,
    ho, rfl, rfl⟩

section Onward

variable {h h₁ h' h₁' : Heap} (ho : Onward T T₁ h h₁ h' h₁')

include ho

/-- What comes behind other pieces comes from their start on. -/
theorem Comes.onward {a : α} (hcomes : Comes D D' T₁ h₁ h₁' s rest control a w m) :
    Comes D D' T h h' s rest control a w m := by
  obtain ⟨T₂, hb, ho', hcontrol, hpending⟩ := hcomes
  exact ⟨T₂, hb, ho.trans ho', hcontrol, hpending⟩

/-- What is reached from a later pair of heaps is reached from the earlier one. -/
theorem Follows.onward (hx : Follows n m rest (Comes D D' T₁ h₁ h₁' s rest control) x) :
    Follows n m rest (Comes D D' T h h' s rest control) x :=
  hx.weaken fun _ _ _ hcomes => hcomes.onward ho

end Onward

/-- A value, at once. -/
theorem Beside.value (hb : Beside D D' T s w m) (v : Value) :
    Follows n (m.turn (.value v)) m.pending (Comes D D' T w.heap m.heap s m.pending .value)
      (.ended v w) :=
  .ended ⟨T, hb.going (.value v) m.pending, .refl _ _ _, rfl, rfl⟩

/-- The end of a statement, at once. -/
theorem Beside.flow (hb : Beside D D' T s w m) (given : Option Value) :
    Follows n (m.turn (Counting.flow given)) m.pending
      (Comes D D' T w.heap m.heap s m.pending Counting.flow) (.ended given w) :=
  .ended ⟨T, hb.going (Counting.flow given) m.pending, .refl _ _ _, rfl, rfl⟩

/-- A failure, at once. -/
theorem Beside.failAt (hb : Beside D D' T s w m) (t : Token) (cause : RuntimeCause)
    {post : α → World → Machine → Prop} :
    Follows n (m.failAt t cause) m.pending post (Action.failAt t cause w) :=
  ⟨0, rfl, rfl, hb.output.symm⟩

/-- A value that is there is handed on, and otherwise both fail. -/
theorem Beside.valueOr (hb : Beside D D' T s w m) (v? : Option Value) (t : Token)
    (cause : RuntimeCause) :
    Follows n (m.valueOr v? t cause) m.pending (Comes D D' T w.heap m.heap s m.pending .value)
      (Action.valueOr v? t cause w) := by
  cases v? with
  | some v => exact hb.value v
  | none => exact hb.failAt t cause

/-! ### Names -/

/-- A node that reads a name. -/
theorem Beside.lookUp (hb : Beside D D' T s w m) {ref : Reference}
    (ha : Answers D ⟨ref, s.scopes⟩) (ha' : Answers D' ⟨ref, s.scopes'⟩) :
    Follows n (m.lookUp ref.node ref.token) m.pending
      (Comes D D' T w.heap m.heap s m.pending .value)
      (lookUp D s.frame ref.node ref.token w) := by
  have hstanding := hb.standing
  rw [← hb.frame] at hstanding
  obtain ⟨hframe, hcause⟩ := hb.twin.binding hstanding hb.distances ha ha'
  rw [Machine.lookUp_eq_binding, Counting.lookUp]
  obtain ⟨hnone, hnone'⟩ | ⟨g, g', hg, hg', htwins⟩ := hframe
  · simp only [hnone, hnone', Option.bind_none, hcause hnone']
    exact hb.valueOr none _ _
  · simp only [hg, hg', Option.bind_some, hb.twin.bound htwins]
    cases hbound : m.heap.bound? g' ref.token.lexeme with
    | some v => exact hb.value v
    | none =>
      -- the frame that is found for a name binds it
      have hsome : (m.heap.bound? g' ref.token.lexeme).isSome := by
        unfold Machine.binding at hg'
        split at hg'
        · exact Heap.bound?_of_binderAt? hg'
        · exact Heap.bound?_of_binder? hg'
      simp [hbound] at hsome

/-- A node that writes a name. -/
theorem Beside.assign (hb : Beside D D' T s w m) {ref : Reference}
    (ha : Answers D ⟨ref, s.scopes⟩) (ha' : Answers D' ⟨ref, s.scopes'⟩) (v : Value) :
    Follows n (m.assign ref.node ref.token v) m.pending
      (Comes D D' T w.heap m.heap s m.pending .value)
      (assign D s.frame ref.node ref.token v w) := by
  have hstanding := hb.standing
  rw [← hb.frame] at hstanding
  obtain ⟨hframe, hcause⟩ := hb.twin.binding hstanding hb.distances ha ha'
  rw [Machine.assign_eq_binding, Counting.assign]
  obtain ⟨hnone, hnone'⟩ | ⟨g, g', hg, hg', htwins⟩ := hframe
  · have hpair : w.binding D s.frame ref.node ref.token.lexeme
        = (none, (m.binding ref.node ref.token.lexeme).2) := Prod.ext hnone (hcause hnone')
    simp only [hpair, hnone']
    exact hb.failAt _ _
  · have hpair : w.binding D s.frame ref.node ref.token.lexeme
        = (some g, (w.binding D s.frame ref.node ref.token.lexeme).2) := Prod.ext hg rfl
    simp only [hg']
    rw [hpair]
    have ho := @World.Twin.onward_define g g' ref.token.lexeme v T w m.heap
    exact .ended ⟨T, hb.onto (hb.twin.define htwins) ho rfl rfl _ _, ho, rfl, rfl⟩

/-! ### Operators and properties -/

/-- Both apply a sign to the same value. -/
theorem Beside.applyUnary (hb : Beside D D' T s w m) (op : UnaryOp) (t : Token) (v : Value) :
    Follows n (m.applyUnary op t v) m.pending (Comes D D' T w.heap m.heap s m.pending .value)
      (applyUnary op t v w) := by
  cases op <;> cases v <;> first
    | exact hb.value _
    | exact hb.failAt _ _

/-- Both apply an operator to the same values. -/
theorem Beside.applyBinary (hb : Beside D D' T s w m) (op : BinaryOp) (t : Token) (u v : Value) :
    Follows n (m.applyBinary op t u v) m.pending (Comes D D' T w.heap m.heap s m.pending .value)
      (applyBinary op t u v w) := by
  cases op <;> cases u <;> cases v <;> first
    | exact hb.value _
    | exact hb.failAt _ _

/-- Both write the same field. -/
theorem Beside.setField (hb : Beside D D' T s w m) (object : Nat) (name : Token) (v : Value) :
    Follows n
      { m with heap := m.heap.setField object name.lexeme v, control := .value v } m.pending
      (Comes D D' T w.heap m.heap s m.pending .value) (setField object name v w) := by
  have ho := World.Twin.onward_setField T w m.heap object name.lexeme v
  exact .ended ⟨T, hb.onto (hb.twin.setField object name.lexeme v) ho rfl rfl _ _, ho, rfl, rfl⟩

/-- A method bound to its object: a new function in a new frame, on both sides. -/
theorem Beside.bindMethod (hb : Beside D D' T s w m) {c : Closure} {c' : YouthLang.Closure}
    (hc : c.Twin D D' T w.heap m.heap [[(receiver, true)]] c') (id : Nat) :
    Follows n
      { m with
        heap := (m.heap.newFrame (some c'.frame) [(receiver, .object id)]).newClosure
          { c' with frame := m.heap.frames.size }
        control := .value (.function m.heap.closures.size) } m.pending
      (Comes D D' T w.heap m.heap s m.pending .value)
      (.ended (.function w.closures.size)
        ((w.newFrame c.frame [(receiver, .object id)]).newClosure
          { c with frame := w.heap.frames.size })) := by
  obtain ⟨hdeclaration, hdistances, ms, scopes, scopes', hstanding, hsettled, hsettled'⟩ := hc
  have hentered := @Standing.enter T w.heap m.heap ms scopes scopes' [(receiver, true)] c.frame
    c'.frame hstanding [(receiver, .object id)] fun name hl => by
      by_cases hname : name = receiver
      · simp [hname]
      · have hne : (name == receiver) = false := by simpa using hname
        simp [List.lookup_cons, hne] at hl
  have ho := @World.Twin.onward_enter c.frame c'.frame [(receiver, .object id)] T w m.heap
  have htwin := (@World.Twin.enter D D' T w m.heap c.frame c'.frame [(receiver, .object id)]
    hb.twin).newClosure (@Closure.Twin.mk D D' _ _ _ [] { c with frame := w.heap.frames.size }
      { c' with frame := m.heap.frames.size } hdeclaration hdistances
      ⟨_, _, _, hentered, hsettled, hsettled'⟩)
  have ho' := ho.trans (World.Twin.onward_newClosure _ (w.newFrame c.frame [(receiver, .object id)])
    _ { c with frame := w.heap.frames.size } { c' with frame := m.heap.frames.size })
  exact .ended ⟨_, hb.onto htwin ho' rfl rfl _ _, ho',
    congrArg (Control.value ∘ Value.function) hb.twin.size_closures.symm, rfl⟩

/-- Both read a field, or bind a method of the same name. -/
theorem Beside.property (hb : Beside D D' T s w m) (v : Value) (name : Token) :
    Follows n (m.property v name) m.pending (Comes D D' T w.heap m.heap s m.pending .value)
      (property v name w) := by
  cases v with
  | object id =>
    simp only [Machine.property, Counting.property, hb.twin.objects]
    cases m.heap.objects[id]?.bind fun o => o.fields.lookup name.lexeme with
    | some field => exact hb.value field
    | none =>
      obtain ⟨hc, hc'⟩ | ⟨c, c', hc, hc', htwin⟩ := hb.twin.method? id name.lexeme
      · simp only [hc, hc']
        exact hb.failAt _ _
      · simp only [hc, hc']
        exact hb.bindMethod htwin id
  | _ => exact hb.failAt _ _

/-! ### Calls -/

/-- Both call the same function of the language. -/
theorem Beside.callNative (hb : Beside D D' T s w m) (b : Builtin) (paren : Token)
    (arguments : List Value) :
    Follows n (m.callNative b paren arguments) m.pending
      (Comes D D' T w.heap m.heap s m.pending .value) (callNative b paren arguments w) := by
  cases b with
  | clock =>
    simp only [Machine.callNative, Counting.callNative, hb.clock]
    exact .ended ⟨T, ⟨⟨hb.twin.aside _ _, rfl, hb.output, hb.distances, hb.depth⟩, hb.frame,
      hb.standing⟩, .refl _ _ _, rfl, rfl⟩
  | str =>
    simp only [Machine.callNative, Counting.callNative, hb.twin.describe]
    exact hb.value _
  | len =>
    simp only [Machine.callNative, Counting.callNative]
    cases arguments.headD .emptiness <;> first
      | exact hb.value _
      | exact hb.failAt _ _
  | constant v => exact hb.value v
  | failing message => exact hb.failAt _ _

end Steps

end Counting

end YouthLang

import YouthLang.Proofs.Runs
import YouthLang.Proofs.Scoping
import YouthLang.Proofs.Weights

/-!
# Proofs/Moves — what one step of a machine can do

A step takes up what the machine is about to do and the first task that waits for it, at most, and puts
other tasks in their place.  `Machine.Move` lists what this can come to: something goes on in the same
frame, a name is declared in it, a block or a call is entered or left, a failure arises or is passed on.
Every step is such a move (`Machine.move_step`), so what all moves keep, every run keeps.
-/

namespace YouthLang

/-! ## Tasks -/

namespace Pending

/-- The task goes on in the frame of the task before it: it is not the end of a block or of a call. -/
def isPlain : Pending → Bool
  | .leave _ | .call _ _ _ _ => false
  | _ => true

/-- The task makes a call with the value that it takes. -/
def isLastOfCall : Pending → Bool
  | .callee _ [] | .argument _ _ _ [] => true
  | _ => false

/-- The names that a task may yet declare in the frame it goes on in. -/
def declarations : Pending → List Token
  | .declare name => [name]
  | .branch yes none => yes.declarations
  | .branch yes (some no) => yes.declarations ++ no.declarations
  | .loopTest _ body | .loopBody _ body => body.declarations
  | .sequence body | .program body => body.flatMap Stmt.declarations
  | _ => []

end Pending

namespace Control

/-- What the machine was doing has ended, in one way or another. -/
def isOutcome : Control → Bool
  | .eval _ | .exec _ => false
  | _ => true

/-- The names that a machine about to do something may yet declare in its frame. -/
def declarations : Control → List Token
  | .exec s => s.declarations
  | _ => []

/-- What goes on, and the tasks put before the rest, are part of what there was and of the task taken
up: no other name is declared, and tame code becomes lighter and stays tame. -/
structure Shrinks (c : Control) (popped : Option Pending) (c' : Control) (pushed : List Pending) :
    Prop where
  declarations : c'.declarations ++ pushed.flatMap Pending.declarations
    ⊆ c.declarations ++ popped.toList.flatMap Pending.declarations
  tame : ∀ bound, c.Tame bound → (∀ p ∈ popped, p.Tame bound) →
    c'.Tame bound ∧ (∀ p ∈ pushed, p.Tame bound)
      ∧ c'.weight + tasksWeight pushed < c.weight + tasksWeight popped.toList

end Control

namespace Machine

variable (m : Machine)

/-- The name that the next step declares in the current frame. -/
def declaring? : Option Token :=
  match m.control, m.pending with
  | .exec (.declare name none), _ => some name
  | .exec (.function declaration), _ => some declaration.name
  | .exec (.youth name _), _ => some name
  | .value _, .declare name :: _ => some name
  | _, _ => none

/-- The call that the next step makes: the value that is called, the closing parenthesis and the
arguments. -/
def calling? : Option (Value × Token × List Value) :=
  match m.control, m.pending with
  | .value v, .callee paren [] :: _ => some (v, paren, [])
  | .value v, .argument paren callee read [] :: _ => some (callee, paren, (v :: read).reverse)
  | _, _ => none

/-- The function that the next step enters, as a diagnostic shows it: a function is called with as many
arguments as it takes, and another call may be active. -/
def entering? : Option CallSite :=
  match m.calling? with
  | some (.function id, paren, arguments) =>
    (m.heap.closures[id]?.filter fun c =>
        c.declaration.parameters.length = arguments.length ∧ m.depth < maxCalls).map fun c =>
      ⟨c.declaration.name.lexeme, [], paren.place.line⟩
  | _ => none

/-- The next step calls something that can be called so, but no other call may be active. -/
def Overflows : Prop :=
  ∃ callee paren arguments, m.calling? = some (callee, paren, arguments)
    ∧ m.arity? callee = some (arguments.length : Int) ∧ maxCalls ≤ m.depth

/-- A value does not meet the end of a block or of a call, which wait for a statement. -/
def Ready : Prop :=
  ∀ v p rest, m.control = .value v → m.pending = p :: rest → p.isPlain

/-- A step takes up a plain task, if something has ended and a task waits for it; nothing has failed,
and no function is entered. -/
structure Takes (popped : Option Pending) (rest : List Pending) : Prop where
  pending : m.pending = popped.toList ++ rest
  plain : ∀ p ∈ popped, p.isPlain
  ended : ∀ p ∈ popped, m.control.isOutcome
  idle : popped = none → m.control.isOutcome → m.pending = []
  running : ∀ d, m.control ≠ .failing d
  entering : m.entering? = none

/-- What a failure that arises in a step tells of it. -/
structure Raises (cause : RuntimeCause) : Prop where
  overflow : cause = .stackOverflow → m.Overflows
  reported : ∀ message, cause = .reported message →
    (∃ n ∈ m.heap.natives, n.builtin = .failing message)
      ∨ ∃ v : Value, message = "len() expects a string, got " ++ v.typeName

end Machine

/-! ## Moves

The list of moves is complete and says all that later proofs need: the guard of each move, what it
pops and pushes, and what it does to the heap. -/

/-- What a step changes in a heap when it declares nothing: no frame that was there gets a new name. -/
inductive Heap.Quiet (h : Heap) : Heap → Prop
  | same : h.Quiet h
  /-- A name that is bound gets another value. -/
  | rebind {frame : Nat} {name : Text} {v : Value} (hbound : (h.bound? frame name).isSome) :
      h.Quiet (h.define frame name v)
  /-- A method of a youth is bound to an object. -/
  | method {y : Youth} {name : Text} {c : Closure} {id : Nat} (hyouth : y ∈ h.youths)
      (hmethod : (name, c) ∈ y.methods) :
      h.Quiet ((h.newFrame (some c.frame) [(receiver, .object id)]).newClosure
        { c with frame := h.frames.size })
  | object {o : Object} : h.Quiet (h.newObject o)
  | field {id : Nat} {name : Text} {v : Value} : h.Quiet (h.setField id name v)

/-- What one step of a machine can do. -/
inductive Machine.Move (m : Machine) : Machine → Prop
  /-- The machine has ended. -/
  | steady (hended : m.hasEnded) : m.Move m
  /-- Something goes on in the same frame. -/
  | plain {popped : Option Pending} {pushed rest : List Pending} {heap : Heap} {clock : Clock}
      {output : List Text} {control : Control} (htakes : m.Takes popped rest)
      (hplain : ∀ p ∈ pushed, p.isPlain) (hshrinks : m.control.Shrinks popped control pushed)
      (hrunning : ∀ d, control ≠ .failing d) (hquiet : m.heap.Quiet heap) :
      m.Move ⟨heap, clock, output, m.frame, m.distances, m.depth, control, pushed ++ rest⟩
  /-- A failure arises. -/
  | fails {popped : Option Pending} {rest : List Pending} {t : Token} {cause : RuntimeCause}
      (htakes : m.Takes popped rest) (hcause : m.Raises cause) :
      m.Move ({ m with pending := rest }.failAt t cause)
  /-- A failure drops a task. -/
  | drops {p : Pending} {rest : List Pending} {d : Diagnostic} (hpending : m.pending = p :: rest)
      (hplain : p.isPlain) (hcontrol : m.control = .failing d) :
      m.Move { m with pending := rest }
  /-- A variable is declared. -/
  | variable {popped : Option Pending} {rest : List Pending} {t : Token} {v : Value}
      (htakes : m.Takes popped rest) (hdeclaring : m.declaring? = some t) :
      m.Move { m with
        heap := m.heap.define m.frame t.lexeme v, control := .done, pending := rest }
  | function {f : Function} (hcontrol : m.control = .exec (.function f)) :
      m.Move { m with
        heap := (m.heap.newClosure (m.closureOf f)).define m.frame f.name.lexeme
          (.function m.heap.closures.size)
        control := .done }
  | youth {name : Token} {methods : List Function} (hcontrol : m.control = .exec (.youth name methods)) :
      m.Move { m with
        heap := (m.heap.newYouth ⟨name.lexeme, m.methodTable methods⟩).define m.frame name.lexeme
          (.youth m.heap.youths.size)
        control := .done }
  /-- A block is entered. -/
  | block {body : List Stmt} (hcontrol : m.control = .exec (.block body)) :
      m.Move { m with
        heap := m.heap.newFrame (some m.frame) []
        frame := m.heap.frames.size
        control := .done
        pending := .sequence body :: .leave m.frame :: m.pending }
  /-- A block is left. -/
  | leave {frame : Nat} {rest : List Pending} (hpending : m.pending = .leave frame :: rest)
      (hended : m.control.isOutcome) (hcontrol : ∀ v, m.control ≠ .value v) :
      m.Move { m with frame := frame, pending := rest }
  /-- A function is entered. -/
  | enters {p : Pending} {rest : List Pending} {c : Closure} {paren : Token} {arguments : List Value}
      {v : Value} (hpending : m.pending = p :: rest) (hplain : p.isPlain) (hweight : 2 ≤ p.weight)
      (hcontrol : m.control = .value v) (hclosure : c ∈ m.heap.closures) (hdepth : m.depth < maxCalls)
      (hentering : m.entering? = some ⟨c.declaration.name.lexeme, [], paren.place.line⟩) :
      m.Move ({ m with pending := rest }.callClosure c paren arguments)
  /-- A function is left with a value. -/
  | returns {function : Text} {line frame : Nat} {distances : Distances} {rest : List Pending}
      {v : Value} (hpending : m.pending = .call function line frame distances :: rest)
      (hcontrol : m.control = .giving v ∨ m.control = .done) :
      m.Move { m with
        frame := frame, distances := distances, depth := m.depth - 1, control := .value v,
        pending := rest }
  /-- A function is left with a failure. -/
  | escapes {function : Text} {line frame : Nat} {distances : Distances} {rest : List Pending}
      {d : Diagnostic} (hpending : m.pending = .call function line frame distances :: rest)
      (hcontrol : m.control = .failing d) :
      m.Move { m with
        frame := frame, distances := distances, depth := m.depth - 1,
        control := .failing (d.calledFrom function line), pending := rest }

namespace Machine

variable {m : Machine} {popped : Option Pending} {rest : List Pending} {p : Pending} {v : Value}

/-! ## What a step takes up

A step takes what is in control, and the first task if that waits for it. -/

/-- A function is entered only when a value is found. -/
theorem entering?_of_ne_value (h : ∀ v, m.control ≠ .value v) : m.entering? = none := by
  have hcalling : m.calling? = none := by
    unfold calling?
    split
    · next hv _ => exact absurd hv (h _)
    · next hv _ => exact absurd hv (h _)
    · rfl
  simp [entering?, hcalling]

/-- Only a function that is called with as many arguments as it takes is entered. -/
theorem entering?_eq_some_iff {site : CallSite} : m.entering? = some site ↔
    ∃ (id : Nat) (c : Closure) (paren : Token) (arguments : List Value),
      m.calling? = some (.function id, paren, arguments) ∧ m.heap.closures[id]? = some c
      ∧ c.declaration.parameters.length = arguments.length ∧ m.depth < maxCalls
      ∧ site = ⟨c.declaration.name.lexeme, [], paren.place.line⟩ := by
  unfold entering?
  constructor
  · intro h
    split at h
    · next id paren arguments hcalling =>
      obtain ⟨c, hc, rfl⟩ := Option.map_eq_some_iff.mp h
      obtain ⟨hclosure, hfits⟩ := Option.filter_eq_some_iff.mp hc
      obtain ⟨hlength, hdepth⟩ := of_decide_eq_true hfits
      exact ⟨id, c, paren, arguments, hcalling, hclosure, hlength, hdepth, rfl⟩
    · exact absurd h (by simp)
  · rintro ⟨id, c, paren, arguments, hcalling, hclosure, hlength, hdepth, rfl⟩
    simp [hcalling, hclosure, hlength, hdepth]

/-- A call with another number of arguments, or one too many, enters nothing. -/
theorem entering?_of_rejected {callee : Value} {paren : Token} {arguments : List Value}
    (hcalling : m.calling? = some (callee, paren, arguments))
    (hdepth : m.arity? callee = some (arguments.length : Int) → maxCalls ≤ m.depth) :
    m.entering? = none := by
  refine Option.eq_none_iff_forall_ne_some.mpr fun site hsite => ?_
  obtain ⟨id, c, paren', arguments', hcalling', hc, hlength, hlt, -⟩ := entering?_eq_some_iff.mp hsite
  obtain ⟨rfl, rfl, rfl⟩ : callee = .function id ∧ paren = paren' ∧ arguments = arguments' := by
    simpa using hcalling.symm.trans hcalling'
  exact absurd (hdepth (by simp [arity?, hc, hlength])) (Nat.not_le.mpr hlt)

/-- Before an expression or a statement, no task is taken up. -/
theorem Takes.begins (hcontrol : m.control.isOutcome = false) : m.Takes none m.pending where
  pending := rfl
  plain := by simp
  ended := by simp
  idle _ hended := by simp [hcontrol] at hended
  running d hd := by simp [hd, Control.isOutcome] at hcontrol
  entering := entering?_of_ne_value fun v hv => by simp [hv, Control.isOutcome] at hcontrol

theorem Takes.goesOn (hpending : m.pending = p :: rest) (hplain : p.isPlain)
    (hended : m.control.isOutcome) (hrunning : ∀ d, m.control ≠ .failing d)
    (hentering : m.entering? = none) : m.Takes (some p) rest :=
  ⟨hpending, by simpa using hplain, fun _ _ => hended, by simp, hrunning, hentering⟩

/-- A value goes to the task before it, if that is no call that enters a function. -/
theorem Takes.of_value (hvalue : m.control = .value v) (hpending : m.pending = p :: rest)
    (hplain : p.isPlain) (hentering : m.entering? = none) : m.Takes (some p) rest :=
  .goesOn hpending hplain (by simp [hvalue, Control.isOutcome]) (by simp [hvalue]) hentering

theorem Takes.receives (hvalue : m.control = .value v) (hpending : m.pending = p :: rest)
    (hplain : p.isPlain) (hcall : p.isLastOfCall = false) : m.Takes (some p) rest := by
  have hcalling : m.calling? = none := by
    unfold calling?
    split
    · next hlast =>
        obtain ⟨rfl, -⟩ := List.cons.inj (hpending.symm.trans hlast)
        simp [Pending.isLastOfCall] at hcall
    · next hlast =>
        obtain ⟨rfl, -⟩ := List.cons.inj (hpending.symm.trans hlast)
        simp [Pending.isLastOfCall] at hcall
    · rfl
  exact .of_value hvalue hpending hplain (by simp [entering?, hcalling])

theorem Takes.of_done (hdone : m.control = .done) (hpending : m.pending = p :: rest)
    (hplain : p.isPlain) : m.Takes (some p) rest :=
  .goesOn hpending hplain (by simp [hdone, Control.isOutcome]) (by simp [hdone])
    (entering?_of_ne_value (by simp [hdone]))

theorem Takes.of_giving (hgiving : m.control = .giving v) (hpending : m.pending = p :: rest)
    (hplain : p.isPlain) : m.Takes (some p) rest :=
  .goesOn hpending hplain (by simp [hgiving, Control.isOutcome]) (by simp [hgiving])
    (entering?_of_ne_value (by simp [hgiving]))

/-- No task waits. -/
theorem Takes.nothing (hpending : m.pending = []) (hrunning : ∀ d, m.control ≠ .failing d) :
    m.Takes none m.pending where
  pending := rfl
  plain := by simp
  ended := by simp
  idle _ _ := hpending
  running := hrunning
  entering := by
    have hcalling : m.calling? = none := by
      unfold calling?
      split <;> simp_all
    simp [entering?, hcalling]

theorem Raises.of_ne {cause : RuntimeCause} (hoverflow : cause ≠ .stackOverflow)
    (hreported : ∀ message, cause ≠ .reported message) : m.Raises cause :=
  ⟨fun h => absurd h hoverflow, fun message h => absurd h (hreported message)⟩

/-! ## Going on in the same frame

Most steps put a few plain tasks in the place of one, and change nothing else.  They are all of one
kind of move. -/

namespace Move

variable {heap : Heap} {clock : Clock} {output : List Text}

/-- Something ends, and no task takes its place. -/
theorem ends {c : Control} (ht : m.Takes popped rest) (hdeclarations : c.declarations = [])
    (htame : ∀ bound, c.Tame bound) (hrunning : ∀ d, c ≠ .failing d)
    (hweight : c.weight < m.control.weight + tasksWeight popped.toList)
    (hquiet : m.heap.Quiet heap) :
    m.Move ⟨heap, clock, output, m.frame, m.distances, m.depth, c, rest⟩ :=
  .plain ht (List.forall_mem_nil _)
    ⟨by simp [hdeclarations], fun bound _ _ => ⟨htame bound, by simp, by simpa using hweight⟩⟩
    hrunning hquiet

/-- A value is found. -/
theorem value (ht : m.Takes popped rest)
    (hweight : 1 < m.control.weight + tasksWeight popped.toList) (hquiet : m.heap.Quiet heap) :
    m.Move ⟨heap, clock, output, m.frame, m.distances, m.depth, .value v, rest⟩ :=
  ends ht rfl (fun _ => trivial) (by simp) hweight hquiet

theorem done (ht : m.Takes popped rest)
    (hweight : 0 < m.control.weight + tasksWeight popped.toList) (hquiet : m.heap.Quiet heap) :
    m.Move ⟨heap, clock, output, m.frame, m.distances, m.depth, .done, rest⟩ :=
  ends ht rfl (fun _ => trivial) (by simp) hweight hquiet

/-- Something else is begun, with other tasks before the rest. -/
theorem begins {c : Control} (pushed : List Pending) (ht : m.Takes popped rest)
    (hplain : ∀ p ∈ pushed, p.isPlain) (hrunning : ∀ d, c ≠ .failing d)
    (hshrinks : m.control.Shrinks popped c pushed) :
    m.Move { m with control := c, pending := pushed ++ rest } :=
  .plain ht hplain hshrinks hrunning .same

/-- An expression is begun, and a task waits for its value. -/
theorem evalFor {e : Expr} {q : Pending} (ht : m.Takes popped rest) (hplain : q.isPlain)
    (hdeclarations : q.declarations ⊆ m.control.declarations
      ++ popped.toList.flatMap Pending.declarations)
    (htame : ∀ bound, m.control.Tame bound → (∀ p ∈ popped, p.Tame bound) →
      q.Tame bound ∧ e.weight + q.weight < m.control.weight + tasksWeight popped.toList) :
    m.Move ({ m with pending := rest }.evalFor e q) := by
  refine begins [q] ht (by simpa using hplain) (by simp)
    ⟨by simpa [Control.declarations] using hdeclarations, fun bound hc hp => ?_⟩
  obtain ⟨hq, hweight⟩ := htame bound hc hp
  exact ⟨trivial, by simpa using hq, by simpa [Control.weight] using hweight⟩

/-! ## Expressions -/

theorem valueOr {e : Expr} (heval : m.control = .eval e) (hweight : 1 < e.weight)
    (v? : Option Value) (t : Token) (cause : RuntimeCause) (hraises : m.Raises cause) :
    m.Move (m.valueOr v? t cause) := by
  have ht : m.Takes none m.pending := .begins (by simp [heval, Control.isOutcome])
  cases v? with
  | some v => exact value ht (by simpa [heval, Control.weight] using hweight) .same
  | none => exact .fails ht hraises

theorem lookUp {e : Expr} (heval : m.control = .eval e) (hweight : 1 < e.weight) (node : Nat)
    (name : Token) : m.Move (m.lookUp node name) := by
  unfold Machine.lookUp
  split
  · exact valueOr heval hweight _ _ _ (.of_ne (by simp) (by simp))
  · exact valueOr heval hweight _ _ _ (.of_ne (by simp) (by simp))

/-- The first step of an expression. -/
theorem eval {e : Expr} (heval : m.control = .eval e) : m.Move (m.eval e) := by
  have ht : m.Takes none m.pending := .begins (by simp [heval, Control.isOutcome])
  have hbegins : ∀ {inner : Expr} {q : Pending}, q.isPlain → q.declarations = [] →
      (∀ bound, q.Tame bound) → inner.weight + q.weight < e.weight →
      m.Move (m.evalFor inner q) := fun hplain hdeclarations htame hweight =>
    evalFor ht hplain (by simp [hdeclarations]) fun bound _ _ =>
      ⟨htame bound, by simpa [heval, Control.weight] using hweight⟩
  cases e with
  | literal value => exact Move.value ht (by simp [heval, Control.weight, Expr.weight]) .same
  | «variable» node name => exact lookUp heval (by simp [Expr.weight]) node name
  | me node keyword => exact lookUp heval (by simp [Expr.weight]) node keyword
  | group inner =>
    exact begins [] ht (by simp) (by simp) ⟨by simp [Control.declarations],
      fun _ _ _ => ⟨trivial, by simp, by simp [heval, Control.weight, Expr.weight]⟩⟩
  | _ =>
    refine hbegins rfl rfl (fun _ => trivial) ?_
    simp only [Expr.weight, Pending.weight]
    omega

/-- A sign takes its operand. -/
theorem applyUnary (hvalue : m.control = .value v) (ht : m.Takes (some p) rest) (op : UnaryOp)
    (t : Token) : m.Move ({ m with pending := rest }.applyUnary op t v) := by
  have hfound : ∀ w, m.Move ({ m with pending := rest }.turn (.value w)) := fun w =>
    value ht (by simp [hvalue, Control.weight, p.weight_pos]) .same
  unfold Machine.applyUnary
  split
  · exact hfound _
  · exact hfound _
  · exact .fails ht (.of_ne (by simp) (by simp))

theorem applyBinary (hvalue : m.control = .value v) (ht : m.Takes (some p) rest) (op : BinaryOp)
    (t : Token) (left : Value) : m.Move ({ m with pending := rest }.applyBinary op t left v) := by
  have hfound : ∀ w, m.Move ({ m with pending := rest }.turn (.value w)) := fun w =>
    value ht (by simp [hvalue, Control.weight, p.weight_pos]) .same
  unfold Machine.applyBinary
  split
  · exact hfound _
  · exact hfound _
  · exact hfound _
  · exact hfound _
  · exact .fails ht (.of_ne (by simp) (by simp))
  · exact .fails ht (.of_ne (by simp) (by simp))

/-- An assignment goes to a frame that binds the name already. -/
theorem assign (hvalue : m.control = .value v) (ht : m.Takes (some p) rest) (node : Nat)
    (name : Token) : m.Move ({ m with pending := rest }.assign node name v) := by
  unfold Machine.assign
  split
  next frame? cause heq =>
  have hbound : (∀ g ∈ frame?, (m.heap.bound? g name.lexeme).isSome) ∧ m.Raises cause := by
    split at heq
    · obtain ⟨rfl, rfl⟩ := Prod.mk.inj heq
      exact ⟨fun g hg => Heap.bound?_of_binderAt? hg, .of_ne (by simp) (by simp)⟩
    · obtain ⟨rfl, rfl⟩ := Prod.mk.inj heq
      exact ⟨fun g hg => Heap.bound?_of_binder? hg, .of_ne (by simp) (by simp)⟩
  cases frame? with
  | some g =>
    exact value ht (by simp [hvalue, Control.weight, p.weight_pos]) (.rebind (hbound.1 g rfl))
  | none => exact .fails ht hbound.2

/-- A property read off an object: a method is bound to it in a new frame. -/
theorem property (hvalue : m.control = .value v) (ht : m.Takes (some p) rest) (name : Token) :
    m.Move ({ m with pending := rest }.property v name) := by
  have hweight : 1 < m.control.weight + tasksWeight [p] := by
    simp [hvalue, Control.weight, p.weight_pos]
  have hmissing : ∀ cause : RuntimeCause, cause ≠ .stackOverflow →
      (∀ message, cause ≠ .reported message) →
      m.Move ({ m with pending := rest }.failAt name cause) := fun cause hoverflow hreported =>
    .fails ht (.of_ne hoverflow hreported)
  cases v with
  | object id =>
    simp only [Machine.property]
    split
    · exact value ht hweight .same
    · split
      · next c hc =>
        obtain ⟨y, hy, hl⟩ := Option.bind_eq_some_iff.mp hc
        obtain ⟨o, -, hy⟩ := Option.bind_eq_some_iff.mp hy
        obtain ⟨before, after, heq, -⟩ := List.lookup_eq_some_iff.mp hl
        exact value ht hweight
          (.method (Array.mem_of_getElem? hy) (show (name.lexeme, c) ∈ y.methods by simp [heq]))
      · exact hmissing _ (by simp) (by simp)
  | _ => exact hmissing _ (by simp) (by simp)

/-! ## Calls -/

theorem callNative (hvalue : m.control = .value v) (ht : m.Takes (some p) rest) {n : Native}
    (hn : n ∈ m.heap.natives) (paren : Token) (arguments : List Value) :
    m.Move ({ m with pending := rest }.callNative n.builtin paren arguments) := by
  have hweight : 1 < m.control.weight + tasksWeight [p] := by
    simp [hvalue, Control.weight, p.weight_pos]
  cases hbuiltin : n.builtin with
  | len =>
    simp only [Machine.callNative]
    split
    · exact value ht hweight .same
    · exact .fails ht ⟨by simp, fun message h => .inr ⟨_, (RuntimeCause.reported.inj h).symm⟩⟩
  | failing message =>
    refine .fails ht ⟨by simp, fun other h => .inl ⟨n, hn, ?_⟩⟩
    rw [hbuiltin, RuntimeCause.reported.inj h]
  | _ => exact value ht hweight .same

/-- A call that is accepted: only a function is entered. -/
theorem enter (hvalue : m.control = .value v) (hpending : m.pending = p :: rest)
    (hplain : p.isPlain) (hweight : 2 ≤ p.weight) {callee : Value} {paren : Token}
    {arguments : List Value} (hcalling : m.calling? = some (callee, paren, arguments))
    (harity : m.arity? callee = some (arguments.length : Int)) (hdepth : m.depth < maxCalls) :
    m.Move ({ m with pending := rest }.enter callee paren arguments) := by
  have ht : (∀ id, callee ≠ .function id) → m.Takes (some p) rest := fun hother =>
    .of_value hvalue hpending hplain (by cases callee <;> simp_all [entering?])
  cases callee with
  | native id =>
    simp only [Machine.enter]
    split
    · next n hn => exact callNative hvalue (ht (by simp)) (Array.mem_of_getElem? hn) paren arguments
    · exact .fails (ht (by simp)) (.of_ne (by simp) (by simp))
  | function id =>
    simp only [Machine.arity?, Option.map_eq_some_iff] at harity
    obtain ⟨c, hc, hlength⟩ := harity
    have hlength : c.declaration.parameters.length = arguments.length := by omega
    simp only [Machine.enter, hc]
    exact .enters hpending hplain hweight hvalue (Array.mem_of_getElem? hc) hdepth
      (entering?_eq_some_iff.mpr ⟨id, c, paren, arguments, hcalling, hc, hlength, hdepth, rfl⟩)
  | youth id =>
    exact value (ht (by simp)) (by simp [hvalue, Control.weight, p.weight_pos]) .object
  | _ => simp [Machine.arity?] at harity

/-- A value called: with another number of arguments, or as one call too many, it is rejected. -/
theorem call (hvalue : m.control = .value v) (hpending : m.pending = p :: rest)
    (hplain : p.isPlain) (hweight : 2 ≤ p.weight) {callee : Value} {paren : Token}
    {arguments : List Value} (hcalling : m.calling? = some (callee, paren, arguments)) :
    m.Move ({ m with pending := rest }.call callee paren arguments) := by
  have hrejected : ∀ cause, (m.arity? callee = some (arguments.length : Int) → maxCalls ≤ m.depth) →
      m.Raises cause → m.Move ({ m with pending := rest }.failAt paren cause) :=
    fun cause hdepth hraises =>
      .fails (.of_value hvalue hpending hplain (entering?_of_rejected hcalling hdepth)) hraises
  unfold Machine.call
  split
  · next harity =>
    exact hrejected _ (fun h => absurd (harity.symm.trans h) (by simp)) (.of_ne (by simp) (by simp))
  · next n harity =>
    split
    · next hn =>
      exact hrejected _ (fun h => absurd (Option.some.inj (harity.symm.trans h)) hn)
        (.of_ne (by simp) (by simp))
    · next hn =>
      have harity : m.arity? callee = some (arguments.length : Int) :=
        harity.trans (by rw [Decidable.of_not_not hn])
      split
      · next hdepth =>
        exact hrejected _ (fun _ => hdepth)
          ⟨fun _ => ⟨callee, paren, arguments, hcalling, harity, hdepth⟩, by simp⟩
      · next hdepth =>
        exact enter hvalue hpending hplain hweight hcalling harity (Nat.lt_of_not_le hdepth)

/-! ## Statements -/

/-- The first step of a statement. -/
theorem exec {s : Stmt} (hexec : m.control = .exec s) : m.Move (m.exec s) := by
  have ht : m.Takes none m.pending := .begins (by simp [hexec, Control.isOutcome])
  have hpositive : 0 < m.control.weight := by simp [hexec, Control.weight, s.weight_pos]
  cases s with
  | failed => exact done ht hpositive .same
  | expression value | tell value =>
    exact evalFor ht rfl (by simp [Pending.declarations]) fun _ _ _ =>
      ⟨trivial, by simp [hexec, Control.weight, Stmt.weight, Pending.weight]⟩
  | declare name value =>
    cases value with
    | none => exact .variable ht (by simp [declaring?, hexec])
    | some value =>
      exact evalFor ht rfl
        (by simp [hexec, Control.declarations, Stmt.declarations, Pending.declarations])
        fun _ _ _ => ⟨trivial, by simp [hexec, Control.weight, Stmt.weight, Pending.weight]⟩
  | give keyword value =>
    cases value with
    | none =>
      exact ends ht rfl (fun _ => trivial) (by simp)
        (by simp [hexec, Control.weight, Stmt.weight]) .same
    | some value =>
      exact evalFor ht rfl (by simp [Pending.declarations]) fun _ _ _ =>
        ⟨trivial, by simp [hexec, Control.weight, Stmt.weight, Pending.weight]⟩
  | block body => exact .block hexec
  | branch condition yes no =>
    refine evalFor ht rfl ?_ fun bound hc _ => ?_
    · cases no <;> simp [hexec, Control.declarations, Stmt.declarations, Pending.declarations]
    · rw [hexec] at hc
      cases no with
      | none => exact ⟨hc, by simp [hexec, Control.weight, Stmt.weight, Pending.weight]; omega⟩
      | some no =>
        exact ⟨Stmt.Tame.branch hc,
          by simp [hexec, Control.weight, Stmt.weight, Pending.weight]; omega⟩
  | loop condition body =>
    refine evalFor ht rfl ?_ fun bound hc _ => ?_
    · simp [hexec, Control.declarations, Stmt.declarations, Pending.declarations]
    · rw [hexec] at hc
      exact absurd hc.1 (by simp [Stmt.hasLoop])
  | function f => exact .function hexec
  | youth name methods => exact .youth hexec

/-! ## Tasks taken up -/

/-- A task takes its value. -/
theorem receive (hvalue : m.control = .value v) (hpending : m.pending = p :: rest)
    (hplain : p.isPlain) : m.Move ({ m with pending := rest }.receive v p) := by
  have ht : p.isLastOfCall = false → m.Takes (some p) rest := .receives hvalue hpending hplain
  have hone : m.control.weight = 1 := by simp [hvalue, Control.weight]
  have hweight : 1 < m.control.weight + tasksWeight [p] := by simp [hone, p.weight_pos]
  -- A value weighs one, and the task it goes to at least one more; what is pushed has to weigh
  -- less.
  cases p with
  | unary op t => exact applyUnary hvalue (ht rfl) op t
  | rightOperand op t right =>
    exact evalFor (ht rfl) rfl (by simp [Pending.declarations]) fun _ _ _ =>
      ⟨trivial, by simp [hone, Pending.weight]; omega⟩
  | binary op t left => exact applyBinary hvalue (ht rfl) op t left
  -- The right operand is evaluated or the left one handed on, as the operator and its value decide.
  | logical op right =>
    have ht := ht rfl
    have heval : m.Move ({ m with pending := rest }.turn (.eval right)) :=
      begins [] ht (by simp) (by simp) ⟨by simp [Control.declarations], fun _ _ _ =>
        ⟨trivial, by simp, by simp [Control.weight, Pending.weight]; omega⟩⟩
    have hvalue : m.Move ({ m with pending := rest }.turn (.value v)) := value ht hweight .same
    cases op <;> (simp only [Machine.receive]; split) <;> assumption
  | assign node name => exact assign hvalue (ht rfl) node name
  | get name => exact property hvalue (ht rfl) name
  | setObject name value =>
    have ht := ht rfl
    simp only [Machine.receive]
    split
    · exact evalFor ht rfl (by simp [Pending.declarations]) fun _ _ _ =>
        ⟨trivial, by simp [hone, Pending.weight]; omega⟩
    · exact .fails ht (.of_ne (by simp) (by simp))
  | set name object => exact value (ht rfl) hweight .field
  -- Without arguments the call is made at once.
  | callee paren arguments =>
    cases arguments with
    | nil =>
      exact call hvalue hpending rfl (by simp [Pending.weight]) (by simp [calling?, hvalue, hpending])
    | cons e es =>
      exact evalFor (ht rfl) rfl (by simp [Pending.declarations]) fun _ _ _ =>
        ⟨trivial, by simp [hone, Pending.weight, argumentsWeight]; omega⟩
  | argument paren callee read arguments =>
    cases arguments with
    | nil =>
      exact call hvalue hpending rfl (by simp [Pending.weight]) (by simp [calling?, hvalue, hpending])
    | cons e es =>
      exact evalFor (ht rfl) rfl (by simp [Pending.declarations]) fun _ _ _ =>
        ⟨trivial, by simp [hone, Pending.weight, argumentsWeight]; omega⟩
  -- The one task that declares a name.
  | declare name =>
    exact .variable (ht rfl) (by simp [declaring?, hvalue, hpending])
  | give =>
    exact ends (ht rfl) rfl (fun _ => trivial) (by simp) hweight .same
  -- The branch taken was part of the task, so its declarations are those of the task.
  | branch yes no =>
    have ht := ht rfl
    simp only [Machine.receive]
    cases no with
    | none =>
      split
      · exact begins [] ht (by simp) (by simp) ⟨by simp [Control.declarations, Pending.declarations],
          fun bound _ hp => ⟨hp _ rfl, by simp, by simp [Control.weight, Pending.weight]; omega⟩⟩
      · exact done ht (by omega) .same
    | some no =>
      split
      · exact begins [] ht (by simp) (by simp) ⟨by simp [Control.declarations, Pending.declarations],
          fun bound _ hp =>
            ⟨(hp _ rfl).1, by simp, by simp [Control.weight, Pending.weight]; omega⟩⟩
      · exact begins [] ht (by simp) (by simp) ⟨by simp [Control.declarations, Pending.declarations],
          fun bound _ hp =>
            ⟨(hp _ rfl).2, by simp, by simp [Control.weight, Pending.weight]; omega⟩⟩
  -- The only move that may go on for ever: a round pushes the loop again.
  | loopTest condition body =>
    have ht := ht rfl
    simp only [Machine.receive]
    split
    · exact begins [.loopBody condition body] ht (by simp [Pending.isPlain]) (by simp)
        ⟨by simp [Control.declarations, Pending.declarations], fun bound _ hp => (hp _ rfl).elim⟩
    · exact done ht (by omega) .same
  -- The tasks that restore a setting are not plain.
  | leave frame => exact absurd hplain (by simp [Pending.isPlain])
  | call function line frame distances => exact absurd hplain (by simp [Pending.isPlain])
  | _ => exact done (ht rfl) (by omega) .same

/-- A task goes on after a statement. -/
theorem resume (hdone : m.control = .done) (hpending : m.pending = p :: rest) :
    m.Move ({ m with pending := rest }.resume p) := by
  have hends : p.isPlain → m.Move ({ m with pending := rest }.turn .done) := fun hplain =>
    done (.of_done hdone hpending hplain) (by simp [hdone, Control.weight, p.weight_pos]) .same
  cases p with
  | loopBody condition body =>
    exact evalFor (.of_done hdone hpending rfl) rfl (by simp [Pending.declarations])
      fun bound _ hp => (hp _ rfl).elim
  | sequence body | program body =>
    have ht := Takes.of_done hdone hpending rfl
    cases body with
    | nil => exact hends rfl
    | cons s body =>
      refine .begins [_] ht (by simp [Pending.isPlain]) (by simp)
        ⟨by simp [Control.declarations, Pending.declarations], fun bound _ hp => ?_⟩
      obtain ⟨hs, hbody⟩ := bodyTame_cons (hp _ rfl)
      exact ⟨hs, by simpa [Pending.Tame] using hbody,
        by simp [hdone, Control.weight, Pending.weight, bodyWeight]; omega⟩
  | leave frame =>
    have h := Move.leave hpending (by simp [hdone, Control.isOutcome]) (by simp [hdone])
    simpa [Machine.resume, hdone] using h
  | call function line frame distances => exact .returns hpending (.inr hdone)
  | _ => exact hends rfl

/-- A task takes a value that is given back. -/
theorem takeGiven (hgiving : m.control = .giving v) (hpending : m.pending = p :: rest) :
    m.Move ({ m with pending := rest }.takeGiven v p) := by
  cases p with
  | program body =>
    refine .begins [_] (.of_giving hgiving hpending rfl) (by simp [Pending.isPlain]) (by simp)
      ⟨by simp [Control.declarations, Pending.declarations], fun bound _ hp => ?_⟩
    exact ⟨trivial, by simpa using hp _ rfl, by simp [hgiving, Control.weight]⟩
  | leave frame =>
    have h := Move.leave hpending (by simp [hgiving, Control.isOutcome]) (by simp [hgiving])
    simpa [Machine.takeGiven, hgiving] using h
  | call function line frame distances => exact .returns hpending (.inl hgiving)
  | _ =>
    exact ends (.of_giving hgiving hpending rfl) rfl (fun _ => trivial) (by simp)
      (by simp [hgiving, Control.weight, Pending.weight_pos]) .same

/-- A task is dropped after a failure. -/
theorem unwind {d : Diagnostic} (hfailing : m.control = .failing d) (hpending : m.pending = p :: rest) :
    m.Move ({ m with pending := rest }.unwind d p) := by
  have hdrops : p.isPlain → m.Move ({ m with pending := rest }.turn (.failing d)) := fun hplain => by
    have h := Move.drops hpending hplain hfailing
    simpa [Machine.turn, hfailing] using h
  cases p with
  | leave frame =>
    have h := Move.leave hpending (by simp [hfailing, Control.isOutcome]) (by simp [hfailing])
    simpa [Machine.unwind, hfailing] using h
  | call function line frame distances => exact .escapes hpending hfailing
  | _ => exact hdrops rfl

end Move

/-- **Every step is a move.** -/
theorem move_step (hready : m.Ready) : m.Move m.step := by
  unfold step
  split
  · next e heval => exact .eval heval
  · next s hexec => exact .exec hexec
  · next v p rest hvalue hpending => exact .receive hvalue hpending (hready v p rest hvalue hpending)
  · next p rest hdone hpending => exact .resume hdone hpending
  · next v p rest hgiving hpending => exact .takeGiven hgiving hpending
  · next d p rest hfailing hpending => exact .unwind hfailing hpending
  · next v hvalue hpending =>
    exact .done (.nothing hpending (by simp [hvalue])) (by simp [hvalue, Control.weight]) .same
  · next v hgiving hpending =>
    exact .done (.nothing hpending (by simp [hgiving])) (by simp [hgiving, Control.weight]) .same
  · next hdone hpending => exact .steady (by simp [hasEnded, hdone, hpending])
  · next d hfailing hpending => exact .steady (by simp [hasEnded, hfailing, hpending])

/-! ## Moves of a run -/

variable {ok : Distances → Visit → Prop}

/-- A value does not meet the end of a block or of a call. -/
theorem Sound.ready (hs : m.Sound ok) : m.Ready := by
  intro v p rest hvalue hpending
  rw [Sound, hvalue] at hs
  obtain ⟨b, scopes, -, -, hawaits⟩ := hs
  rw [hpending] at hawaits
  cases hawaits <;> rfl

theorem Sound.move (hs : m.Sound ok) : m.Move m.step := move_step hs.ready

/-- Where no task waits and something has ended, the machine has. -/
theorem Sound.hasEnded (hs : m.Sound ok) (hpending : m.pending = [])
    (hended : m.control.isOutcome) : m.hasEnded := by
  cases hcontrol : m.control with
  | eval e => simp [hcontrol, Control.isOutcome] at hended
  | exec s => simp [hcontrol, Control.isOutcome] at hended
  | value v =>
    rw [Sound, hcontrol] at hs
    obtain ⟨b, scopes, -, -, hawaits⟩ := hs
    rw [hpending] at hawaits
    cases hawaits
  | giving v =>
    rw [Sound, hcontrol] at hs
    obtain ⟨-, scopes, hawaits⟩ := hs
    rw [hpending] at hawaits
    cases hawaits
  | done => simp [Machine.hasEnded, hpending, hcontrol]
  | failing d => simp [Machine.hasEnded, hpending, hcontrol]

end Machine

/-! ## Sessions -/

/-- What is asked of the nodes that run where nothing is said of their names. -/
def anywhere : Distances → Visit → Prop := fun _ _ => True

namespace Session

theorem sound_anywhere {s : Session} {source : Text} (hheap : s.machine.heap.Sound anywhere)
    (hclean : (analyse s.node s.file source).diagnostics = []) (steps : Nat) :
    (s.machineAt source steps).Sound anywhere :=
  .run steps <| .load hheap <| analyse_settled hclean fun _ _ _ _ => trivial

/-- Each of some sources meets a condition, in the session that it is run in. -/
def Forall (Q : Session → Nat → Text → Prop) (s : Session) : Past → Prop
  | [] => True
  | (fuel, source) :: rest => Q s fuel source ∧ ((s.run fuel source).1).Forall Q rest

theorem forall_of_forall {Q : Session → Nat → Text → Prop}
    (h : ∀ s fuel source, Q s fuel source) : ∀ (past : Past) (s : Session), s.Forall Q past
  | [], _ => trivial
  | (fuel, source) :: rest, s => ⟨h s fuel source, forall_of_forall h rest _⟩

/-- What holds of a machine that has run nothing, and what the runs of some sources keep, holds of the
machine behind them. -/
theorem machine_after {P : Machine → Prop} {Q : Session → Nat → Text → Prop} {clock : Clock}
    (hstart : P (.ofClock clock))
    (hrun : ∀ s fuel source, Q s fuel source → (analyse s.node s.file source).diagnostics = [] →
      (s.machineAt source 0).Sound anywhere → P s.machine → P (s.machineAt source fuel))
    {file : Text} {node : Nat} {past : Past} (hpast : (fresh file node clock).Forall Q past) :
    ((fresh file node clock).after past).machine.heap.Sound anywhere
      ∧ P ((fresh file node clock).after past).machine := by
  have hafter : ∀ (past : Past) (s : Session), s.Forall Q past → s.machine.heap.Sound anywhere →
      P s.machine → (s.after past).machine.heap.Sound anywhere ∧ P (s.after past).machine := by
    intro past
    induction past with
    | nil => exact fun s _ hheap hP => ⟨hheap, hP⟩
    | cons entry rest ih =>
      obtain ⟨fuel, source⟩ := entry
      intro s ⟨hsource, hrest⟩ hheap hP
      refine ih (s.run fuel source).1 hrest ?_ ?_ <;>
        by_cases hclean : (analyse s.node s.file source).diagnostics = []
      · rw [run_of_diagnostics_eq_nil fuel hclean]
        exact (sound_anywhere hheap hclean fuel).heap
      · rwa [run_of_diagnostics_ne_nil fuel hclean]
      · rw [run_of_diagnostics_eq_nil fuel hclean]
        exact hrun s fuel source hsource hclean (sound_anywhere hheap hclean 0) hP
      · rwa [run_of_diagnostics_ne_nil fuel hclean]
  exact hafter past _ hpast (Machine.sound_ofClock clock) hstart

/-- What every run keeps of a heap holds of the heap of every session. -/
theorem heap_after {P : Heap → Prop} {clock : Clock} (hstart : P (Machine.ofClock clock).heap)
    (hrun : ∀ (m : Machine) n, m.Sound anywhere → P m.heap → P (m.run n).heap) (file : Text)
    (node : Nat) (past : Past) : ((fresh file node clock).after past).machine.heap.Sound anywhere
      ∧ P ((fresh file node clock).after past).machine.heap :=
  machine_after (P := fun m => P m.heap) hstart
    (fun _ fuel _ _ _ hsound hP => hrun _ fuel hsound hP)
    (forall_of_forall (Q := fun _ _ _ => True) (fun _ _ _ => trivial) past _)

end Session

end YouthLang

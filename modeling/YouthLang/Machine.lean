import YouthLang.Value

/-!
# Machine — running a program one step at a time

A machine has a heap, a current frame, and a *control*: an expression to evaluate, a statement to
execute, or the way the last one ended.  What remains to be done is a list of *pending* tasks, so a
step never nests and a run is the repetition of `Machine.step`.  A statement ends normally, by giving a
value back, or by failing; each task says how it takes each of the three.

At most `maxCalls` calls are active at any time.
-/

namespace YouthLang

/-- The most calls that may be active. -/
def maxCalls : Nat := 10000

/-! ## The clock -/

/-- The readings a program will get from the clock, in nanoseconds; the last one repeats. -/
structure Clock where
  started : Int
  upcoming : List Int

namespace Clock

/-- A clock with its first reading taken. -/
def ofReadings : List Int → Clock
  | [] => ⟨0, []⟩
  | r :: rest => ⟨r, rest⟩

/-- The next reading. -/
def read (c : Clock) : Int × Clock :=
  match c.upcoming with
  | [] => (c.started, c)
  | [r] => (r, c)
  | r :: rest => (r, { c with upcoming := rest })

/-- The clock with its next reading taken for the first one. -/
def restart (c : Clock) : Clock :=
  let (reading, rest) := c.read
  { rest with started := reading }

/-- The longest time between two readings that can be told; a longer one is cut to it. -/
def maxElapsed : Int := 0x7FFFFFFFFFFFFFFF

/-- The time between the start and a reading. -/
def elapsed (c : Clock) (reading : Int) : Int :=
  max (-maxElapsed - 1) (min maxElapsed (reading - c.started))

end Clock

/-- The number of nanoseconds in a second. -/
def nanosPerSecond : Int := 1000000000

/-- A number of nanoseconds in seconds: whole seconds and the rest are converted on their own. -/
def secondsOf (nanos : Int) : Float :=
  Number.ofInt (nanos.tdiv nanosPerSecond)
    + Number.ofInt (nanos.tmod nanosPerSecond) / Number.ofInt nanosPerSecond

/-! ## Tasks -/

/-- What the machine is about to do, or how the last thing it did ended. -/
inductive Control where
  | eval (e : Expr)
  | exec (s : Stmt)
  | value (v : Value)
  | done
  | giving (v : Value)
  | failing (d : Diagnostic)

/-- A task that goes on when an expression or a statement has ended. -/
inductive Pending where
  /- expressions -/
  | unary (op : UnaryOp) (token : Token)
  | rightOperand (op : BinaryOp) (token : Token) (right : Expr)
  | binary (op : BinaryOp) (token : Token) (left : Value)
  | logical (op : LogicalOp) (right : Expr)
  | assign (node : Nat) (name : Token)
  | get (name : Token)
  | setObject (name : Token) (value : Expr)
  | set (name : Token) (object : Nat)
  | callee (paren : Token) (arguments : List Expr)
  | argument (paren : Token) (callee : Value) (read : List Value) (rest : List Expr)
  /- statements -/
  | discard
  | tell
  | declare (name : Token)
  | give
  | branch (yes : Stmt) (no : Option Stmt)
  | loopTest (condition : Expr) (body : Stmt)
  | loopBody (condition : Expr) (body : Stmt)
  | sequence (rest : List Stmt)
  /-- The frame to go back to when a block ends. -/
  | leave (frame : Nat)
  /-- An active call: the function's name, the line of the call, and what the caller goes back to. -/
  | call (function : Text) (line : Nat) (frame : Nat) (distances : Distances)
  /-- The rest of the program. -/
  | program (rest : List Stmt)

/-- A machine between two steps. -/
structure Machine where
  heap : Heap
  clock : Clock
  /-- The lines printed so far, latest first. -/
  output : List Text
  frame : Nat
  distances : Distances
  /-- The number of active calls. -/
  depth : Nat
  control : Control
  pending : List Pending

namespace Machine

/-- The number of the outermost frame. -/
def globals : Nat := 0

/-- The built-in functions that every program starts with. -/
def builtins : List (Text × Native) :=
  [("clock", ⟨0, .clock⟩), ("str", ⟨1, .str⟩), ("len", ⟨1, .len⟩)]

/-- A heap with one more built-in function, bound to a name among the globals. -/
def install (h : Heap) (name : Text) (n : Native) : Heap :=
  (h.newNative n).define globals name (.native h.natives.size)

/-- A machine with nothing to do. -/
def ofClock (clock : Clock) : Machine :=
  { heap := builtins.foldl (fun h (name, n) => install h name n) (Heap.empty.newFrame none [])
    clock := clock
    output := []
    frame := globals
    distances := ∅
    depth := 0
    control := .done
    pending := [] }

/-- Nothing is left to do. -/
def hasEnded (m : Machine) : Bool :=
  m.pending.isEmpty && match m.control with
    | .done | .failing _ => true
    | _ => false

variable (m : Machine)

/-- The machine about to do something, or with something ended. -/
def turn (c : Control) : Machine := { m with control := c }

/-- The machine with a task put in front of the pending ones. -/
def push (p : Pending) : Machine := { m with pending := p :: m.pending }

/-- The machine with an expression to evaluate for a task. -/
def evalFor (e : Expr) (p : Pending) : Machine :=
  { m with control := .eval e, pending := p :: m.pending }

/-- The failure at a token. -/
def failAt (t : Token) (cause : RuntimeCause) : Machine :=
  m.turn <| .failing
    { cause := .runtime cause, line := t.place.line, column := t.place.column, lexeme := t.lexeme }

/-- A value, or the failure at a token if there is none. -/
def valueOr (v : Option Value) (t : Token) (cause : RuntimeCause) : Machine :=
  match v with
  | some v => m.turn (.value v)
  | none => m.failAt t cause

/-! ## Expressions -/

/-- The value of a name: in the frame at the node's distance, or among the globals. -/
def lookUp (node : Nat) (name : Token) : Machine :=
  match m.distances[node]? with
  | some d => m.valueOr (m.heap.getAt? m.frame d name.lexeme) name (.unboundAt name.lexeme d)
  | none => m.valueOr (m.heap.get? globals name.lexeme) name (.undefinedVariable name.lexeme)

/-- A name given a value: in the frame at the node's distance, or among the globals. -/
def assign (node : Nat) (name : Token) (v : Value) : Machine :=
  let (frame?, cause) :=
    match m.distances[node]? with
    | some d => (m.heap.binderAt? m.frame d name.lexeme, .unboundAt name.lexeme d)
    | none => (m.heap.binder? globals name.lexeme, .undefinedVariable name.lexeme)
  match frame? with
  | some frame => { m with heap := m.heap.define frame name.lexeme v, control := .value v }
  | none => m.failAt name cause

/-- The first step of an expression. -/
def eval : Expr → Machine
  | .literal value => m.turn (.value (.ofLiteral value))
  | .variable node name => m.lookUp node name
  | .me node keyword => m.lookUp node keyword
  | .group inner => m.turn (.eval inner)
  | .unary op token operand => m.evalFor operand (.unary op token)
  | .binary op token left right => m.evalFor left (.rightOperand op token right)
  | .logical op _ left right => m.evalFor left (.logical op right)
  | .assign node name value => m.evalFor value (.assign node name)
  | .get object name => m.evalFor object (.get name)
  | .set object name value => m.evalFor object (.setObject name value)
  | .call callee paren arguments => m.evalFor callee (.callee paren arguments)

/-- A sign applied to its operand. -/
def applyUnary (op : UnaryOp) (t : Token) (v : Value) : Machine :=
  match op, v with
  | .not, v => m.turn (.value (.truth !v.isTruthy))
  | .negate, .number x => m.turn (.value (.number (-x)))
  | .negate, _ => m.failAt t .operandNotNumber

/-- An operator applied to two numbers. -/
def arithmetic (op : BinaryOp) (x y : Float) : Value :=
  match op with
  | .add => .number (x + y)
  | .subtract => .number (x - y)
  | .multiply => .number (x * y)
  | .divide => .number (x / y)
  | .equal => .truth (x == y)
  | .notEqual => .truth !(x == y)
  | .less => .truth (x < y)
  | .lessEqual => .truth (x ≤ y)
  | .greater => .truth (y < x)
  | .greaterEqual => .truth (y ≤ x)

/-- An operator applied to its operands: any two values can be compared for equality, two texts can be
added, everything else takes two numbers. -/
def applyBinary (op : BinaryOp) (t : Token) (v w : Value) : Machine :=
  match op, v, w with
  | .equal, v, w => m.turn (.value (.truth (v.same w)))
  | .notEqual, v, w => m.turn (.value (.truth !(v.same w)))
  | op, .number x, .number y => m.turn (.value (arithmetic op x y))
  | .add, .text s, .text u => m.turn (.value (.text (s ++ u)))
  | .add, _, _ => m.failAt t .operandsNotAddable
  | _, _, _ => m.failAt t .operandsNotNumbers

/-- A property read off a value: a field of the object, or a method of its youth bound to it.  A bound
method is a new function in a new frame that binds the receiver. -/
def property (v : Value) (name : Token) : Machine :=
  match v with
  | .object id =>
    match m.heap.objects[id]?.bind fun o => o.fields.lookup name.lexeme with
    | some field => m.turn (.value field)
    | none =>
      match (m.heap.youthOf? id).bind fun y => y.methods.lookup name.lexeme with
      | some c =>
        let frame := m.heap.frames.size
        let function := m.heap.closures.size
        { m with
          heap := (m.heap.newFrame (some c.frame) [(receiver, .object id)]).newClosure
            { c with frame := frame }
          control := .value (.function function) }
      | none => m.failAt name (.undefinedProperty name.lexeme)
  | _ => m.failAt name .noProperties

/-- The number of arguments a value takes when it is called, `none` if it cannot be called. -/
def arity? : Value → Option Int
  | .native id => m.heap.natives[id]?.map Native.arity
  | .function id => m.heap.closures[id]?.map fun c => c.declaration.parameters.length
  | .youth id => m.heap.youths[id]?.map fun _ => 0
  | _ => none

/-- A built-in function applied to its arguments. -/
def callNative (b : Builtin) (paren : Token) (arguments : List Value) : Machine :=
  match b with
  | .clock =>
    let (reading, clock) := m.clock.read
    let start := Number.ofInt m.clock.started / Number.ofInt nanosPerSecond
    { m with
      clock := clock
      control := .value (.number (start + secondsOf (m.clock.elapsed reading))) }
  | .str => m.turn (.value (.text (m.heap.describe (arguments.headD .emptiness))))
  | .len =>
    match arguments.headD .emptiness with
    | .text t => m.turn (.value (.number (Number.ofInt t.length)))
    | v => m.failAt paren (.reported ("len() expects a string, got " ++ v.typeName))
  | .constant v => m.turn (.value v)
  | .failing message => m.failAt paren (.reported message)

/-- A function called: its parameters are bound in a new frame inside its own, and its body runs with
its own distances until the call ends. -/
def callClosure (c : Closure) (paren : Token) (arguments : List Value) : Machine :=
  let bindings := (c.declaration.parameters.zip arguments).foldl
    (fun bs (p, v) => Bindings.put p.lexeme v bs) []
  let frame := m.heap.frames.size
  { m with
    heap := m.heap.newFrame (some c.frame) bindings
    frame := frame
    distances := c.distances
    depth := m.depth + 1
    control := .done
    pending :=
      .sequence c.declaration.body
        :: .call c.declaration.name.lexeme paren.place.line m.frame m.distances :: m.pending }

/-- What a callable value does with as many arguments as it takes. -/
def enter (callee : Value) (paren : Token) (arguments : List Value) : Machine :=
  match callee with
  | .native id =>
    match m.heap.natives[id]? with
    | some n => m.callNative n.builtin paren arguments
    | none => m.failAt paren .notCallable
  | .function id =>
    match m.heap.closures[id]? with
    | some c => m.callClosure c paren arguments
    | none => m.failAt paren .notCallable
  | .youth id =>
    let object := m.heap.objects.size
    { m with
      heap := m.heap.newObject ⟨id, []⟩
      control := .value (.object object) }
  | _ => m.failAt paren .notCallable

/-- A value called.  That it cannot be called is found first, then a wrong number of arguments, then
too many active calls. -/
def call (callee : Value) (paren : Token) (arguments : List Value) : Machine :=
  match m.arity? callee with
  | none => m.failAt paren .notCallable
  | some n =>
    if n ≠ arguments.length then m.failAt paren (.arity n arguments.length)
    else if maxCalls ≤ m.depth then m.failAt paren .stackOverflow
    else m.enter callee paren arguments

/-! ## Statements -/

/-- The heap with a closure for a function declared in the current frame. -/
def closureOf (f : Function) : Closure := ⟨f, m.frame, m.distances⟩

/-- The methods of a youth; of two with one name the later one counts. -/
def methodTable (methods : List Function) : List (Text × Closure) :=
  methods.reverse.map fun f => (f.name.lexeme, m.closureOf f)

/-- The first step of a statement. -/
def exec : Stmt → Machine
  | .failed => m.turn .done
  | .expression value => m.evalFor value .discard
  | .tell value => m.evalFor value .tell
  | .declare name none =>
    { m with heap := m.heap.define m.frame name.lexeme .emptiness, control := .done }
  | .declare name (some value) => m.evalFor value (.declare name)
  | .give _ none => m.turn (.giving .emptiness)
  | .give _ (some value) => m.evalFor value .give
  | .block body =>
    let frame := m.heap.frames.size
    { m with
      heap := m.heap.newFrame (some m.frame) []
      frame := frame
      control := .done
      pending := .sequence body :: .leave m.frame :: m.pending }
  | .branch condition yes no => m.evalFor condition (.branch yes no)
  | .loop condition body => m.evalFor condition (.loopTest condition body)
  | .function f =>
    let closure := m.closureOf f
    let function := m.heap.closures.size
    { m with
      heap := (m.heap.newClosure closure).define m.frame f.name.lexeme (.function function)
      control := .done }
  | .youth name methods =>
    let declared : Youth := ⟨name.lexeme, m.methodTable methods⟩
    let youth := m.heap.youths.size
    { m with
      heap := (m.heap.newYouth declared).define m.frame name.lexeme (.youth youth)
      control := .done }

/-! ## Tasks taken up -/

/-- A task takes the value it waits for. -/
def receive (v : Value) : Pending → Machine
  | .unary op t => m.applyUnary op t v
  | .rightOperand op t right => m.evalFor right (.binary op t v)
  | .binary op t left => m.applyBinary op t left v
  | .logical .or right => if v.isTruthy then m.turn (.value v) else m.turn (.eval right)
  | .logical .and right => if v.isTruthy then m.turn (.eval right) else m.turn (.value v)
  | .assign node name => m.assign node name v
  | .get name => m.property v name
  | .setObject name value =>
    match v with
    | .object id => m.evalFor value (.set name id)
    | _ => m.failAt name .noFields
  | .set name object =>
    { m with heap := m.heap.setField object name.lexeme v, control := .value v }
  | .callee paren [] => m.call v paren []
  | .callee paren (e :: rest) => m.evalFor e (.argument paren v [] rest)
  | .argument paren callee read [] => m.call callee paren (v :: read).reverse
  | .argument paren callee read (e :: rest) => m.evalFor e (.argument paren callee (v :: read) rest)
  | .discard => m.turn .done
  | .tell => { m with output := m.heap.describe v :: m.output, control := .done }
  | .declare name => { m with heap := m.heap.define m.frame name.lexeme v, control := .done }
  | .give => m.turn (.giving v)
  | .branch yes no =>
    if v.isTruthy then m.turn (.exec yes)
    else match no with
      | some s => m.turn (.exec s)
      | none => m.turn .done
  | .loopTest condition body =>
    if v.isTruthy then
      { m with control := .exec body, pending := .loopBody condition body :: m.pending }
    else m.turn .done
  | .loopBody _ _ | .sequence _ | .leave _ | .call _ _ _ _ | .program _ => m.turn .done

/-- A task goes on after a statement that ended normally. -/
def resume : Pending → Machine
  | .loopBody condition body => m.evalFor condition (.loopTest condition body)
  | .sequence [] => m.turn .done
  | .sequence (s :: rest) => { m with control := .exec s, pending := .sequence rest :: m.pending }
  | .leave frame => { m with frame := frame, control := .done }
  | .call _ _ frame distances =>
    { m with
      frame := frame
      distances := distances
      depth := m.depth - 1
      control := .value .emptiness }
  | .program [] => m.turn .done
  | .program (s :: rest) => { m with control := .exec s, pending := .program rest :: m.pending }
  | _ => m.turn .done

/-- A task takes a value that is given back: it stops there if it is a call, the program goes on, and
every other task is dropped. -/
def takeGiven (v : Value) : Pending → Machine
  | .leave frame => { m with frame := frame, control := .giving v }
  | .call _ _ frame distances =>
    { m with frame := frame, distances := distances, depth := m.depth - 1, control := .value v }
  | .program rest => { m with control := .done, pending := .program rest :: m.pending }
  | _ => m.turn (.giving v)

/-- A task is dropped after a failure; an active call enters itself into the diagnostic. -/
def unwind (d : Diagnostic) : Pending → Machine
  | .leave frame => { m with frame := frame, control := .failing d }
  | .call function line frame distances =>
    { m with
      frame := frame
      distances := distances
      depth := m.depth - 1
      control := .failing (d.calledFrom function line) }
  | _ => m.turn (.failing d)

/-- One step.  A machine that has ended stays as it is. -/
def step : Machine :=
  match m.control, m.pending with
  | .eval e, _ => m.eval e
  | .exec s, _ => m.exec s
  | .value v, p :: rest => receive { m with pending := rest } v p
  | .done, p :: rest => resume { m with pending := rest } p
  | .giving v, p :: rest => takeGiven { m with pending := rest } v p
  | .failing d, p :: rest => unwind { m with pending := rest } d p
  | .value _, [] | .giving _, [] => m.turn .done
  | .done, [] | .failing _, [] => m

/-- At most `fuel` steps, as many as there are to do. -/
def run : Nat → Machine → Machine
  | 0, m => m
  | fuel + 1, m => if m.hasEnded then m else run fuel m.step

/-- The machine at the start of a program: at the globals, with no call active and nothing printed. -/
def load (statements : List Stmt) (distances : Distances) : Machine :=
  { m with
    output := []
    frame := globals
    distances := distances
    depth := 0
    control := .done
    pending := [.program statements] }

/-- The failure that a machine has stopped with. -/
def failure? : Option Diagnostic :=
  match m.control with
  | .failing d => some d
  | _ => none

/-- The lines printed, first to last. -/
def lines : List Text := m.output.reverse

end Machine

end YouthLang

import YouthLang.Machine
import YouthLang.Tree.Parse

/-!
# Proofs/Counting/Language — a language with counting loops of its own

The parser has no tree for a counting loop: it builds what the loop stands for
(`countingLoop`).  Here is the language that has one, `Stmt.count`, with everything else as it is:
its trees, the walk that tells what its names refer to, and its runs.

A counting loop has one scope, which holds its initializer.  Each round evaluates the condition in
that scope, where an absent one counts as true, and stops if it is false; then it executes the body
and, unless that has given a value or failed, evaluates the increment, both in the same scope
(`rounds`).

A run is told by recursion on the trees.  What bounds it is its *fuel*, the depth of that recursion;
a run that needs more of it than it gets is `unfinished`.
-/

namespace YouthLang.Counting

/-! ## Trees -/

/-- The first clause of a counting loop. -/
inductive Clause where
  | declare (name : Token) (initializer : Option Expr)
  | expression (value : Expr)

mutual

/-- What may stand in a program, a block or a body. -/
inductive Decl where
  | declare (name : Token) (initializer : Option Expr)
  | function (declaration : Function)
  | youth (name : Token) (methods : List Function)
  | statement (s : Stmt)
  /-- The place of a declaration that could not be parsed. -/
  | failed

/-- What may stand behind a condition too. -/
inductive Stmt where
  | expression (value : Expr)
  | tell (value : Expr)
  | give (keyword : Token) (value : Option Expr)
  | block (body : List Decl)
  | branch (condition : Expr) (yes : Stmt) (no : Option Stmt)
  | loop (condition : Expr) (body : Stmt)
  | count (initializer : Option Clause) (condition increment : Option Expr) (body : Stmt)

/-- A function or a method: its name, its parameters and its body. -/
inductive Function where
  | mk (name : Token) (parameters : List Token) (body : List Decl)

end

namespace Function

def name : Function → Token
  | .mk name _ _ => name

def parameters : Function → List Token
  | .mk _ parameters _ => parameters

def body : Function → List Decl
  | .mk _ _ body => body

end Function

/-! ## What a counting loop stands for -/

/-- A clause as a statement. -/
def Clause.desugar : Clause → YouthLang.Stmt
  | .declare name initializer => .declare name initializer
  | .expression value => .expression value

mutual

/-- A declaration with every counting loop replaced by what it stands for. -/
def Decl.desugar : Decl → YouthLang.Stmt
  | .declare name initializer => .declare name initializer
  | .function declaration => .function declaration.desugar
  | .youth name methods => .youth name (desugarMethods methods)
  | .statement s => s.desugar
  | .failed => .failed

/-- The same for a statement. -/
def Stmt.desugar : Stmt → YouthLang.Stmt
  | .expression value => .expression value
  | .tell value => .tell value
  | .give keyword value => .give keyword value
  | .block body => .block (desugarBody body)
  | .branch condition yes none => .branch condition yes.desugar none
  | .branch condition yes (some no) => .branch condition yes.desugar (some no.desugar)
  | .loop condition body => .loop condition body.desugar
  | .count initializer condition increment body =>
    countingLoop (initializer.map Clause.desugar) condition increment body.desugar

/-- The same for a function. -/
def Function.desugar : Function → YouthLang.Function
  | .mk name parameters body => .mk name parameters (desugarBody body)

/-- The same for a list of declarations. -/
def desugarBody : List Decl → List YouthLang.Stmt
  | [] => []
  | d :: rest => d.desugar :: desugarBody rest

/-- The same for a list of methods. -/
def desugarMethods : List Function → List YouthLang.Function
  | [] => []
  | m :: rest => m.desugar :: desugarMethods rest

end

/-! ## What each name refers to -/

/-- A walk over an expression that may be absent. -/
def resolveOptional (r : Resolution) (e? : Option Expr) : Resolution := e?.elim r (Expr.resolve r)

/-- A walk over the first clause of a counting loop. -/
def resolveClause (r : Resolution) : Option Clause → Resolution
  | none => r
  | some clause => clause.desugar.resolve r

mutual

/-- A walk over a declaration. -/
def Decl.resolve (r : Resolution) : Decl → Resolution
  | .declare name none => (r.declare name).define name
  | .declare name (some value) => (value.resolve (r.declare name)).define name
  | .function declaration =>
    declaration.resolve ((r.declare declaration.name).define declaration.name)
  | .youth name methods =>
    let entered := ((r.declare name).define name).enter [(receiver, true)]
    { (resolveMethods { entered with inYouth := true } methods).leave with inYouth := r.inYouth }
  | .statement s => s.resolve r
  | .failed => r

/-- A walk over a statement.  A counting loop is one scope. -/
def Stmt.resolve (r : Resolution) : Stmt → Resolution
  | .expression value => value.resolve r
  | .tell value => value.resolve r
  | .give keyword none => if r.inFunction then r else r.report keyword .giveOutside
  | .give keyword (some value) =>
    value.resolve (if r.inFunction then r else r.report keyword .giveOutside)
  | .block body => (resolveBody (r.enter []) body).leave
  | .branch condition yes none => yes.resolve (condition.resolve r)
  | .branch condition yes (some no) => no.resolve (yes.resolve (condition.resolve r))
  | .loop condition body => body.resolve (condition.resolve r)
  | .count initializer condition increment body =>
    let begun := resolveClause (r.enter []) initializer
    (resolveOptional (body.resolve (resolveOptional begun condition)) increment).leave

/-- A walk over a function: its parameters and its body are one scope. -/
def Function.resolve (r : Resolution) : Function → Resolution
  | .mk _ parameters body =>
    let entered := parameters.foldl (fun r p => (r.declare p).define p) (r.enter [])
    { (resolveBody { entered with inFunction := true } body).leave with inFunction := r.inFunction }

/-- A walk over a list of declarations. -/
def resolveBody (r : Resolution) : List Decl → Resolution
  | [] => r
  | d :: rest => resolveBody (d.resolve r) rest

/-- A walk over a list of methods. -/
def resolveMethods (r : Resolution) : List Function → Resolution
  | [] => r
  | m :: rest => resolveMethods (m.resolve r) rest

end

/-- The names of a program resolved. -/
def resolve (program : List Decl) : Resolved :=
  let r := resolveBody ⟨[[]], false, false, ∅, []⟩ program
  ⟨r.distances, r.mistakes.reverse⟩

/-! ## What a run changes -/

/-- A function as a value, with the frame it was declared in. -/
structure Closure where
  declaration : Function
  frame : Nat

/-- A declared youth and its methods. -/
structure Youth where
  name : Text
  methods : List (Text × Closure)

/-- What a run has made and printed so far.  The functions and youths stand beside the heap, for
they have trees of this language. -/
structure World where
  heap : Heap
  closures : Array Closure
  youths : Array Youth
  clock : Clock
  /-- The lines printed so far, latest first. -/
  output : List Text

namespace World

/-- The world at the start of a program. -/
def ofClock (clock : Clock) : World := ⟨(Machine.ofClock clock).heap, #[], #[], clock, []⟩

variable (w : World)

/-- A name bound in a frame. -/
def define (frame : Nat) (name : Text) (v : Value) : World :=
  { w with heap := w.heap.define frame name v }

/-- A new frame inside another one. -/
def newFrame (parent : Nat) (bindings : Bindings) : World :=
  { w with heap := w.heap.newFrame (some parent) bindings }

def newClosure (c : Closure) : World := { w with closures := w.closures.push c }

def newYouth (y : Youth) : World := { w with youths := w.youths.push y }

/-- The name of a youth, empty if there is none by that number. -/
def youthName (id : Nat) : Text := (w.youths[id]?.map Youth.name).getD []

/-- The youth of an object. -/
def youthOf? (object : Nat) : Option Youth :=
  w.heap.objects[object]?.bind fun o => w.youths[o.youth]?

/-- A value as a program prints it. -/
def describe : Value → Text
  | .function id =>
    "<fn " ++ (w.closures[id]?.map fun c => c.declaration.name.lexeme).getD [] ++ ">"
  | .youth id => w.youthName id
  | .object id => (w.heap.objects[id]?.map fun o => w.youthName o.youth).getD [] ++ " instance"
  | v => w.heap.describe v

/-- The number of arguments a value takes when it is called, `none` if it cannot be called. -/
def arity? : Value → Option Int
  | .native id => w.heap.natives[id]?.map Native.arity
  | .function id => w.closures[id]?.map fun c => c.declaration.parameters.length
  | .youth id => w.youths[id]?.map fun _ => 0
  | _ => none

end World

/-! ## How a run goes on -/

/-- How a piece of a run ends. -/
inductive Ending (α : Type) where
  | ended (result : α) (world : World)
  | failed (mistake : Diagnostic) (world : World)
  /-- The fuel ran out. -/
  | unfinished

/-- What comes behind a piece that has ended. -/
def Ending.andThen {α β : Type} (ending : Ending α) (f : α → World → Ending β) : Ending β :=
  match ending with
  | .ended a w => f a w
  | .failed d w => .failed d w
  | .unfinished => .unfinished

/-- A piece of a run. -/
def Action (α : Type) : Type := World → Ending α

namespace Action

variable {α : Type}

instance : Monad Action where
  pure a := fun w => .ended a w
  bind x f := fun w => (x w).andThen f

/-- More fuel is needed. -/
def exhausted : Action α := fun _ => .unfinished

/-- The failure at a token. -/
def failAt (t : Token) (cause : RuntimeCause) : Action α := fun w =>
  .failed
    { cause := .runtime cause
      line := t.place.line
      column := t.place.column
      lexeme := t.lexeme } w

/-- A value, or the failure at a token if there is none. -/
def valueOr (v : Option Value) (t : Token) (cause : RuntimeCause) : Action Value :=
  match v with
  | some v => pure v
  | none => failAt t cause

/-- A change of the world. -/
def change (f : World → World) : Action Unit := fun w => .ended () (f w)

/-- A new frame inside another one, by its number. -/
def newFrame (parent : Nat) (bindings : Bindings) : Action Nat := fun w =>
  .ended w.heap.frames.size (w.newFrame parent bindings)

/-- A failure in a call enters the call into its diagnostic. -/
def called (function : Text) (line : Nat) (x : Action α) : Action α := fun w =>
  match x w with
  | .failed d w => .failed (d.calledFrom function line) w
  | ending => ending

end Action

open YouthLang.Counting.Action

/-! ## Expressions -/

/-- The frame in which a node finds its name, and what is wrong if there is none. -/
def World.binding (w : World) (distances : Distances) (frame node : Nat) (name : Text) :
    Option Nat × RuntimeCause :=
  match distances[node]? with
  | some d => (w.heap.binderAt? frame d name, .unboundAt name d)
  | none => (w.heap.binder? Machine.globals name, .undefinedVariable name)

/-- The value of a name. -/
def lookUp (distances : Distances) (frame node : Nat) (name : Token) : Action Value := fun w =>
  let (frame?, cause) := w.binding distances frame node name.lexeme
  valueOr (frame?.bind fun f => w.heap.bound? f name.lexeme) name cause w

/-- A name given a value. -/
def assign (distances : Distances) (frame node : Nat) (name : Token) (v : Value) : Action Value :=
  fun w =>
    match w.binding distances frame node name.lexeme with
    | (some f, _) => .ended v (w.define f name.lexeme v)
    | (none, cause) => failAt name cause w

/-- A sign applied to its operand. -/
def applyUnary (op : UnaryOp) (t : Token) (v : Value) : Action Value :=
  match op, v with
  | .not, v => pure (.truth !v.isTruthy)
  | .negate, .number x => pure (.number (-x))
  | .negate, _ => failAt t .operandNotNumber

/-- An operator applied to its operands. -/
def applyBinary (op : BinaryOp) (t : Token) (v w : Value) : Action Value :=
  match op, v, w with
  | .equal, v, w => pure (.truth (v.same w))
  | .notEqual, v, w => pure (.truth !(v.same w))
  | op, .number x, .number y => pure (Machine.arithmetic op x y)
  | .add, .text s, .text u => pure (.text (s ++ u))
  | .add, _, _ => failAt t .operandsNotAddable
  | _, _, _ => failAt t .operandsNotNumbers

/-- A property read off a value: a field of the object, or a method of its youth bound to it. -/
def property (v : Value) (name : Token) : Action Value := fun w =>
  match v with
  | .object id =>
    match w.heap.objects[id]?.bind fun o => o.fields.lookup name.lexeme with
    | some field => .ended field w
    | none =>
      match (w.youthOf? id).bind fun y => y.methods.lookup name.lexeme with
      | some c =>
        .ended (.function w.closures.size)
          ((w.newFrame c.frame [(receiver, .object id)]).newClosure
            { c with frame := w.heap.frames.size })
      | none => failAt name (.undefinedProperty name.lexeme) w
  | _ => failAt name .noProperties w

/-- A field of an object set. -/
def setField (object : Nat) (name : Token) (v : Value) : Action Value := fun w =>
  .ended v { w with heap := w.heap.setField object name.lexeme v }

/-- A field set on a value, which must be an object; only then is the new value evaluated. -/
def setProperty (v : Value) (name : Token) (value : Action Value) : Action Value :=
  match v with
  | .object id => do
    let v ← value
    setField id name v
  | _ => failAt name .noFields

/-- A built-in function applied to its arguments. -/
def callNative (b : Builtin) (paren : Token) (arguments : List Value) : Action Value := fun w =>
  match b with
  | .clock =>
    let (reading, clock) := w.clock.read
    let start := Number.ofInt w.clock.started / Number.ofInt nanosPerSecond
    .ended (.number (start + secondsOf (w.clock.elapsed reading))) { w with clock := clock }
  | .str => .ended (.text (w.describe (arguments.headD .emptiness))) w
  | .len =>
    match arguments.headD .emptiness with
    | .text t => .ended (.number (Number.ofInt t.length)) w
    | v => failAt paren (.reported ("len() expects a string, got " ++ v.typeName)) w
  | .constant v => .ended v w
  | .failing message => failAt paren (.reported message) w

/-- A function called: its parameters are bound in a new frame inside its own, and it runs its body
there. -/
def callClosure (body : Nat → List Decl → Action (Option Value)) (c : Closure) (paren : Token)
    (arguments : List Value) : Action Value := do
  let inner ← newFrame c.frame <| (c.declaration.parameters.zip arguments).foldl
    (fun bs (p, v) => Bindings.put p.lexeme v bs) []
  let given ← called c.declaration.name.lexeme paren.place.line (body inner c.declaration.body)
  return given.getD .emptiness

/-- What a callable value does with as many arguments as it takes. -/
def enter (body : Nat → List Decl → Action (Option Value)) (callee : Value) (paren : Token)
    (arguments : List Value) : Action Value := fun w =>
  match callee with
  | .native id =>
    match w.heap.natives[id]? with
    | some n => callNative n.builtin paren arguments w
    | none => failAt paren .notCallable w
  | .function id =>
    match w.closures[id]? with
    | some c => callClosure body c paren arguments w
    | none => failAt paren .notCallable w
  | .youth id =>
    .ended (.object w.heap.objects.size) { w with heap := w.heap.newObject ⟨id, []⟩ }
  | _ => failAt paren .notCallable w

/-- A value called, where `depth` calls are active; `body` runs the body of a function. -/
def call (body : Nat → List Decl → Action (Option Value)) (depth : Nat) (callee : Value)
    (paren : Token) (arguments : List Value) : Action Value := fun w =>
  match w.arity? callee with
  | none => failAt paren .notCallable w
  | some n =>
    if n ≠ arguments.length then failAt paren (.arity n arguments.length) w
    else if maxCalls ≤ depth then failAt paren .stackOverflow w
    else enter body callee paren arguments w

/-! ## Statements -/

/-- A variable declared in a frame. -/
def declareIn (eval : Expr → Action Value) (frame : Nat) (name : Token) :
    Option Expr → Action Unit
  | none => change (·.define frame name.lexeme .emptiness)
  | some e => do
    let v ← eval e
    change (·.define frame name.lexeme v)

/-- The first clause of a counting loop, in its scope. -/
def begin (eval : Expr → Action Value) (frame : Nat) : Option Clause → Action Unit
  | none => pure ()
  | some (.declare name initializer) => declareIn eval frame name initializer
  | some (.expression e) => do
    let _ ← eval e

/-- Whether a condition holds; an absent one does. -/
def holds (eval : Expr → Action Value) : Option Expr → Action Bool
  | none => pure true
  | some e => do return (← eval e).isTruthy

/-- An increment, if there is one. -/
def increase (eval : Expr → Action Value) : Option Expr → Action Unit
  | none => pure ()
  | some e => do
    let _ ← eval e

/-- A statement that may be absent. -/
def execOptional (exec : Stmt → Action (Option Value)) : Option Stmt → Action (Option Value)
  | none => return none
  | some s => exec s

/-- A round of a loop behind its test: the body, and then the increment unless the body has given a
value back. -/
def round (eval : Expr → Action Value) (exec : Stmt → Action (Option Value))
    (increment : Option Expr) (body : Stmt) : Action (Option Value) := do
  match ← exec body with
  | some v => return some v
  | none => do
    increase eval increment
    return none

/-- A function declared in a frame. -/
def declareFunction (frame : Nat) (f : Function) : Action Unit :=
  change fun w => (w.newClosure ⟨f, frame⟩).define frame f.name.lexeme (.function w.closures.size)

/-- A youth declared in a frame. -/
def declareYouth (frame : Nat) (name : Token) (methods : List Function) : Action Unit :=
  change fun w =>
    let table := methods.reverse.map fun f => (f.name.lexeme, ⟨f, frame⟩)
    (w.newYouth ⟨name.lexeme, table⟩).define frame name.lexeme (.youth w.youths.size)

/-- A declaration in a frame.  It ends with a value if it has given that back. -/
def perform (eval : Expr → Action Value) (exec : Stmt → Action (Option Value)) (frame : Nat) :
    Decl → Action (Option Value)
  | .declare name initializer => do
    declareIn eval frame name initializer
    return none
  | .function f => do
    declareFunction frame f
    return none
  | .youth name methods => do
    declareYouth frame name methods
    return none
  | .statement s => exec s
  | .failed => return none

section Run

variable (distances : Distances)

mutual

/-- The value of an expression in a frame, where `depth` calls are active. -/
def eval : Nat → Nat → Nat → Expr → Action Value
  | 0, _, _, _ => exhausted
  | n + 1, frame, depth, e =>
    match e with
    | .literal value => pure (.ofLiteral value)
    | .variable node name => lookUp distances frame node name
    | .me node keyword => lookUp distances frame node keyword
    | .group inner => eval n frame depth inner
    | .unary op t operand => do
      let v ← eval n frame depth operand
      applyUnary op t v
    | .binary op t left right => do
      let v ← eval n frame depth left
      let w ← eval n frame depth right
      applyBinary op t v w
    | .logical .or _ left right => do
      let v ← eval n frame depth left
      if v.isTruthy then pure v else eval n frame depth right
    | .logical .and _ left right => do
      let v ← eval n frame depth left
      if v.isTruthy then eval n frame depth right else pure v
    | .assign node name value => do
      let v ← eval n frame depth value
      assign distances frame node name v
    | .get object name => do
      let v ← eval n frame depth object
      property v name
    | .set object name value => do
      let v ← eval n frame depth object
      setProperty v name (eval n frame depth value)
    | .call callee paren arguments => do
      let v ← eval n frame depth callee
      let vs ← evalAll n frame depth arguments
      call (fun inner body => performAll n inner (depth + 1) body) depth v paren vs

/-- The values of some expressions, first to last. -/
def evalAll : Nat → Nat → Nat → List Expr → Action (List Value)
  | 0, _, _, _ => exhausted
  | _ + 1, _, _, [] => pure []
  | n + 1, frame, depth, e :: rest => do
    let v ← eval n frame depth e
    let vs ← evalAll n frame depth rest
    return v :: vs

/-- A statement executed in a frame.  It ends with a value if it has given that back. -/
def exec : Nat → Nat → Nat → Stmt → Action (Option Value)
  | 0, _, _, _ => exhausted
  | n + 1, frame, depth, s =>
    match s with
    | .expression e => do
      let _ ← eval n frame depth e
      return none
    | .tell e => do
      let v ← eval n frame depth e
      change fun w => { w with output := w.describe v :: w.output }
      return none
    | .give _ none => return some .emptiness
    | .give _ (some e) => do
      let v ← eval n frame depth e
      return some v
    | .block body => do
      let inner ← newFrame frame []
      performAll n inner depth body
    | .branch condition yes no => do
      let v ← eval n frame depth condition
      if v.isTruthy then exec n frame depth yes else execOptional (exec n frame depth) no
    | .loop condition body => rounds n frame depth (some condition) none body
    | .count initializer condition increment body => do
      let inner ← newFrame frame []
      begin (eval n inner depth) inner initializer
      rounds n inner depth condition increment body

/-- The rounds of a loop, all in one frame. -/
def rounds : Nat → Nat → Nat → Option Expr → Option Expr → Stmt → Action (Option Value)
  | 0, _, _, _, _, _ => exhausted
  | n + 1, frame, depth, condition, increment, body => do
    if ← holds (eval n frame depth) condition then
      match ← round (eval n frame depth) (exec n frame depth) increment body with
      | some v => return some v
      | none => rounds n frame depth condition increment body
    else return none

/-- Some declarations in a frame, up to one that gives a value back. -/
def performAll : Nat → Nat → Nat → List Decl → Action (Option Value)
  | 0, _, _, _ => exhausted
  | _ + 1, _, _, [] => return none
  | n + 1, frame, depth, d :: rest => do
    match ← perform (eval n frame depth) (exec n frame depth) frame d with
    | some v => return some v
    | none => performAll n frame depth rest

end

/-- A program, among the globals and with no call active.  A value that is given back there is
dropped. -/
def performProgram (n : Nat) : List Decl → Action Unit
  | [] => pure ()
  | d :: rest => do
    let _ ← perform (eval distances n Machine.globals 0) (exec distances n Machine.globals 0)
      Machine.globals d
    performProgram n rest

end Run

end YouthLang.Counting

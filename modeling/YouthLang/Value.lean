import YouthLang.Scope
import YouthLang.Number.Notation

/-!
# Value — what a running program computes with

Functions, youths and objects have an identity: a value only holds a number, and what it stands for is
in the heap under that number.  Two values are equal when they are the same truth, number or text, or
have the same identity.
-/

namespace YouthLang

/-- A value of the language.  An object is an instance of a youth. -/
inductive Value where
  | emptiness
  | truth (b : Bool)
  | number (x : Float)
  | text (t : Text)
  | native (id : Nat)
  | function (id : Nat)
  | youth (id : Nat)
  | object (id : Nat)
deriving DecidableEq

namespace Value

/-- Everything counts as true except emptiness and falsehood. -/
def isTruthy : Value → Bool
  | .emptiness => false
  | .truth b => b
  | _ => true

/-- Equality as a program sees it; two numbers compare as numbers, so a NaN differs from itself and
the two zeros are equal. -/
def same : Value → Value → Bool
  | .number x, .number y => x == y
  | v, w => v = w

/-- The word for what a value is. -/
def typeName : Value → Text
  | .emptiness => "emptiness"
  | .truth _ => "boolean"
  | .number _ => "number"
  | .text _ => "string"
  | .object _ => "instance"
  | .native _ | .function _ | .youth _ => "function"

/-- The value of a literal. -/
def ofLiteral : Literal → Value
  | .emptiness => .emptiness
  | .truth b => .truth b
  | .number x => .number x
  | .text t => .text t

end Value

/-- Values by name, each name once. -/
abbrev Bindings := List (Text × Value)

namespace Bindings

/-- A name bound to a value, in the place of an earlier binding if there is one. -/
def put (name : Text) (v : Value) : Bindings → Bindings
  | [] => [(name, v)]
  | (n, w) :: rest => if n = name then (name, v) :: rest else (n, w) :: put name v rest

@[simp] theorem lookup_put_self (name : Text) (v : Value) (bs : Bindings) :
    (put name v bs).lookup name = some v := by
  induction bs with
  | nil => simp [put]
  | cons b rest ih =>
    obtain ⟨n, w⟩ := b
    by_cases h : n = name
    · simp [put, h]
    · have h' : (name == n) = false := by simpa using fun e => h e.symm
      simp [put, h, List.lookup_cons, h', ih]

theorem lookup_put_of_ne {name other : Text} (v : Value) (bs : Bindings) (h : other ≠ name) :
    (put name v bs).lookup other = bs.lookup other := by
  induction bs with
  | nil =>
    have h' : (other == name) = false := by simpa using h
    simp [put, List.lookup_cons, h']
  | cons b rest ih =>
    obtain ⟨n, w⟩ := b
    by_cases hn : n = name
    · subst hn
      have h' : (other == n) = false := by simpa using h
      simp [put, List.lookup_cons, h']
    · simp only [put, hn, if_false, List.lookup_cons, ih]

end Bindings

/-- A scope while the program runs: its bindings and the scope around it. -/
structure Frame where
  parent : Option Nat
  bindings : Bindings

/-- A function as a value: what it does, the frame it was declared in and the distances of the run
that declared it. -/
structure Closure where
  declaration : Function
  frame : Nat
  distances : Distances

/-- A declared youth and its methods; they are bound to an object when they are read off it. -/
structure Youth where
  name : Text
  methods : List (Text × Closure)

/-- An object: its youth and its fields. -/
structure Object where
  youth : Nat
  fields : Bindings

/-- What a built-in function does. -/
inductive Builtin where
  | clock
  | str
  | len
  | constant (v : Value)
  | failing (message : Text)

/-- A built-in function. -/
structure Native where
  arity : Int
  builtin : Builtin

/-- Everything that has an identity, by number in the order it was made. -/
structure Heap where
  frames : Array Frame
  natives : Array Native
  closures : Array Closure
  youths : Array Youth
  objects : Array Object

namespace Heap

def empty : Heap := ⟨#[], #[], #[], #[], #[]⟩

/-! ## Frames -/

/-- A new frame inside another one. -/
def newFrame (h : Heap) (parent : Option Nat) (bindings : Bindings) : Heap :=
  { h with frames := h.frames.push ⟨parent, bindings⟩ }

/-- A name bound in a frame, whether it was bound before or not. -/
def define (h : Heap) (frame : Nat) (name : Text) (v : Value) : Heap :=
  { h with frames := h.frames.modify frame fun f => { f with bindings := f.bindings.put name v } }

/-- The value of a name in exactly one frame. -/
def bound? (h : Heap) (frame : Nat) (name : Text) : Option Value :=
  h.frames[frame]?.bind fun f => f.bindings.lookup name

/-- The frame around a frame. -/
def parent? (h : Heap) (frame : Nat) : Option Nat := h.frames[frame]?.bind Frame.parent

/-- The frame a number of steps out. -/
def ancestor? (h : Heap) (frame : Nat) : Nat → Option Nat
  | 0 => some frame
  | d + 1 => (h.parent? frame).bind fun p => ancestor? h p d

/-- The first `n` frames from a frame outwards. -/
def chainFrom (h : Heap) : Nat → Nat → List Nat
  | 0, _ => []
  | n + 1, frame => frame :: ((h.parent? frame).elim [] (chainFrom h n))

/-- The frames from a frame outwards; a frame is made after the one around it. -/
def chain (h : Heap) (frame : Nat) : List Nat := h.chainFrom (frame + 1) frame

/-- The innermost frame from a frame outwards that binds a name. -/
def binder? (h : Heap) (frame : Nat) (name : Text) : Option Nat :=
  (h.chain frame).find? fun f => (h.bound? f name).isSome

/-- The value of a name in the innermost frame that binds it. -/
def get? (h : Heap) (frame : Nat) (name : Text) : Option Value :=
  (h.binder? frame name).bind fun f => h.bound? f name

/-- A name given a value in the innermost frame that binds it. -/
def assign? (h : Heap) (frame : Nat) (name : Text) (v : Value) : Option Heap :=
  (h.binder? frame name).map fun f => h.define f name v

/-- The frame a number of steps out, if it binds a name. -/
def binderAt? (h : Heap) (frame distance : Nat) (name : Text) : Option Nat :=
  (h.ancestor? frame distance).filter fun f => (h.bound? f name).isSome

/-- The value of a name in the frame a number of steps out. -/
def getAt? (h : Heap) (frame distance : Nat) (name : Text) : Option Value :=
  (h.binderAt? frame distance name).bind fun f => h.bound? f name

/-- A name given a value in the frame a number of steps out, if that frame binds it. -/
def assignAt? (h : Heap) (frame distance : Nat) (name : Text) (v : Value) : Option Heap :=
  (h.binderAt? frame distance name).map fun f => h.define f name v

/-! ## Functions, youths and objects -/

def newNative (h : Heap) (n : Native) : Heap := { h with natives := h.natives.push n }

def newClosure (h : Heap) (c : Closure) : Heap := { h with closures := h.closures.push c }

def newYouth (h : Heap) (y : Youth) : Heap := { h with youths := h.youths.push y }

def newObject (h : Heap) (o : Object) : Heap := { h with objects := h.objects.push o }

/-- A field of an object set. -/
def setField (h : Heap) (object : Nat) (name : Text) (v : Value) : Heap :=
  { h with objects := h.objects.modify object fun o => { o with fields := o.fields.put name v } }

/-- The youth of an object. -/
def youthOf? (h : Heap) (object : Nat) : Option Youth :=
  h.objects[object]?.bind fun o => h.youths[o.youth]?

/-- The name of a youth, empty if there is none by that number. -/
def youthName (h : Heap) (id : Nat) : Text := (h.youths[id]?.map Youth.name).getD []

/-- A value as a program prints it. -/
def describe (h : Heap) : Value → Text
  | .emptiness => "emptiness"
  | .truth true => "true"
  | .truth false => "false"
  | .number x => Number.plain x
  | .text t => t
  | .native _ => "<native fn>"
  | .function id =>
    "<fn " ++ (h.closures[id]?.map fun c => c.declaration.name.lexeme).getD [] ++ ">"
  | .youth id => h.youthName id
  | .object id => (h.objects[id]?.map fun o => h.youthName o.youth).getD [] ++ " instance"

end Heap

end YouthLang

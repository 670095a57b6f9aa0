import YouthLang.Value

/-!
# Environment — names read and written from a frame

An environment is a frame with the frames around it.  There are two ways to a name: walking outwards to
the innermost frame that binds it, or going straight to the frame a number of steps out, which then has
to bind it.  A name that is not there is a mistake at its token, and nothing is written.
-/

namespace YouthLang

/-- The mistake that stops a run at a token. -/
def RuntimeCause.raisedAt (cause : RuntimeCause) (t : Token) : Diagnostic :=
  { cause := .runtime cause, line := t.place.line, column := t.place.column, lexeme := t.lexeme }

namespace Heap

variable (h : Heap) (frame : Nat) (distance : Int) (name : Token) (v : Value)

/-- The value of a name in the innermost frame that binds it. -/
def read : Except Diagnostic Value :=
  match h.get? frame name.lexeme with
  | some v => .ok v
  | none => .error ((RuntimeCause.undefinedVariable name.lexeme).raisedAt name)

/-- A name given a value in the innermost frame that binds it. -/
def write : Heap × Except Diagnostic Unit :=
  match h.assign? frame name.lexeme v with
  | some h' => (h', .ok ())
  | none => (h, .error ((RuntimeCause.undefinedVariable name.lexeme).raisedAt name))

/-- The value of a name in the frame a number of steps out; a negative number is no step. -/
def readAt : Except Diagnostic Value :=
  match h.getAt? frame distance.toNat name.lexeme with
  | some v => .ok v
  | none => .error ((RuntimeCause.unboundAt name.lexeme distance).raisedAt name)

/-- A name given a value in the frame a number of steps out. -/
def writeAt : Heap × Except Diagnostic Unit :=
  match h.assignAt? frame distance.toNat name.lexeme v with
  | some h' => (h', .ok ())
  | none => (h, .error ((RuntimeCause.unboundAt name.lexeme distance).raisedAt name))

end Heap

end YouthLang

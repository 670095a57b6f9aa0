import YouthLang.Machine

/-!
# Proofs/Weights — how much code there is

The *weight* of a piece of code bounds what there is to do until it has ended, leaving the bodies of the
functions it calls out: as long as no loop goes round, each step makes what lies ahead lighter.  Code is
*tame* below a bound if it contains no loop and no function heavier than the bound; then so is all the
code that a step puts in its place.
-/

namespace YouthLang

/-! ## Weights -/

mutual

def Expr.weight : Expr → Nat
  | .literal _ | .variable _ _ | .me _ _ => 2
  | .group inner => inner.weight + 1
  | .unary _ _ operand => operand.weight + 2
  | .binary _ _ left right => left.weight + right.weight + 3
  | .logical _ _ left right => left.weight + right.weight + 2
  | .assign _ _ value => value.weight + 2
  | .get object _ => object.weight + 2
  | .set object _ value => object.weight + value.weight + 3
  | .call callee _ arguments => callee.weight + argumentsWeight arguments + 3

def argumentsWeight : List Expr → Nat
  | [] => 0
  | e :: rest => e.weight + argumentsWeight rest + 1

end

mutual

/-- A declaration of a function does nothing to its body. -/
def Stmt.weight : Stmt → Nat
  | .failed | .declare _ none | .function _ | .youth _ _ => 1
  | .give _ none => 2
  | .expression value | .tell value | .declare _ (some value) | .give _ (some value) =>
    value.weight + 2
  | .block body => bodyWeight body + 3
  | .branch condition yes none => condition.weight + yes.weight + 2
  | .branch condition yes (some no) => condition.weight + yes.weight + no.weight + 2
  | .loop condition body => condition.weight + body.weight + 2

def bodyWeight : List Stmt → Nat
  | [] => 0
  | s :: rest => s.weight + bodyWeight rest + 1

end

/-- The weight of what a machine is about to do. -/
def Control.weight : Control → Nat
  | .eval e => e.weight
  | .exec s => s.weight
  | .value _ | .giving _ => 1
  | .done | .failing _ => 0

/-- The weight of a task; an active call weighs as much as its value and one step more. -/
def Pending.weight : Pending → Nat
  | .unary _ _ | .binary _ _ _ | .assign _ _ | .get _ | .set _ _ => 1
  | .discard | .tell | .declare _ | .give | .leave _ | .loopBody _ _ => 1
  | .rightOperand _ _ right => right.weight + 2
  | .logical _ right => right.weight + 1
  | .setObject _ value => value.weight + 2
  | .callee _ arguments | .argument _ _ _ arguments => argumentsWeight arguments + 2
  | .branch yes none => yes.weight + 1
  | .branch yes (some no) => yes.weight + no.weight + 1
  | .loopTest _ body => body.weight + 1
  | .sequence body | .program body => bodyWeight body + 1
  | .call _ _ _ _ => 2

/-- The weight of some tasks. -/
def tasksWeight : List Pending → Nat
  | [] => 0
  | p :: rest => p.weight + tasksWeight rest

@[simp] theorem tasksWeight_nil : tasksWeight [] = 0 := rfl

@[simp] theorem tasksWeight_cons (p : Pending) (rest : List Pending) :
    tasksWeight (p :: rest) = p.weight + tasksWeight rest := rfl

theorem Pending.weight_pos (p : Pending) : 0 < p.weight := by
  cases p with
  | branch yes no => cases no <;> simp [weight]
  | _ => simp [weight]

theorem Expr.weight_pos (e : Expr) : 0 < e.weight := by
  cases e <;> simp [weight]

theorem Stmt.weight_pos (s : Stmt) : 0 < s.weight := by
  unfold weight
  split <;> omega

/-! ## Code without loops -/

mutual

/-- There is a loop in the code, at whatever depth. -/
def Stmt.hasLoop : Stmt → Bool
  | .loop _ _ => true
  | .block body => bodyHasLoop body
  | .branch _ yes none => yes.hasLoop
  | .branch _ yes (some no) => yes.hasLoop || no.hasLoop
  | .function declaration => declaration.hasLoop
  | .youth _ methods => methodsHaveLoop methods
  | _ => false

def Function.hasLoop : Function → Bool
  | .mk _ _ body => bodyHasLoop body

def bodyHasLoop : List Stmt → Bool
  | [] => false
  | s :: rest => s.hasLoop || bodyHasLoop rest

def methodsHaveLoop : List Function → Bool
  | [] => false
  | f :: rest => f.hasLoop || methodsHaveLoop rest

end

mutual

/-- The weight of the heaviest function in the code, at whatever depth. -/
def Stmt.heaviest : Stmt → Nat
  | .block body => bodyHeaviest body
  | .branch _ yes none => yes.heaviest
  | .branch _ yes (some no) => max yes.heaviest no.heaviest
  | .loop _ body => body.heaviest
  | .function declaration => declaration.heaviest
  | .youth _ methods => methodsHeaviest methods
  | _ => 0

def Function.heaviest : Function → Nat
  | .mk _ _ body => max (bodyWeight body) (bodyHeaviest body)

def bodyHeaviest : List Stmt → Nat
  | [] => 0
  | s :: rest => max s.heaviest (bodyHeaviest rest)

def methodsHeaviest : List Function → Nat
  | [] => 0
  | f :: rest => max f.heaviest (methodsHeaviest rest)

end

variable {bound bound' : Nat}

/-- A statement without loops and without functions heavier than the bound. -/
def Stmt.Tame (bound : Nat) (s : Stmt) : Prop := s.hasLoop = false ∧ s.heaviest ≤ bound

def Function.Tame (bound : Nat) (f : Function) : Prop := f.hasLoop = false ∧ f.heaviest ≤ bound

def BodyTame (bound : Nat) (body : List Stmt) : Prop :=
  bodyHasLoop body = false ∧ bodyHeaviest body ≤ bound

theorem Function.Tame.mono {f : Function} (hle : bound ≤ bound') (h : f.Tame bound) :
    f.Tame bound' := ⟨h.1, Nat.le_trans h.2 hle⟩

theorem Function.Tame.body {f : Function} (h : f.Tame bound) :
    BodyTame bound f.body ∧ bodyWeight f.body ≤ bound := by
  obtain ⟨name, parameters, body⟩ := f
  obtain ⟨hweight, hheaviest⟩ := Nat.max_le.mp h.2
  exact ⟨⟨h.1, hheaviest⟩, hweight⟩

theorem bodyTame_cons {s : Stmt} {rest : List Stmt} (h : BodyTame bound (s :: rest)) :
    s.Tame bound ∧ BodyTame bound rest := by
  obtain ⟨hloop, hheaviest⟩ := h
  obtain ⟨hs, hrest⟩ := Bool.or_eq_false_iff.mp hloop
  obtain ⟨hs', hrest'⟩ := Nat.max_le.mp hheaviest
  exact ⟨⟨hs, hs'⟩, hrest, hrest'⟩

theorem Stmt.Tame.branch {condition : Expr} {yes no : Stmt}
    (h : (Stmt.branch condition yes (some no)).Tame bound) : yes.Tame bound ∧ no.Tame bound := by
  obtain ⟨hloop, hheaviest⟩ := h
  obtain ⟨hyes, hno⟩ := Bool.or_eq_false_iff.mp hloop
  obtain ⟨hyes', hno'⟩ := Nat.max_le.mp hheaviest
  exact ⟨⟨hyes, hyes'⟩, hno, hno'⟩

theorem Stmt.Tame.methods {name : Token} {methods : List Function}
    (h : (Stmt.youth name methods).Tame bound) : ∀ f ∈ methods, f.Tame bound := by
  obtain ⟨hloop, hheaviest⟩ := h
  simp only [hasLoop, heaviest] at hloop hheaviest
  induction methods with
  | nil => simp
  | cons f rest ih =>
    obtain ⟨hf, hrest⟩ := Bool.or_eq_false_iff.mp hloop
    obtain ⟨hf', hrest'⟩ := Nat.max_le.mp hheaviest
    exact List.forall_mem_cons.mpr ⟨⟨hf, hf'⟩, ih hrest hrest'⟩

/-- What a machine is about to do is tame. -/
def Control.Tame (bound : Nat) : Control → Prop
  | .exec s => s.Tame bound
  | _ => True

/-- A task is tame; one of a loop never is. -/
def Pending.Tame (bound : Nat) : Pending → Prop
  | .branch yes none => yes.Tame bound
  | .branch yes (some no) => yes.Tame bound ∧ no.Tame bound
  | .loopTest _ _ | .loopBody _ _ => False
  | .sequence body | .program body => BodyTame bound body
  | _ => True

end YouthLang

import YouthLang.Proofs.Discipline

/-!
# Proofs/Carried — what code hands on to its parts

A run takes the code of a program apart, and keeps the parts where they wait: in tasks, in functions and
in the methods of youths, each with the frame and the table that it will run with.  A judgement about
pieces of code in frames is *heritable* when a piece hands it on to its parts, in the same frame or in
the new one that they run in.  What is heritable and holds of a program holds of everything that a run
has still to do (`Machine.Carries.step`), and every failure arises at a token of some code.
-/

namespace YouthLang

/-! ## Pieces of code -/

/-- A piece of code.  An expression and a statement run in a frame; a function was declared in one, and
so was a method, which waits for its receiver. -/
inductive Code where
  | expr (e : Expr)
  | stmt (s : Stmt)
  | function (f : Function)
  | method (f : Function)

/-- The parts of an expression. -/
def Expr.parts : Expr → List Code
  | .literal _ | .variable _ _ | .me _ _ => []
  | .group e | .unary _ _ e | .assign _ _ e | .get e _ => [.expr e]
  | .binary _ _ left right | .logical _ _ left right => [.expr left, .expr right]
  | .set object _ value => [.expr object, .expr value]
  | .call callee _ arguments => .expr callee :: arguments.map .expr

/-- The parts of a statement that belong to the frame it runs in.  When the value of a variable has been
found, what is left of its declaration is one without a value. -/
def Stmt.parts : Stmt → List Code
  | .failed | .block _ | .declare _ none | .give _ none => []
  | .expression e | .tell e | .give _ (some e) => [.expr e]
  | .declare name (some e) => [.expr e, .stmt (.declare name none)]
  | .branch condition yes none => [.expr condition, .stmt yes]
  | .branch condition yes (some no) => [.expr condition, .stmt yes, .stmt no]
  | .loop condition body => [.expr condition, .stmt body]
  | .function f => [.function f]
  | .youth _ methods => methods.map .method

namespace Code

/-- The parts of a piece of code that belong to the same frame. -/
def parts : Code → List Code
  | .expr e => e.parts
  | .stmt s => s.parts
  | .function _ | .method _ => []

/-- The tokens that the evaluation of a piece of code itself, without its parts, may fail at. -/
def tokens : Code → List Token
  | .expr (.variable _ t) | .expr (.me _ t) | .expr (.unary _ t _) | .expr (.binary _ t _ _)
  | .expr (.assign _ t _) | .expr (.get _ t) | .expr (.set _ t _) | .expr (.call _ t _) => [t]
  | _ => []

/-- The names that a piece of code itself gives a value. -/
def names : Code → List Token
  | .expr (.assign _ t _) | .stmt (.declare t _) | .stmt (.youth t _) => [t]
  | .stmt (.function f) => [f.name]
  | _ => []

end Code

namespace Pending

/-- The code that a task holds for the frame it goes on in. -/
def parts : Pending → List Code
  | .rightOperand _ _ e | .logical _ e | .setObject _ e => [.expr e]
  | .callee _ es | .argument _ _ _ es => es.map .expr
  | .declare name => [.stmt (.declare name none)]
  | .branch yes none => [.stmt yes]
  | .branch yes (some no) => [.stmt yes, .stmt no]
  | .loopTest condition body | .loopBody condition body => [.expr condition, .stmt body]
  | .sequence body | .program body => body.map .stmt
  | _ => []

/-- The tokens that a task may fail at. -/
def tokens : Pending → List Token
  | .unary _ t | .rightOperand _ t _ | .binary _ t _ | .assign _ t | .get t | .setObject t _
  | .callee t _ | .argument t _ _ _ => [t]
  | _ => []

/-- The names that a task gives another value. -/
def names : Pending → List Token
  | .assign _ t => [t]
  | _ => []

end Pending

/-- A diagnostic found at a token: it tells of the end of the source only at the mark of the end, and it
is no mistake in the spelling of tokens. -/
structure Diagnostic.IsAt (d : Diagnostic) (t : Token) : Prop where
  line : d.line = t.place.line
  column : d.column = t.place.column
  lexeme : d.lexeme = t.lexeme
  atEnd : d.atEnd = true → t.kind = .endOfSource
  bare : d.excerpt = []
  cause : ∀ cause, d.cause ≠ .lexical cause

/-! ## Heritable judgements

A judgement is heritable when its pieces pass it on and when it survives every change of the heap
that a run makes. -/

/-- A judgement about code in frames that code hands on to its parts.  It survives some changes of the
heap, the tokens that code may fail at and the names that it gives a value meet two conditions, and what
runs in a new frame is judged there. -/
structure Heritable (R : Heap → Heap → Prop) (T N : Token → Prop)
    (J : Heap → Nat → Distances → Code → Prop) : Prop where
  keeps : ∀ {h h' f D c}, R h h' → J h f D c → J h' f D c
  parts : ∀ {h f D c}, J h f D c → ∀ p ∈ c.parts, J h f D p
  tokens : ∀ {h f D c}, J h f D c → ∀ t ∈ c.tokens, T t
  names : ∀ {h f D c}, J h f D c → ∀ t ∈ c.names, N t
  block : ∀ {h f D body}, J h f D (.stmt (.block body)) →
    ∀ s ∈ body, J (h.newFrame (some f) []) h.frames.size D (.stmt s)
  call : ∀ {h f D F bindings}, J h f D (.function F) →
    (∀ name, (bindings.lookup name).isSome → ∃ p ∈ F.parameters, p.lexeme = name) →
    ∀ s ∈ F.body, J (h.newFrame (some f) bindings) h.frames.size D (.stmt s)
  bind : ∀ {h f D F v c}, J h f D (.method F) → c = ⟨F, h.frames.size, D⟩ →
    J ((h.newFrame (some f) [(receiver, v)]).newClosure c) h.frames.size D (.function F)

section

variable (T N : Token → Prop) (J : Heap → Nat → Distances → Code → Prop)

/-- What a task holds is judged in the setting that it goes on in. -/
structure Pending.Carries (h : Heap) (s : Setting) (p : Pending) : Prop where
  parts : ∀ c ∈ p.parts, J h s.frame s.distances c
  tokens : ∀ t ∈ p.tokens, T t
  names : ∀ t ∈ p.names, N t

/-- What some tasks hold is judged in the settings that they go on in. -/
def TasksCarry (h : Heap) : Setting → List Pending → Prop
  | _, [] => True
  | s, p :: rest => p.Carries T N J h s ∧ TasksCarry h (p.back s) rest

/-- What the machine is about to do is judged, and a failure is at a token. -/
def Control.Carries (h : Heap) (s : Setting) : Control → Prop
  | .eval e => J h s.frame s.distances (.expr e)
  | .exec st => J h s.frame s.distances (.stmt st)
  | .failing d => ∃ t, T t ∧ d.IsAt t
  | _ => True

/-- The functions and the methods of a heap are judged in their frames. -/
structure Heap.Carries (h : Heap) : Prop where
  functions : ∀ c ∈ h.closures, J h c.frame c.distances (.function c.declaration)
  methods : ∀ y ∈ h.youths, ∀ m ∈ y.methods, J h m.2.frame m.2.distances (.method m.2.declaration)

/-- What the tasks and the functions of a machine hold is judged, whatever it is about to do. -/
structure Machine.Holds (m : Machine) : Prop where
  heap : m.heap.Carries J
  tasks : TasksCarry T N J m.heap m.setting m.pending

/-- Everything that a machine has still to do is judged. -/
structure Machine.Carries (m : Machine) : Prop extends m.Holds T N J where
  control : m.control.Carries T J m.heap m.setting

end

variable {R : Heap → Heap → Prop} {T N : Token → Prop}
  {J : Heap → Nat → Distances → Code → Prop} (hJ : Heritable R T N J)

/-! ## Changes of the heap -/

include hJ in
theorem TasksCarry.keeps {h h' : Heap} (hR : R h h') : ∀ {tasks : List Pending} {s : Setting},
    TasksCarry T N J h s tasks → TasksCarry T N J h' s tasks
  | [], _, _ => trivial
  | _ :: _, _, ⟨hp, hrest⟩ =>
    ⟨⟨fun c hc => hJ.keeps hR (hp.parts c hc), hp.tokens, hp.names⟩, hrest.keeps hR⟩

include hJ in
/-- A heap that gets judged functions and methods only. -/
theorem Heap.Carries.keeps {h h' : Heap} (hh : h.Carries J) (hR : R h h')
    (hclosures : ∀ c ∈ h'.closures, c ∈ h.closures
      ∨ J h' c.frame c.distances (.function c.declaration))
    (hyouths : ∀ y ∈ h'.youths, y ∈ h.youths
      ∨ ∀ m ∈ y.methods, J h' m.2.frame m.2.distances (.method m.2.declaration)) :
    h'.Carries J where
  functions c hc := (hclosures c hc).elim (fun hold => hJ.keeps hR (hh.functions c hold)) id
  methods y hy m hm := (hyouths y hy).elim (fun hold => hJ.keeps hR (hh.methods y hold m hm))
    fun hnew => hnew m hm

namespace Machine

variable {m : Machine} {rest : List Pending} {p : Pending} {v : Value} {t : Token}

namespace Holds

include hJ in
/-- A machine that only changes its heap, by no function. -/
theorem keeps {h' : Heap} {output : List Text} {c : Control} (hm : m.Holds T N J)
    (hR : R m.heap h') (hclosures : h'.closures = m.heap.closures)
    (hyouths : h'.youths = m.heap.youths) (hc : c.Carries T J h' m.setting) :
    Carries T N J { m with heap := h', output := output, control := c } where
  heap := hm.heap.keeps hJ hR (fun _ hold => .inl (hclosures ▸ hold)) fun _ hold =>
    .inl (hyouths ▸ hold)
  tasks := hm.tasks.keeps hJ hR
  control := hc

theorem turn {c : Control} (hm : m.Holds T N J) (hc : c.Carries T J m.heap m.setting) :
    (m.turn c).Carries T N J := ⟨⟨hm.heap, hm.tasks⟩, hc⟩

theorem failAt {cause : RuntimeCause} (hm : m.Holds T N J) (ht : T t) :
    (m.failAt t cause).Carries T N J := hm.turn ⟨t, ht, rfl, rfl, rfl, nofun, rfl, nofun⟩

theorem valueOr {v : Option Value} {cause : RuntimeCause} (hm : m.Holds T N J) (ht : T t) :
    (m.valueOr v t cause).Carries T N J := by
  cases v with
  | some v => exact hm.turn trivial
  | none => exact hm.failAt ht

theorem lookUp {node : Nat} (hm : m.Holds T N J) (ht : T t) : (m.lookUp node t).Carries T N J := by
  unfold Machine.lookUp
  split <;> exact hm.valueOr ht

theorem evalFor {e : Expr} (hm : m.Holds T N J) (he : J m.heap m.frame m.distances (.expr e))
    (hp : p.Carries T N J m.heap m.setting) (hplain : p.isPlain) :
    (m.evalFor e p).Carries T N J :=
  ⟨⟨hm.heap, hp, by rw [Pending.back_of_isPlain hplain]; exact hm.tasks⟩, he⟩

/-! ## Expressions -/

include hJ in
/-- The first step of an expression. -/
theorem eval {e : Expr} (hm : m.Holds T N J) (he : J m.heap m.frame m.distances (.expr e)) :
    (m.eval e).Carries T N J := by
  have hparts := hJ.parts he
  have htokens := hJ.tokens he
  have hnames := hJ.names he
  cases e with
  | literal value => exact hm.turn trivial
  | «variable» node name => exact hm.lookUp (htokens name (by simp [Code.tokens]))
  | me node keyword => exact hm.lookUp (htokens keyword (by simp [Code.tokens]))
  | group inner => exact hm.turn (hparts _ (by simp [Code.parts, Expr.parts]))
  | unary op token operand =>
    exact hm.evalFor (hparts _ (by simp [Code.parts, Expr.parts]))
      ⟨by simp [Pending.parts], htokens, by simp [Pending.names]⟩ rfl
  | binary op token left right =>
    exact hm.evalFor (hparts _ (by simp [Code.parts, Expr.parts]))
      ⟨fun c hc => hparts c (List.mem_cons_of_mem _ hc), htokens, by simp [Pending.names]⟩ rfl
  | logical op token left right =>
    exact hm.evalFor (hparts _ (by simp [Code.parts, Expr.parts]))
      ⟨fun c hc => hparts c (List.mem_cons_of_mem _ hc), by simp [Pending.tokens],
        by simp [Pending.names]⟩ rfl
  | assign node name value =>
    exact hm.evalFor (hparts _ (by simp [Code.parts, Expr.parts]))
      ⟨by simp [Pending.parts], htokens, hnames⟩ rfl
  | get object name =>
    exact hm.evalFor (hparts _ (by simp [Code.parts, Expr.parts]))
      ⟨by simp [Pending.parts], htokens, by simp [Pending.names]⟩ rfl
  | set object name value =>
    exact hm.evalFor (hparts _ (by simp [Code.parts, Expr.parts]))
      ⟨fun c hc => hparts c (List.mem_cons_of_mem _ hc), htokens, by simp [Pending.names]⟩ rfl
  | call callee paren arguments =>
    exact hm.evalFor (hparts _ (by simp [Code.parts, Expr.parts]))
      ⟨fun c hc => hparts c (List.mem_cons_of_mem _ hc), htokens, by simp [Pending.names]⟩ rfl

theorem applyUnary {op : UnaryOp} (hm : m.Holds T N J) (ht : T t) :
    (m.applyUnary op t v).Carries T N J := by
  unfold Machine.applyUnary
  split
  · exact hm.turn trivial
  · exact hm.turn trivial
  · exact hm.failAt ht

theorem applyBinary {op : BinaryOp} {w : Value} (hm : m.Holds T N J) (ht : T t) :
    (m.applyBinary op t v w).Carries T N J := by
  unfold Machine.applyBinary
  split <;> first | exact hm.turn trivial | exact hm.failAt ht

include hJ in
theorem assign {node : Nat} (hm : m.Holds T N J) (ht : T t)
    (hR : R m.heap (m.assign node t v).heap) : (m.assign node t v).Carries T N J := by
  unfold Machine.assign at hR ⊢
  split at hR
  next frame? cause heq =>
  cases frame? with
  | some frame => exact hm.keeps hJ hR rfl rfl trivial
  | none => exact hm.failAt ht

include hJ in
/-- A method read off an object. -/
theorem property (hm : m.Holds T N J) (ht : T t) (hR : R m.heap (m.property v t).heap) :
    (m.property v t).Carries T N J := by
  unfold Machine.property at hR ⊢
  split at hR
  · split at hR
    · exact hm.turn trivial
    · split at hR
      · next c hc =>
        have hmethod : J m.heap c.frame c.distances (.method c.declaration) := by
          obtain ⟨y, hy, hl⟩ := Option.bind_eq_some_iff.mp hc
          obtain ⟨o, -, hy⟩ := Option.bind_eq_some_iff.mp hy
          obtain ⟨before, after, heq, -⟩ := List.lookup_eq_some_iff.mp hl
          exact hm.heap.methods y (Array.mem_of_getElem? hy) (t.lexeme, c) (by simp [heq])
        refine ⟨⟨hm.heap.keeps hJ hR (fun d hd => ?_) fun _ hold => .inl hold,
          hm.tasks.keeps hJ hR⟩, trivial⟩
        rcases Array.mem_push.mp hd with hold | rfl
        · exact .inl hold
        · exact .inr (hJ.bind hmethod rfl)
      · exact hm.failAt ht
  · exact hm.failAt ht

/-! ## Calls -/

theorem callNative {b : Builtin} {arguments : List Value} (hm : m.Holds T N J) (ht : T t) :
    (m.callNative b t arguments).Carries T N J := by
  cases b with
  | clock => exact ⟨⟨hm.heap, hm.tasks⟩, trivial⟩
  | str => exact hm.turn trivial
  | len =>
    simp only [Machine.callNative]
    split
    · exact hm.turn trivial
    · exact hm.failAt ht
  | constant v => exact hm.turn trivial
  | failing message => exact hm.failAt ht

/-- The frame of a call binds parameters only. -/
theorem exists_parameter {name : Text} (ps : List Token) (vs : List Value)
    (hb : (((ps.zip vs).foldl (fun bs (p, v) => Bindings.put p.lexeme v bs) []).lookup name).isSome) :
    ∃ p ∈ ps, p.lexeme = name := by
  have key : ∀ (pairs : List (Token × Value)) (bs : Bindings),
      ((pairs.foldl (fun bs (p, v) => Bindings.put p.lexeme v bs) bs).lookup name).isSome →
        (bs.lookup name).isSome ∨ ∃ pair ∈ pairs, pair.1.lexeme = name := by
    intro pairs
    induction pairs with
    | nil => exact fun _ hb => .inl hb
    | cons pair pairs ih =>
      intro bs hb
      rcases ih _ hb with hput | ⟨other, hother, hname⟩
      · by_cases hname : name = pair.1.lexeme
        · exact .inr ⟨pair, List.mem_cons_self, hname.symm⟩
        · rw [Bindings.lookup_put_of_ne _ _ hname] at hput
          exact .inl hput
      · exact .inr ⟨other, List.mem_cons_of_mem _ hother, hname⟩
  rcases key _ _ hb with hnone | ⟨pair, hpair, hname⟩
  · exact absurd hnone (by simp)
  · exact ⟨pair.1, (List.of_mem_zip hpair).1, hname⟩

include hJ in
/-- A function that is entered. -/
theorem callClosure {c : Closure} {arguments : List Value} (hm : m.Holds T N J)
    (hc : c ∈ m.heap.closures) (hR : R m.heap (m.callClosure c t arguments).heap) :
    (m.callClosure c t arguments).Carries T N J := by
  have hbody := hJ.call (hm.heap.functions c hc) fun name =>
    exists_parameter c.declaration.parameters arguments
  refine ⟨⟨hm.heap.keeps hJ hR (fun _ hold => .inl hold) fun _ hold => .inl hold,
    ⟨?_, by simp [Pending.tokens], by simp [Pending.names]⟩,
    ⟨by simp [Pending.parts], by simp [Pending.tokens], by simp [Pending.names]⟩,
    hm.tasks.keeps hJ hR⟩, trivial⟩
  intro part hpart
  obtain ⟨s, hs, rfl⟩ := List.mem_map.mp hpart
  exact hbody s hs

include hJ in
theorem call {callee : Value} {arguments : List Value} (hm : m.Holds T N J) (ht : T t)
    (hR : R m.heap (m.call callee t arguments).heap) : (m.call callee t arguments).Carries T N J := by
  unfold Machine.call at hR ⊢
  split
  · exact hm.failAt ht
  · next n harity =>
    simp only [harity] at hR
    split
    · exact hm.failAt ht
    · next hn =>
      rw [if_neg hn] at hR
      split
      · exact hm.failAt ht
      · next hdepth =>
        rw [if_neg hdepth] at hR
        unfold Machine.enter at hR ⊢
        split at hR
        · split
          · exact hm.callNative ht
          · exact hm.failAt ht
        · split at hR
          · next c hc => exact hm.callClosure hJ (Array.mem_of_getElem? hc) hR
          · exact hm.failAt ht
        · exact hm.keeps hJ hR rfl rfl trivial
        · exact hm.failAt ht

/-! ## Statements -/

include hJ in
/-- The first step of a statement. -/
theorem exec {s : Stmt} (hm : m.Holds T N J) (hs : J m.heap m.frame m.distances (.stmt s))
    (hR : R m.heap (m.exec s).heap) : (m.exec s).Carries T N J := by
  have hparts := hJ.parts hs
  cases s with
  | failed => exact hm.turn trivial
  | expression value | tell value =>
    exact hm.evalFor (hparts _ (by simp [Code.parts, Stmt.parts]))
      ⟨by simp [Pending.parts], by simp [Pending.tokens], by simp [Pending.names]⟩ rfl
  | declare name value =>
    cases value with
    | none => exact hm.keeps hJ hR rfl rfl trivial
    | some value =>
      exact hm.evalFor (hparts _ (by simp [Code.parts, Stmt.parts]))
        ⟨fun c hc => hparts c (List.mem_cons_of_mem _ hc), by simp [Pending.tokens],
          by simp [Pending.names]⟩ rfl
  | give keyword value =>
    cases value with
    | none => exact hm.turn trivial
    | some value =>
      exact hm.evalFor (hparts _ (by simp [Code.parts, Stmt.parts]))
        ⟨by simp [Pending.parts], by simp [Pending.tokens], by simp [Pending.names]⟩ rfl
  -- The tasks that are pushed hold the block's statements and the frame to go back to.
  | block body =>
    refine ⟨⟨hm.heap.keeps hJ hR (fun _ hold => .inl hold) fun _ hold => .inl hold,
      ⟨?_, by simp [Pending.tokens], by simp [Pending.names]⟩,
      ⟨by simp [Pending.parts], by simp [Pending.tokens], by simp [Pending.names]⟩,
      hm.tasks.keeps hJ hR⟩, trivial⟩
    intro part hpart
    obtain ⟨s, hs', rfl⟩ := List.mem_map.mp hpart
    exact hJ.block hs s hs'
  | branch condition yes no =>
    cases no <;>
      exact hm.evalFor (hparts _ (by simp [Code.parts, Stmt.parts]))
        ⟨fun c hc => hparts c (List.mem_cons_of_mem _ hc), by simp [Pending.tokens],
          by simp [Pending.names]⟩ rfl
  | loop condition body =>
    exact hm.evalFor (hparts _ (by simp [Code.parts, Stmt.parts]))
      ⟨hparts, by simp [Pending.tokens], by simp [Pending.names]⟩ rfl
  -- The heap gains a closure, whose code was part of the statement.
  | function f =>
    have hf : J (m.exec (.function f)).heap m.frame m.distances (.function f) :=
      hJ.keeps hR (hparts _ (by simp [Code.parts, Stmt.parts]))
    refine ⟨⟨hm.heap.keeps hJ hR (fun c hc => ?_) fun _ hold => .inl hold,
      hm.tasks.keeps hJ hR⟩, trivial⟩
    rcases Array.mem_push.mp hc with hold | rfl
    · exact .inl hold
    · exact .inr hf
  -- It gains a class, whose methods were.
  | youth name methods =>
    have hmethods : ∀ f ∈ methods, J (m.exec (.youth name methods)).heap m.frame m.distances
        (.method f) := fun f hf =>
      hJ.keeps hR (hparts _ (by simpa [Code.parts, Stmt.parts] using hf))
    refine ⟨⟨hm.heap.keeps hJ hR (fun _ hold => .inl hold) fun y hy => ?_,
      hm.tasks.keeps hJ hR⟩, trivial⟩
    rcases Array.mem_push.mp hy with hold | rfl
    · exact .inl hold
    · refine .inr fun entry hentry => ?_
      obtain ⟨f, hf, rfl⟩ := List.mem_map.mp hentry
      exact hmethods f (List.mem_reverse.mp hf)

end Holds

/-! ## Tasks taken up -/

namespace Carries

include hJ in
/-- A plain task takes its value. -/
theorem receive (hm : m.Holds T N J) (hp : p.Carries T N J m.heap m.setting) (hplain : p.isPlain)
    (hR : R m.heap (m.receive v p).heap) : (m.receive v p).Carries T N J := by
  obtain ⟨hparts, htokens, hnames⟩ := hp
  -- Whatever a task puts under way was part of the task, so its tokens and names are carried.
  cases p with
  | unary op t => exact hm.applyUnary (htokens t (by simp [Pending.tokens]))
  | rightOperand op t right =>
    exact hm.evalFor (hparts _ (by simp [Pending.parts]))
      ⟨by simp [Pending.parts], htokens, by simp [Pending.names]⟩ rfl
  | binary op t left => exact hm.applyBinary (htokens t (by simp [Pending.tokens]))
  | logical op right =>
    have heval : (m.turn (.eval right)).Carries T N J :=
      hm.turn (hparts _ (by simp [Pending.parts]))
    have hvalue : (m.turn (.value v)).Carries T N J := hm.turn trivial
    cases op <;> (simp only [Machine.receive]; split) <;> assumption
  -- The three tasks that change the heap: `hJ` keeps what is known of it.
  | assign node name => exact hm.assign hJ (htokens name (by simp [Pending.tokens])) hR
  | get name => exact hm.property hJ (htokens name (by simp [Pending.tokens])) hR
  | setObject name value =>
    simp only [Machine.receive]
    split
    · exact hm.evalFor (hparts _ (by simp [Pending.parts]))
        ⟨by simp [Pending.parts], by simp [Pending.tokens], by simp [Pending.names]⟩ rfl
    · exact hm.failAt (htokens name (by simp [Pending.tokens]))
  | set name object => exact hm.keeps hJ hR rfl rfl trivial
  | callee paren arguments =>
    cases arguments with
    | nil => exact hm.call hJ (htokens paren (by simp [Pending.tokens])) hR
    | cons e es =>
      exact hm.evalFor (hparts _ (by simp [Pending.parts]))
        ⟨fun c hc => hparts c (List.mem_cons_of_mem _ hc), htokens, by simp [Pending.names]⟩ rfl
  | argument paren callee read arguments =>
    cases arguments with
    | nil => exact hm.call hJ (htokens paren (by simp [Pending.tokens])) hR
    | cons e es =>
      exact hm.evalFor (hparts _ (by simp [Pending.parts]))
        ⟨fun c hc => hparts c (List.mem_cons_of_mem _ hc), htokens, by simp [Pending.names]⟩ rfl
  | discard => exact hm.turn trivial
  | tell => exact ⟨⟨hm.heap, hm.tasks⟩, trivial⟩
  | declare name => exact hm.keeps hJ hR rfl rfl trivial
  | give => exact hm.turn trivial
  -- The branch that is not taken is dropped.
  | branch yes no =>
    simp only [Machine.receive]
    cases no with
    | none =>
      split
      · exact hm.turn (hparts _ (by simp [Pending.parts]))
      · exact hm.turn trivial
    | some no =>
      split
      · exact hm.turn (hparts (.stmt yes) (by simp [Pending.parts]))
      · exact hm.turn (hparts (.stmt no) (by simp [Pending.parts]))
  | loopTest condition body =>
    simp only [Machine.receive]
    split
    · exact ⟨⟨hm.heap, ⟨hparts, by simp [Pending.tokens], by simp [Pending.names]⟩, hm.tasks⟩,
        hparts _ (by simp [Pending.parts])⟩
    · exact hm.turn trivial
  | leave frame => exact absurd hplain (by simp [Pending.isPlain])
  | call function line frame distances => exact absurd hplain (by simp [Pending.isPlain])
  | _ => exact hm.turn trivial

/-- The tasks behind one that goes on after a statement are judged in the setting that it goes back
to. -/
theorem resume (hheap : m.heap.Carries J) (hp : p.Carries T N J m.heap m.setting)
    (htasks : TasksCarry T N J m.heap (p.back m.setting) m.pending) :
    (m.resume p).Carries T N J := by
  obtain ⟨hparts, -, -⟩ := hp
  cases p with
  | loopBody condition body =>
    have hm : m.Holds T N J := ⟨hheap, htasks⟩
    exact hm.evalFor (hparts _ (by simp [Pending.parts]))
      ⟨hparts, by simp [Pending.tokens], by simp [Pending.names]⟩ rfl
  | sequence body | program body =>
    cases body with
    | nil => exact ⟨⟨hheap, htasks⟩, trivial⟩
    | cons s body =>
      exact ⟨⟨hheap, ⟨fun c hc => hparts c (List.mem_cons_of_mem _ hc), by simp [Pending.tokens],
        by simp [Pending.names]⟩, htasks⟩, hparts _ (by simp [Pending.parts])⟩
  | _ => exact ⟨⟨hheap, htasks⟩, trivial⟩

theorem takeGiven (hheap : m.heap.Carries J) (hp : p.Carries T N J m.heap m.setting)
    (htasks : TasksCarry T N J m.heap (p.back m.setting) m.pending) :
    (m.takeGiven v p).Carries T N J := by
  cases p with
  | program body => exact ⟨⟨hheap, hp, htasks⟩, trivial⟩
  | _ => exact ⟨⟨hheap, htasks⟩, trivial⟩

theorem unwind {d : Diagnostic} (hheap : m.heap.Carries J) (hd : ∃ t, T t ∧ d.IsAt t)
    (htasks : TasksCarry T N J m.heap (p.back m.setting) m.pending) :
    (m.unwind d p).Carries T N J := by
  cases p with
  | call function line frame distances =>
    obtain ⟨t, ht, hat⟩ := hd
    exact ⟨⟨hheap, htasks⟩, t, ht, hat.line, hat.column, hat.lexeme, hat.atEnd, hat.bare, hat.cause⟩
  | _ => exact ⟨⟨hheap, htasks⟩, hd⟩

/-! ## Runs -/

include hJ in
/-- **One step hands the judgement on.** -/
theorem step (hm : m.Carries T N J) (hready : m.Ready) (hR : R m.heap m.step.heap) :
    m.step.Carries T N J := by
  obtain ⟨hholds, hcontrol⟩ := hm
  unfold Machine.step at hR ⊢
  split at hR
  · next e heval => exact hholds.eval hJ (by rw [heval] at hcontrol; exact hcontrol)
  · next s hexec => exact hholds.exec hJ (by rw [hexec] at hcontrol; exact hcontrol) hR
  · next v p rest hvalue hpending =>
    have hplain := hready v p rest hvalue hpending
    have htasks := hholds.tasks
    rw [hpending] at htasks
    obtain ⟨hp, hrest⟩ := htasks
    rw [Pending.back_of_isPlain hplain] at hrest
    exact receive hJ ⟨hholds.heap, hrest⟩ hp hplain hR
  · next p rest hdone hpending =>
    have htasks := hholds.tasks
    rw [hpending] at htasks
    exact resume hholds.heap htasks.1 htasks.2
  · next v p rest hgiving hpending =>
    have htasks := hholds.tasks
    rw [hpending] at htasks
    exact takeGiven hholds.heap htasks.1 htasks.2
  · next d p rest hfailing hpending =>
    have htasks := hholds.tasks
    rw [hpending] at htasks
    exact unwind hholds.heap (by rw [hfailing] at hcontrol; exact hcontrol) htasks.2
  · exact hholds.turn trivial
  · exact hholds.turn trivial
  · exact ⟨hholds, hcontrol⟩
  · exact ⟨hholds, hcontrol⟩

/-- A program that is judged among the globals. -/
theorem load {statements : List Stmt} {distances : Distances} (hheap : m.heap.Carries J)
    (hprogram : ∀ s ∈ statements, J m.heap globals distances (.stmt s)) :
    (m.load statements distances).Carries T N J := by
  refine ⟨⟨hheap, ⟨fun c hc => ?_, by simp [Pending.tokens], by simp [Pending.names]⟩, trivial⟩,
    trivial⟩
  obtain ⟨s, hs, rfl⟩ := List.mem_map.mp hc
  exact hprogram s hs

end Carries

/-- At the start there is no function and no youth. -/
theorem carries_ofClock (clock : Clock) : (ofClock clock).heap.Carries J :=
  ⟨by simp [ofClock, builtins, install, Heap.newNative, Heap.newFrame, Heap.define, Heap.empty],
    by simp [ofClock, builtins, install, Heap.newNative, Heap.newFrame, Heap.define, Heap.empty]⟩

end Machine

end YouthLang

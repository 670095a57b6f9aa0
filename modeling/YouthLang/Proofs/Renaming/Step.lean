import YouthLang.Proofs.Renaming
import YouthLang.Proofs.Simulation

/-!
# Proofs/Renaming/Step — two machines that differ in the name of a variable

Each frame of a run has the marks of the scopes it was made for, its own first (`Heap.Renamed.nested`).
A machine that runs a program and one that runs it with a variable renamed make the same frames, and a
frame of the second binds what that of the first binds, under the names its mark says.  So a node finds
its name in the same frame (`Machine.Twin.binding`), and one step keeps the two machines alike
(`Machine.Renamed.step`).
-/

namespace YouthLang

/-! ## The relation

Two machines are related when they stand at related code, with related tasks waiting, over heaps
whose frames bind the same values under names that each frame's mark says. -/

/-- A frame under other names. -/
def Frame.respell (σ : Equiv.Perm Text) (f : Frame) : Frame :=
  { f with bindings := YouthLang.respell σ f.bindings }

section Renamed

variable (R : Renaming)

/-- Two diagnostics that are the same, or both tell that the variable is not bound. -/
def Diagnostic.Renamed (d d' : Diagnostic) : Prop :=
  d' = d ∨ ∃ distance, d.cause = .runtime (.unboundAt R.token.lexeme distance)
    ∧ d.lexeme = R.token.lexeme
    ∧ d' = { d with cause := .runtime (.unboundAt R.name distance), lexeme := R.name }

/-- Two controls that differ in the names of marked scopes only. -/
inductive Control.Renamed (D : Distances) (marks : List Bool) : Control → Control → Prop
  | eval {e e'} (h : Expr.Renamed R D marks e e') : Control.Renamed D marks (.eval e) (.eval e')
  | exec {s s'} (h : Stmt.Renamed R D marks s s') : Control.Renamed D marks (.exec s) (.exec s')
  | value (v : Value) : Control.Renamed D marks (.value v) (.value v)
  | done : Control.Renamed D marks .done .done
  | giving (v : Value) : Control.Renamed D marks (.giving v) (.giving v)
  | failing {d d'} (h : d.Renamed R d') : Control.Renamed D marks (.failing d) (.failing d')

/-- Two tasks that differ in the names of marked scopes only and leave the frame as it is. -/
inductive Pending.Renamed (D : Distances) (marks : List Bool) : Pending → Pending → Prop
  | unary {op t} : Pending.Renamed D marks (.unary op t) (.unary op t)
  | rightOperand {op t e e'} (h : Expr.Renamed R D marks e e') :
      Pending.Renamed D marks (.rightOperand op t e) (.rightOperand op t e')
  | binary {op t v} : Pending.Renamed D marks (.binary op t v) (.binary op t v)
  | logical {op e e'} (h : Expr.Renamed R D marks e e') :
      Pending.Renamed D marks (.logical op e) (.logical op e')
  | assign {n t t'} (ht : R.Respells (leadsTo marks D n) t t') :
      Pending.Renamed D marks (.assign n t) (.assign n t')
  | get {t} : Pending.Renamed D marks (.get t) (.get t)
  | setObject {t e e'} (h : Expr.Renamed R D marks e e') :
      Pending.Renamed D marks (.setObject t e) (.setObject t e')
  | set {t object} : Pending.Renamed D marks (.set t object) (.set t object)
  | callee {t es es'} (h : ArgumentsRenamed R D marks es es') :
      Pending.Renamed D marks (.callee t es) (.callee t es')
  | argument {t v vs es es'} (h : ArgumentsRenamed R D marks es es') :
      Pending.Renamed D marks (.argument t v vs es) (.argument t v vs es')
  | discard : Pending.Renamed D marks .discard .discard
  | tell : Pending.Renamed D marks .tell .tell
  | declare {t t'} (ht : R.Respells (marks.headD false) t t') :
      Pending.Renamed D marks (.declare t) (.declare t')
  | give : Pending.Renamed D marks .give .give
  | branch {yes yes'} (h : Stmt.Renamed R D marks yes yes') :
      Pending.Renamed D marks (.branch yes none) (.branch yes' none)
  | branches {yes yes' no no'} (h : Stmt.Renamed R D marks yes yes')
      (hno : Stmt.Renamed R D marks no no') :
      Pending.Renamed D marks (.branch yes (some no)) (.branch yes' (some no'))
  | loopTest {e e' s s'} (he : Expr.Renamed R D marks e e') (h : Stmt.Renamed R D marks s s') :
      Pending.Renamed D marks (.loopTest e s) (.loopTest e' s')
  | loopBody {e e' s s'} (he : Expr.Renamed R D marks e e') (h : Stmt.Renamed R D marks s s') :
      Pending.Renamed D marks (.loopBody e s) (.loopBody e' s')
  | sequence {body body'} (h : BodyRenamed R D marks body body') :
      Pending.Renamed D marks (.sequence body) (.sequence body')
  | program {body body'} (h : BodyRenamed R D marks body body') :
      Pending.Renamed D marks (.program body) (.program body')

variable (marks : Nat → List Bool)

/-- Two functions of a heap with some frames; `between` has the marks of the frames that a call finds
between that of the declaration and its own. -/
structure Closure.Renamed (frames : Nat) (between : List Bool) (c c' : Closure) : Prop where
  declaration :
    Function.Renamed R c.distances (between ++ marks c.frame) c.declaration c'.declaration
  frame : c'.frame = c.frame
  distances : c'.distances = c.distances
  within : c.frame < frames

/-- Two youths with the same methods, which wait for their receivers. -/
structure Youth.Renamed (frames : Nat) (y y' : Youth) : Prop where
  name : y'.name = y.name
  methods : List.Forall₂
    (fun m m' => m.1 = m'.1 ∧ Closure.Renamed R marks frames [false] m.2 m'.2) y.methods y'.methods

/-- **Two heaps that differ in the names of marked frames only**, and in those of the functions. -/
structure Heap.Renamed (h h' : Heap) : Prop where
  size : h'.frames.size = h.frames.size
  frames : ∀ f : Nat,
    h'.frames[f]? = h.frames[f]?.map (Frame.respell (R.spell ((marks f).headD false)))
  nested : ∀ f p, h.parent? f = some p →
    p < h.frames.size ∧ ∀ d, (marks f).getD (d + 1) false = (marks p).getD d false
  globals : h.parent? Machine.globals = none ∧ (marks Machine.globals).headD false = false
  natives : h'.natives = h.natives
  objects : h'.objects = h.objects
  closures : List.Forall₂ (Closure.Renamed R marks h.frames.size []) h.closures.toList
    h'.closures.toList
  youths : List.Forall₂ (Youth.Renamed R marks h.frames.size) h.youths.toList h'.youths.toList

/-- **The tasks that wait in two machines**, from a frame and with a table. -/
inductive Waiting (frames : Nat) : Nat → Distances → List Pending → List Pending → Prop
  | ended {f D} : Waiting frames f D [] []
  | task {f D p p' rest rest'} (h : Pending.Renamed R D (marks f) p p')
      (hrest : Waiting frames f D rest rest') : Waiting frames f D (p :: rest) (p' :: rest')
  | leave {f g D rest rest'} (hlt : g < frames) (hrest : Waiting frames g D rest rest') :
      Waiting frames f D (.leave g :: rest) (.leave g :: rest')
  | call {f g D D' function line rest rest'} (hlt : g < frames)
      (hrest : Waiting frames g D' rest rest') :
      Waiting frames f D (.call function line g D' :: rest) (.call function line g D' :: rest')

/-- Two machines that differ in names only, whatever they are about to do. -/
structure Machine.Twin (m m' : Machine) : Prop where
  heap : m.heap.Renamed R marks m'.heap
  clock : m'.clock = m.clock
  output : m'.output = m.output
  frame : m'.frame = m.frame
  distances : m'.distances = m.distances
  depth : m'.depth = m.depth
  within : m.frame < m.heap.frames.size
  pending : Waiting R marks m.heap.frames.size m.frame m.distances m.pending m'.pending

/-- **Two machines that differ in the name of a variable only**, with some marks on their frames. -/
def Machine.Renamed (m m' : Machine) : Prop :=
  ∃ marks : Nat → List Bool, Machine.Twin R marks m m'
    ∧ Control.Renamed R m.distances (marks m.frame) m.control m'.control

end Renamed

/-! ## Heaps

No change of a heap looks at more than one name, and each is spelled as the frame it is bound in has
it. -/

section Heaps

variable {R : Renaming} {marks marks' : Nat → List Bool} {frames frames' : Nat}

/-- A function keeps its name: what is renamed is a variable, not a declaration of one. -/
theorem Function.Renamed.name {D : Distances} {ms : List Bool} {f f' : Function}
    (h : Function.Renamed R D ms f f') : f'.name = f.name := by
  obtain ⟨-, -⟩ := h
  rfl

/-- As many parameters stand on both sides, so arity checks agree. -/
theorem Function.Renamed.length_parameters {D : Distances} {ms : List Bool} {f f' : Function}
    (h : Function.Renamed R D ms f f') : f'.parameters.length = f.parameters.length := by
  obtain ⟨hps, -⟩ := h
  exact hps.length_eq.symm

/-- Writing under the new name into the respelled bindings is respelling after the write, as no two
names are respelled to one. -/
theorem put_respell (σ : Equiv.Perm Text) (name : Text) (v : Value) (bs : Bindings) :
    Bindings.put (σ name) v (respell σ bs) = respell σ (bs.put name v) := by
  induction bs with
  | nil => rfl
  | cons b rest ih =>
    obtain ⟨key, w⟩ := b
    simp only [respell, List.map_cons, Bindings.put, σ.injective.eq_iff]
    split
    · rfl
    · exact congrArg _ ih

/-- The methods of a class correspond one by one, in order. -/
theorem MethodsRenamed.forall₂ {D : Distances} {ms : List Bool} {fs fs' : List Function}
    (h : MethodsRenamed R D ms fs fs') : List.Forall₂ (Function.Renamed R D ms) fs fs' := by
  match fs, fs', h with
  | _, _, .nil => exact .nil
  | _, _, .cons h hms => exact .cons h hms.forall₂

/-- Parameters are bound to the same values, under other names. -/
theorem foldl_put_respell {here : Bool} {ps ps' : List Token}
    (h : List.Forall₂ (R.Respells here) ps ps') (vs : List Value) :
    (ps'.zip vs).foldl (fun bs (p, v) => Bindings.put p.lexeme v bs) []
      = respell (R.spell here)
        ((ps.zip vs).foldl (fun bs (p, v) => Bindings.put p.lexeme v bs) []) := by
  have key : ∀ bs : Bindings, (ps'.zip vs).foldl (fun bs (p, v) => Bindings.put p.lexeme v bs)
      (respell (R.spell here) bs) = respell (R.spell here)
        ((ps.zip vs).foldl (fun bs (p, v) => Bindings.put p.lexeme v bs) bs) := by
    induction h generalizing vs with
    | nil => exact fun _ => rfl
    | cons h _ ih =>
      intro bs
      cases vs with
      | nil => rfl
      | cons v vs =>
        simp only [List.zip_cons_cons, List.foldl_cons]
        rw [h.lexeme, put_respell, ih]
  exact key []

/-- The marks of the frames there are stay when there are more. -/
structure Extends (marks marks' : Nat → List Bool) (frames frames' : Nat) : Prop where
  le : frames ≤ frames'
  same : ∀ f < frames, marks' f = marks f

section Growth

variable (hext : Extends marks marks' frames frames')

include hext

/-- Closures stay related in a larger heap, as they speak of frames that are already there. -/
theorem Closure.Renamed.grows {between : List Bool} {c c' : Closure}
    (h : Closure.Renamed R marks frames between c c') :
    Closure.Renamed R marks' frames' between c c' := by
  obtain ⟨hdeclaration, hframe, hdistances, hwithin⟩ := h
  rw [← hext.same _ hwithin] at hdeclaration
  exact ⟨hdeclaration, hframe, hdistances, Nat.lt_of_lt_of_le hwithin hext.le⟩

/-- So do classes, whose methods are closures. -/
theorem Youth.Renamed.grows {y y' : Youth} (h : Youth.Renamed R marks frames y y') :
    Youth.Renamed R marks' frames' y y' :=
  ⟨h.name, h.methods.imp fun _ _ hm => ⟨hm.1, hm.2.grows hext⟩⟩

/-- So does the work that waits in an old frame. -/
theorem Waiting.grows {f : Nat} {D : Distances} {ps ps' : List Pending}
    (h : Waiting R marks frames f D ps ps') (hf : f < frames) :
    Waiting R marks' frames' f D ps ps' := by
  induction h with
  | ended => exact .ended
  | @task f D p p' rest rest' h _ ih =>
    rw [← hext.same f hf] at h
    exact .task h (ih hf)
  | leave hlt _ ih => exact .leave (Nat.lt_of_lt_of_le hlt hext.le) (ih hlt)
  | call hlt _ ih => exact .call (Nat.lt_of_lt_of_le hlt hext.le) (ih hlt)

end Growth

namespace Heap.Renamed

variable {h h' : Heap} (hh : h.Renamed R marks h')

include hh

/-- Frames have the same parents: names play no part in the chain. -/
theorem parent? (f : Nat) : h'.parent? f = h.parent? f := by
  rw [Heap.parent?, Heap.parent?, hh.frames]
  cases h.frames[f]? <;> rfl

/-- A frame binds the same values, under the names that its mark says. -/
theorem bound? (f : Nat) (name : Text) :
    h'.bound? f (R.spell ((marks f).headD false) name) = h.bound? f name := by
  rw [Heap.bound?, Heap.bound?, hh.frames]
  cases h.frames[f]? with
  | none => rfl
  | some frame => exact lookup_respell _ _ _

/-- Walking up the same distance leads to the same frame. -/
theorem ancestor? (f d : Nat) : h'.ancestor? f d = h.ancestor? f d := by
  induction d generalizing f with
  | zero => rfl
  | succ d ih =>
    rw [Heap.ancestor?, Heap.ancestor?, hh.parent?]
    exact congrArg _ (funext ih)

/-- The mark of a frame further out is among the marks of the frame. -/
theorem mark_of_ancestor? {f d g : Nat} (hg : h.ancestor? f d = some g) :
    (marks g).headD false = (marks f).getD d false := by
  induction d generalizing f with
  | zero =>
    obtain rfl := Option.some.inj hg
    cases marks f <;> rfl
  | succ d ih =>
    obtain ⟨p, hp, hg⟩ := Option.bind_eq_some_iff.mp hg
    rw [ih hg, (hh.nested f p hp).2]

/-- The same index holds related closures, or none on either side. -/
theorem closure? (i : Nat) :
    Both (Closure.Renamed R marks h.frames.size []) h.closures[i]? h'.closures[i]? := by
  simpa using getElem?_of_forall₂ hh.closures i

/-- The same index holds related classes, or none on either side. -/
theorem youth? (i : Nat) : Both (Youth.Renamed R marks h.frames.size) h.youths[i]? h'.youths[i]? := by
  simpa using getElem?_of_forall₂ hh.youths i

/-- A name bound in a frame is bound on the other side under the spelling that frame has for it. -/
theorem define {f : Nat} {name name' : Text} (hname : name' = R.spell ((marks f).headD false) name)
    (v : Value) : (h.define f name v).Renamed R marks (h'.define f name' v) where
  size := by simp [hh.size]
  frames g := by
    simp only [Heap.define, Array.getElem?_modify, hh.frames g]
    split
    · next heq =>
      subst heq hname
      cases h.frames[f]? with
      | none => rfl
      | some frame => exact congrArg some (congrArg (Frame.mk _) (put_respell _ _ v _))
    · rfl
  nested g p hp := by
    rw [Heap.parent?_define] at hp
    simpa using hh.nested g p hp
  globals := by simpa using hh.globals
  natives := hh.natives
  objects := hh.objects
  closures := by simpa [Heap.define] using hh.closures
  youths := by simpa [Heap.define] using hh.youths

/-- Objects hold values and field names, which nobody renames. -/
theorem newObject (o : Object) : (h.newObject o).Renamed R marks (h'.newObject o) :=
  ⟨hh.size, hh.frames, hh.nested, hh.globals, hh.natives, by simp only [Heap.newObject, hh.objects],
    hh.closures, hh.youths⟩

/-- Nor does writing a field touch what is renamed. -/
theorem setField (object : Nat) (name : Text) (v : Value) :
    (h.setField object name v).Renamed R marks (h'.setField object name v) :=
  ⟨hh.size, hh.frames, hh.nested, hh.globals, hh.natives, by simp only [Heap.setField, hh.objects],
    hh.closures, hh.youths⟩

/-- Related closures may be added on both sides. -/
theorem newClosure {c c' : Closure} (hc : Closure.Renamed R marks h.frames.size [] c c') :
    (h.newClosure c).Renamed R marks (h'.newClosure c') := by
  refine ⟨hh.size, hh.frames, hh.nested, hh.globals, hh.natives, hh.objects, ?_, hh.youths⟩
  simpa [Heap.newClosure] using List.rel_append hh.closures (.cons hc .nil)

/-- So may related classes. -/
theorem newYouth {y y' : Youth} (hy : Youth.Renamed R marks h.frames.size y y') :
    (h.newYouth y).Renamed R marks (h'.newYouth y') := by
  refine ⟨hh.size, hh.frames, hh.nested, hh.globals, hh.natives, hh.objects, hh.closures, ?_⟩
  simpa [Heap.newYouth] using List.rel_append hh.youths (.cons hy .nil)

omit hh in
/-- The marks with those of a new frame. -/
theorem extends_newFrame (here : Bool) (p : Nat) (bindings : Bindings) :
    Extends marks (Function.update marks h.frames.size (here :: marks p)) h.frames.size
      (h.newFrame (some p) bindings).frames.size :=
  ⟨by simp, fun _ hf => Function.update_of_ne (Nat.ne_of_lt hf) _ _⟩

/-- A new frame has a mark of its own, before those of the frame around it. -/
theorem newFrame {p : Nat} (hp : p < h.frames.size) (here : Bool) (bindings : Bindings) :
    (h.newFrame (some p) bindings).Renamed R
      (Function.update marks h.frames.size (here :: marks p))
      (h'.newFrame (some p) (respell (R.spell here) bindings)) := by
  have hext := @extends_newFrame marks h here p bindings
  refine ⟨by simp [hh.size], fun f => ?_, fun f q hq => ?_, ?_, hh.natives, hh.objects, ?_, ?_⟩
  · simp only [Heap.newFrame, Array.getElem?_push, hh.size, hh.frames f]
    split
    · next heq =>
      subst heq
      rw [Function.update_self]
      rfl
    · next hne => rw [Function.update_of_ne hne]
  · rw [Heap.size_frames_newFrame]
    obtain hlt | rfl | hgt := Nat.lt_trichotomy f h.frames.size
    · rw [Heap.parent?_newFrame_of_lt hlt] at hq
      obtain ⟨hsize, hmarks⟩ := hh.nested f q hq
      exact ⟨Nat.lt_succ_of_lt hsize, fun d => by rw [hext.same f hlt, hext.same q hsize, hmarks]⟩
    · rw [Heap.parent?_newFrame_self] at hq
      obtain rfl := Option.some.inj hq
      refine ⟨Nat.lt_succ_of_lt hp, fun d => ?_⟩
      rw [Function.update_self, hext.same p hp, List.getD_cons_succ]
    · have := Heap.parent?_eq_some_lt hq
      rw [Heap.size_frames_newFrame] at this
      omega
  · have hglobals : Machine.globals < h.frames.size := Nat.zero_lt_of_lt hp
    rw [Heap.parent?_newFrame_of_lt hglobals, hext.same _ hglobals]
    exact hh.globals
  · exact hh.closures.imp fun _ _ hc => hc.grows hext
  · exact hh.youths.imp fun _ _ hy => hy.grows hext

/-- A class shows the same name on both sides. -/
theorem youthName (i : Nat) : h'.youthName i = h.youthName i := by
  obtain ⟨hy, hy'⟩ | ⟨y, y', hy, hy', hname, -⟩ := hh.youth? i
  · rw [Heap.youthName, Heap.youthName, hy, hy']
  · simp [Heap.youthName, hy, hy', hname]

/-- Values are printed alike. -/
theorem describe (v : Value) : h'.describe v = h.describe v := by
  cases v with
  | function id =>
    obtain ⟨hc, hc'⟩ | ⟨c, c', hc, hc', hrenamed⟩ := hh.closure? id
    · rw [Heap.describe, Heap.describe, hc, hc']
    · simp [Heap.describe, hc, hc', hrenamed.declaration.name]
  | youth id => exact hh.youthName id
  | object id => simp only [Heap.describe, hh.objects, hh.youthName]
  | truth b => cases b <;> rfl
  | _ => rfl

/-- The methods of an object differ in names only. -/
theorem method? (object : Nat) (name : Text) :
    Both (Closure.Renamed R marks h.frames.size [false])
      ((h.youthOf? object).bind fun y => y.methods.lookup name)
      ((h'.youthOf? object).bind fun y => y.methods.lookup name) := by
  simp only [Heap.youthOf?, hh.objects]
  cases h.objects[object]? with
  | none => exact .inl ⟨rfl, rfl⟩
  | some o =>
    simp only [Option.bind_some]
    obtain ⟨hy, hy'⟩ | ⟨y, y', hy, hy', hrenamed⟩ := hh.youth? o.youth
    · rw [hy, hy']
      exact .inl ⟨rfl, rfl⟩
    · rw [hy, hy']
      exact lookup_of_forall₂ hrenamed.methods name

end Heap.Renamed

end Heaps

/-! ## Names -/

/-- A token is the same, or it is a use of the variable. -/
theorem Renaming.Respells.eq_or {R : Renaming} {here : Bool} {t t' : Token}
    (h : R.Respells here t t') :
    t' = t ∨ (t.lexeme = R.token.lexeme ∧ t' = { t with lexeme := R.name }) := by
  obtain ⟨rfl, hne⟩ := h
  cases here with
  | false => exact .inl rfl
  | true =>
    by_cases hold : t.lexeme = R.token.lexeme
    · exact .inr ⟨hold, by rw [hold, spell, if_pos rfl, Equiv.swap_apply_left]⟩
    · exact .inl (by rw [spell_of_ne hold (hne rfl)])

section Step

variable {R : Renaming} {marks : Nat → List Bool} {m m' : Machine}

namespace Machine.Twin

variable (ht : Machine.Twin R marks m m')

include ht

/-! ## What every step is made of

The moves that a step makes, each between related machines. -/

/-- Two machines that differ only in related controls are related. -/
theorem turn {c c' : Control} (hc : Control.Renamed R m.distances (marks m.frame) c c') :
    Machine.Renamed R (m.turn c) (m'.turn c') :=
  ⟨marks, ⟨ht.heap, ht.clock, ht.output, ht.frame, ht.distances, ht.depth, ht.within, ht.pending⟩, hc⟩

/-- Related expressions are taken up with related work put behind them. -/
theorem evalFor {e e' : Expr} {p p' : Pending} (he : Expr.Renamed R m.distances (marks m.frame) e e')
    (hp : Pending.Renamed R m.distances (marks m.frame) p p') :
    Machine.Renamed R (m.evalFor e p) (m'.evalFor e' p') :=
  ⟨marks, ⟨ht.heap, ht.clock, ht.output, ht.frame, ht.distances, ht.depth, ht.within,
    .task hp ht.pending⟩, .eval he⟩

/-- Both fail with the same cause at the same token. -/
theorem failAt (t : Token) (cause : RuntimeCause) :
    Machine.Renamed R (m.failAt t cause) (m'.failAt t cause) := ht.turn (.failing (.inl rfl))

/-- The machines with other heaps, which have the same frames. -/
theorem withHeap {h h' : Heap} (hh : h.Renamed R marks h')
    (hsize : h.frames.size = m.heap.frames.size) {c c' : Control}
    (hc : Control.Renamed R m.distances (marks m.frame) c c') :
    Machine.Renamed R { m with heap := h, control := c } { m' with heap := h', control := c' } := by
  refine ⟨marks, ⟨hh, ht.clock, ht.output, ht.frame, ht.distances, ht.depth, ?_, ?_⟩, hc⟩
  · exact hsize ▸ ht.within
  · exact hsize ▸ ht.pending

/-- A name bound in the current frame, in heaps which have the same frames. -/
theorem defined {h h' : Heap} (hh : h.Renamed R marks h') (hsize : h.frames.size = m.heap.frames.size)
    {name name' : Text} (hname : name' = R.spell ((marks m.frame).headD false) name) (v : Value) :
    Machine.Renamed R { m with heap := h.define m.frame name v, control := .done }
      { m' with heap := h'.define m'.frame name' v, control := .done } := by
  refine ht.withHeap ?_ (by simpa using hsize) .done
  rw [ht.frame]
  exact hh.define hname v

/-- The machines with other tasks. -/
theorem withPending {rest rest' : List Pending}
    (hrest : Waiting R marks m.heap.frames.size m.frame m.distances rest rest') :
    Machine.Twin R marks { m with pending := rest } { m' with pending := rest' } :=
  ⟨ht.heap, ht.clock, ht.output, ht.frame, ht.distances, ht.depth, ht.within, hrest⟩

/-! ## Names -/

/-- **A node finds its name in the same frame**, under the name that the mark of the frame says. -/
theorem binding {n : Nat} {t t' : Token} (h : R.Respells (leadsTo (marks m.frame) m.distances n) t t') :
    (m'.binding n t'.lexeme).1 = (m.binding n t.lexeme).1
      ∧ ∀ f, (m.binding n t.lexeme).1 = some f →
        t'.lexeme = R.spell ((marks f).headD false) t.lexeme := by
  have hh := ht.heap
  unfold Machine.binding
  rw [ht.distances, ht.frame]
  unfold leadsTo at h
  cases hd : m.distances[n]? with
  | none =>
    rw [hd, Option.any_none] at h
    obtain ⟨hparent, hmark⟩ := hh.globals
    have hlexeme : t'.lexeme = R.spell ((marks Machine.globals).headD false) t.lexeme := by
      rw [h.lexeme, hmark]
    have hchain : ∀ h : Heap, h.parent? Machine.globals = none →
        h.chain Machine.globals = [Machine.globals] := fun h hnone => by
      simp [Heap.chain, Heap.chainFrom, hnone]
    have hbound := hh.bound? Machine.globals t.lexeme
    rw [← hlexeme] at hbound
    refine ⟨?_, fun f hf => ?_⟩
    · simp only [Heap.binder?, hchain _ hparent, hchain _ ((hh.parent? _).trans hparent),
        List.find?_cons, List.find?_nil, hbound]
    · simp only [Heap.binder?, hchain _ hparent] at hf
      obtain rfl : f = Machine.globals := by simpa using List.mem_of_find?_eq_some hf
      exact hlexeme
  | some d =>
    rw [hd, Option.any_some] at h
    simp only [Heap.binderAt?, hh.ancestor?]
    cases hg : m.heap.ancestor? m.frame d with
    | none => exact ⟨rfl, fun f hf => by simp at hf⟩
    | some g =>
      have hlexeme : t'.lexeme = R.spell ((marks g).headD false) t.lexeme := by
        rw [h.lexeme, hh.mark_of_ancestor? hg]
      have hbound := hh.bound? g t.lexeme
      rw [← hlexeme] at hbound
      refine ⟨?_, fun f hf => ?_⟩
      · simp only [Option.filter_some, hbound]
      · obtain rfl : g = f := Option.some.inj (Option.filter_eq_some_iff.mp hf).1
        exact hlexeme

/-- A node that does not find its name fails alike, but for the name of the variable. -/
theorem failUnbound {n : Nat} {t t' : Token}
    (h : R.Respells (leadsTo (marks m.frame) m.distances n) t t') :
    Machine.Renamed R (m.failAt t (m.binding n t.lexeme).2)
      (m'.failAt t' (m'.binding n t'.lexeme).2) := by
  unfold Machine.binding
  rw [ht.distances]
  unfold leadsTo at h
  cases hd : m.distances[n]? with
  | none =>
    rw [hd, Option.any_none] at h
    obtain rfl : t' = t := h.eq
    exact ht.failAt t' _
  | some d =>
    obtain rfl | ⟨hold, rfl⟩ := h.eq_or
    · exact ht.failAt t' _
    · exact ht.turn (.failing (.inr ⟨d, by rw [hold], hold, rfl⟩))

/-- **A name read at a resolved distance gives both the same value, or both the same failure up to
the name.** -/
theorem lookUp {n : Nat} {t t' : Token} (h : R.Respells (leadsTo (marks m.frame) m.distances n) t t') :
    Machine.Renamed R (m.lookUp n t) (m'.lookUp n t') := by
  obtain ⟨hframe, hname⟩ := ht.binding h
  rw [Machine.lookUp_eq_binding, Machine.lookUp_eq_binding, hframe]
  cases hbinder : (m.binding n t.lexeme).1 with
  | none => exact ht.failUnbound h
  | some f =>
    have hvalue : m'.heap.bound? f t'.lexeme = m.heap.bound? f t.lexeme := by
      rw [hname f hbinder, ht.heap.bound?]
    rw [Option.bind_some, Option.bind_some, hvalue]
    cases m.heap.bound? f t.lexeme with
    | none => exact ht.failUnbound h
    | some x => exact ht.turn (.value x)

/-- A name written at a resolved distance is written in the same frame on both sides. -/
theorem assign {n : Nat} {t t' : Token} (h : R.Respells (leadsTo (marks m.frame) m.distances n) t t')
    (v : Value) : Machine.Renamed R (m.assign n t v) (m'.assign n t' v) := by
  obtain ⟨hframe, hname⟩ := ht.binding h
  rw [Machine.assign_eq_binding, Machine.assign_eq_binding, hframe]
  cases hbinder : (m.binding n t.lexeme).1 with
  | none => exact ht.failUnbound h
  | some f => exact ht.withHeap (ht.heap.define (hname f hbinder) v) (by simp) (.value v)

/-! ## Expressions -/

/-- Signs look at values alone. -/
theorem applyUnary (op : UnaryOp) (t : Token) (v : Value) :
    Machine.Renamed R (m.applyUnary op t v) (m'.applyUnary op t v) := by
  unfold Machine.applyUnary
  split
  · exact ht.turn (.value _)
  · exact ht.turn (.value _)
  · exact ht.failAt t _

/-- So do operators with two operands. -/
theorem applyBinary (op : BinaryOp) (t : Token) (v w : Value) :
    Machine.Renamed R (m.applyBinary op t v w) (m'.applyBinary op t v w) := by
  unfold Machine.applyBinary
  split
  · exact ht.turn (.value _)
  · exact ht.turn (.value _)
  · exact ht.turn (.value _)
  · exact ht.turn (.value _)
  · exact ht.failAt t _
  · exact ht.failAt t _

/-- A method that is read off an object is bound to it in frames with the same number. -/
theorem property (v : Value) (t : Token) : Machine.Renamed R (m.property v t) (m'.property v t) := by
  cases v with
  | object id =>
    simp only [Machine.property, ht.heap.objects]
    split
    · exact ht.turn (.value _)
    · obtain ⟨hc, hc'⟩ | ⟨c, c', hc, hc', hrenamed⟩ := ht.heap.method? id t.lexeme
      · rw [hc, hc']
        exact ht.failAt t _
      · obtain ⟨hdeclaration, hframe, hdistances, hwithin⟩ := hrenamed
        have hext :=
          @Heap.Renamed.extends_newFrame marks m.heap false c.frame [(receiver, .object id)]
        have hheap := ht.heap.newFrame hwithin false [(receiver, .object id)]
        rw [Renaming.spell_false, respell_refl] at hheap
        have hsize : m'.heap.closures.size = m.heap.closures.size :=
          ht.heap.closures.length_eq.symm
        simp only [hc, hc', ht.heap.size, hframe, hsize]
        refine ⟨_, ⟨hheap.newClosure ⟨?_, rfl, hdistances, by simp⟩, ht.clock, ht.output, ht.frame,
          ht.distances, ht.depth, Nat.lt_of_lt_of_le ht.within hext.le,
          ht.pending.grows hext ht.within⟩, .value _⟩
        rw [Function.update_self]
        exact hdeclaration
  | _ => exact ht.failAt t _

/-- What is called wants as many arguments on both sides. -/
theorem arity? (v : Value) : m'.arity? v = m.arity? v := by
  cases v with
  | native id => simp only [Machine.arity?, ht.heap.natives]
  | function id =>
    obtain ⟨hc, hc'⟩ | ⟨c, c', hc, hc', hrenamed⟩ := ht.heap.closure? id
    · simp only [Machine.arity?, hc, hc']
    · simp only [Machine.arity?, hc, hc', Option.map_some, hrenamed.declaration.length_parameters]
  | youth id =>
    obtain ⟨hy, hy'⟩ | ⟨y, y', hy, hy', -⟩ := ht.heap.youth? id
    · simp only [Machine.arity?, hy, hy']
    · simp only [Machine.arity?, hy, hy', Option.map_some]
  | _ => rfl

/-- The functions of the language itself never look at a frame. -/
theorem callNative (builtin : Builtin) (t : Token) (arguments : List Value) :
    Machine.Renamed R (m.callNative builtin t arguments) (m'.callNative builtin t arguments) := by
  cases builtin with
  | clock =>
    simp only [Machine.callNative, ht.clock]
    exact ⟨marks, ⟨ht.heap, rfl, ht.output, ht.frame, ht.distances, ht.depth, ht.within, ht.pending⟩,
      .value _⟩
  | str =>
    simp only [Machine.callNative, ht.heap.describe]
    exact ht.turn (.value _)
  | len =>
    simp only [Machine.callNative]
    split
    · exact ht.turn (.value _)
    · exact ht.failAt t _
  | constant v => exact ht.turn (.value v)
  | failing message => exact ht.failAt t _

/-- A call goes on in frames with the same number, with the mark of the function's scope. -/
theorem callClosure {c c' : Closure} (hc : Closure.Renamed R marks m.heap.frames.size [] c c')
    (t : Token) (arguments : List Value) :
    Machine.Renamed R (m.callClosure c t arguments) (m'.callClosure c' t arguments) := by
  obtain ⟨⟨name, ps, body⟩, p, D⟩ := c
  obtain ⟨⟨name', ps', body'⟩, p', D'⟩ := c'
  obtain ⟨hdeclaration, hframe, hdistances, hwithin⟩ := hc
  obtain rfl : p' = p := hframe
  obtain rfl : D' = D := hdistances
  cases hdeclaration with
  | @mk _ here _ _ _ _ _ hps hbody =>
    have hext := @Heap.Renamed.extends_newFrame marks m.heap here p'
      ((ps.zip arguments).foldl (fun bs (p, v) => Bindings.put p.lexeme v bs) [])
    have hheap := ht.heap.newFrame hwithin here
      ((ps.zip arguments).foldl (fun bs (p, v) => Bindings.put p.lexeme v bs) [])
    rw [← foldl_put_respell hps arguments] at hheap
    simp only [Machine.callClosure, Function.parameters, Function.body, Function.name, ht.heap.size,
      ht.frame, ht.distances]
    refine ⟨_, ⟨hheap, ht.clock, ht.output, rfl, rfl, congrArg (· + 1) ht.depth, by simp, ?_⟩, .done⟩
    refine .task (.sequence ?_) (.call (Nat.lt_of_lt_of_le ht.within hext.le)
      (ht.pending.grows hext ht.within))
    rw [Function.update_self]
    exact hbody

/-- A call enters related bodies in frames that bind the related parameters. -/
theorem enter (callee : Value) (t : Token) (arguments : List Value) :
    Machine.Renamed R (m.enter callee t arguments) (m'.enter callee t arguments) := by
  cases callee with
  | native id =>
    simp only [Machine.enter, ht.heap.natives]
    split
    · exact ht.callNative _ t arguments
    · exact ht.failAt t _
  | function id =>
    simp only [Machine.enter]
    obtain ⟨hc, hc'⟩ | ⟨c, c', hc, hc', hrenamed⟩ := ht.heap.closure? id
    · rw [hc, hc']
      exact ht.failAt t _
    · rw [hc, hc']
      exact ht.callClosure hrenamed t arguments
  | youth id =>
    simp only [Machine.enter, ht.heap.objects]
    exact ht.withHeap (ht.heap.newObject _) rfl (.value _)
  | _ => exact ht.failAt t _

/-- Both check the number of arguments and the depth before they enter. -/
theorem call (callee : Value) (t : Token) (arguments : List Value) :
    Machine.Renamed R (m.call callee t arguments) (m'.call callee t arguments) := by
  unfold Machine.call
  rw [ht.arity?, ht.depth]
  split
  · exact ht.failAt t _
  · split
    · exact ht.failAt t _
    · split
      · exact ht.failAt t _
      · exact ht.enter callee t arguments

/-- The first step of an expression. -/
theorem eval {e e' : Expr} (he : Expr.Renamed R m.distances (marks m.frame) e e') :
    Machine.Renamed R (m.eval e) (m'.eval e') := by
  cases he with
  | literal v => exact ht.turn (.value _)
  | «variable» h => exact ht.lookUp h
  | me h => exact ht.lookUp h
  | group h => exact ht.turn (.eval h)
  | unary h => exact ht.evalFor h .unary
  | binary hl hr => exact ht.evalFor hl (.rightOperand hr)
  | logical hl hr => exact ht.evalFor hl (.logical hr)
  | assign h he => exact ht.evalFor he (.assign h)
  | get h => exact ht.evalFor h .get
  | set ho h => exact ht.evalFor ho (.setObject h)
  | call h hes => exact ht.evalFor h (.callee hes)

/-! ## Statements -/

/-- A function declared in related frames makes related closures. -/
theorem closureOf {f f' : Function} {between : List Bool}
    (h : Function.Renamed R m.distances (between ++ marks m.frame) f f') :
    Closure.Renamed R marks m.heap.frames.size between (m.closureOf f) (m'.closureOf f') :=
  ⟨h, ht.frame, ht.distances, ht.within⟩

/-- A class gets the same table of methods, under the same names. -/
theorem methodTable {ms ms' : List Function}
    (h : MethodsRenamed R m.distances (false :: marks m.frame) ms ms') :
    List.Forall₂ (fun entry entry' => entry.1 = entry'.1
        ∧ Closure.Renamed R marks m.heap.frames.size [false] entry.2 entry'.2)
      (m.methodTable ms) (m'.methodTable ms') := by
  have hreverse := List.forall₂_reverse_iff.mpr h.forall₂
  refine List.forall₂_map_left_iff.mpr (List.forall₂_map_right_iff.mpr (hreverse.imp ?_))
  exact fun f f' hf => ⟨congrArg Token.lexeme hf.name.symm, ht.closureOf hf⟩

/-- The first step of a statement. -/
theorem exec {s s' : Stmt} (hs : Stmt.Renamed R m.distances (marks m.frame) s s') :
    Machine.Renamed R (m.exec s) (m'.exec s') := by
  cases hs with
  | failed => exact ht.turn .done
  | expression h => exact ht.evalFor h .discard
  | tell h => exact ht.evalFor h .tell
  | bare h =>
    exact ht.defined ht.heap rfl h.lexeme _
  | declare h he => exact ht.evalFor he (.declare h)
  | giveNothing => exact ht.turn (.giving _)
  | give h => exact ht.evalFor h .give
  | @block _ here _ _ h =>
    have hext := @Heap.Renamed.extends_newFrame marks m.heap here m.frame []
    have hheap := ht.heap.newFrame ht.within here []
    simp only [Machine.exec, ht.heap.size, ht.frame]
    refine ⟨_, ⟨hheap, ht.clock, ht.output, rfl, ht.distances, ht.depth, by simp, ?_⟩, .done⟩
    refine .task (.sequence ?_) (.leave (Nat.lt_of_lt_of_le ht.within hext.le)
      (ht.pending.grows hext ht.within))
    rw [Function.update_self]
    exact h
  | branch hc hyes => exact ht.evalFor hc (.branch hyes)
  | branches hc hyes hno => exact ht.evalFor hc (.branches hyes hno)
  | loop hc h => exact ht.evalFor hc (.loopTest hc h)
  | @function _ f f' hname h =>
    have hsize : m'.heap.closures.size = m.heap.closures.size := ht.heap.closures.length_eq.symm
    have hheap := ht.heap.newClosure (@closureOf _ _ _ _ ht f f' [] h)
    simp only [Machine.exec, hsize, h.name]
    exact ht.defined hheap rfl hname.lexeme _
  | @youth _ name ms ms' hname h =>
    have hsize : m'.heap.youths.size = m.heap.youths.size := ht.heap.youths.length_eq.symm
    have hheap := @Heap.Renamed.newYouth _ _ _ _ ht.heap ⟨name.lexeme, m.methodTable ms⟩
      ⟨name.lexeme, m'.methodTable ms'⟩ ⟨rfl, ht.methodTable h⟩
    simp only [Machine.exec, hsize]
    exact ht.defined hheap rfl hname.lexeme _

/-! ## Tasks taken up

A task is taken up on both sides with the same value, so both go the same way. -/

/-- A task takes the value it waits for. -/
theorem receive {p p' : Pending} (hp : Pending.Renamed R m.distances (marks m.frame) p p') (v : Value) :
    Machine.Renamed R (m.receive v p) (m'.receive v p') := by
  cases hp with
  | unary => exact ht.applyUnary _ _ v
  | rightOperand h => exact ht.evalFor h .binary
  | binary => exact ht.applyBinary _ _ _ v
  | @logical op _ _ h =>
    cases op <;> (simp only [Machine.receive]; split)
    · exact ht.turn (.eval h)
    · exact ht.turn (.value v)
    · exact ht.turn (.value v)
    · exact ht.turn (.eval h)
  | assign h => exact ht.assign h v
  | get => exact ht.property v _
  | setObject h =>
    simp only [Machine.receive]
    split
    · exact ht.evalFor h .set
    · exact ht.failAt _ _
  | set => exact ht.withHeap (ht.heap.setField _ _ v) rfl (.value v)
  | callee h =>
    cases h with
    | nil => exact ht.call v _ []
    | cons he hes => exact ht.evalFor he (.argument hes)
  | argument h =>
    cases h with
    | nil => exact ht.call _ _ _
    | cons he hes => exact ht.evalFor he (.argument hes)
  | discard => exact ht.turn .done
  | tell =>
    simp only [Machine.receive, ht.heap.describe]
    exact ⟨marks, ⟨ht.heap, ht.clock, congrArg (_ :: ·) ht.output, ht.frame, ht.distances, ht.depth,
      ht.within, ht.pending⟩, .done⟩
  | declare h =>
    exact ht.defined ht.heap rfl h.lexeme v
  | give => exact ht.turn (.giving v)
  | branch h =>
    simp only [Machine.receive]
    split
    · exact ht.turn (.exec h)
    · exact ht.turn .done
  | branches h hno =>
    simp only [Machine.receive]
    split
    · exact ht.turn (.exec h)
    · exact ht.turn (.exec hno)
  | loopTest he h =>
    simp only [Machine.receive]
    split
    · exact ⟨marks, ⟨ht.heap, ht.clock, ht.output, ht.frame, ht.distances, ht.depth, ht.within,
        .task (.loopBody he h) ht.pending⟩, .exec h⟩
    · exact ht.turn .done
  | loopBody _ _ => exact ht.turn .done
  | sequence _ => exact ht.turn .done
  | program _ => exact ht.turn .done

/-- A task goes on after a statement. -/
theorem resume {p p' : Pending} (hp : Pending.Renamed R m.distances (marks m.frame) p p') :
    Machine.Renamed R (m.resume p) (m'.resume p') := by
  cases hp with
  | loopBody he h => exact ht.evalFor he (.loopTest he h)
  | sequence h =>
    cases h with
    | nil => exact ht.turn .done
    | cons h hbody =>
      exact ⟨marks, ⟨ht.heap, ht.clock, ht.output, ht.frame, ht.distances, ht.depth, ht.within,
        .task (.sequence hbody) ht.pending⟩, .exec h⟩
  | program h =>
    cases h with
    | nil => exact ht.turn .done
    | cons h hbody =>
      exact ⟨marks, ⟨ht.heap, ht.clock, ht.output, ht.frame, ht.distances, ht.depth, ht.within,
        .task (.program hbody) ht.pending⟩, .exec h⟩
  | _ => exact ht.turn .done

/-- A task that neither leaves a frame nor ends a call takes a value that is given back. -/
theorem takeGiven {p p' : Pending} (hp : Pending.Renamed R m.distances (marks m.frame) p p')
    (v : Value) : Machine.Renamed R (m.takeGiven v p) (m'.takeGiven v p') := by
  cases hp with
  | program h =>
    exact ⟨marks, ⟨ht.heap, ht.clock, ht.output, ht.frame, ht.distances, ht.depth, ht.within,
      .task (.program h) ht.pending⟩, .done⟩
  | _ => exact ht.turn (.giving v)

/-- A failure passes the same pending work on both sides, and restores the same frames. -/
theorem unwind {p p' : Pending} (hp : Pending.Renamed R m.distances (marks m.frame) p p')
    {d d' : Diagnostic} (hd : d.Renamed R d') :
    Machine.Renamed R (m.unwind d p) (m'.unwind d' p') := by
  cases hp <;> exact ht.turn (.failing hd)

end Machine.Twin

end Step

end YouthLang

import YouthLang.Proofs.Linked
import YouthLang.Proofs.Sessions

/-!
# Proofs/Simulation — two machines in step

Two machines run in step when they run trees that are alike on heaps that are the same but for such
trees.  Their tables of distances may differ, as long as the nodes that they are at are linked: then a
name that the one table has at the globals and the other leaves open is found in the same frame
(`SameBinding.of_linked`).  One step keeps two machines in step (`Machine.Alike.step`).

The first machine may have more statements to run behind those of the second: the two are in step until
the second has none left (`Machine.IsThrough`).
-/

namespace YouthLang

/-! ## The relation -/

section Alike

variable (L N : Nat → Nat → Prop)

/-- Two functions of a heap: the same but for their trees, and with any tables. -/
structure Closure.Alike (c c' : Closure) : Prop where
  declaration : Function.Alike (Token.Alike L) N c.declaration c'.declaration
  frame : c.frame = c'.frame

/-- Two youths with the same methods. -/
structure Youth.Alike (y y' : Youth) : Prop where
  name : y.name = y'.name
  methods : List.Forall₂ (fun m m' => m.1 = m'.1 ∧ Closure.Alike L N m.2 m'.2) y.methods y'.methods

/-- Two heaps that are the same but for the trees in them. -/
structure Heap.Alike (h h' : Heap) : Prop where
  frames : h.frames = h'.frames
  natives : h.natives = h'.natives
  objects : h.objects = h'.objects
  closures : List.Forall₂ (Closure.Alike L N) h.closures.toList h'.closures.toList
  youths : List.Forall₂ (Youth.Alike L N) h.youths.toList h'.youths.toList

/-- Two lines of diagnostics. -/
def OnLines (i i' : Int) : Prop := ∃ l l' : Nat, i = l ∧ i' = l' ∧ L l l'

/-- Two calls that differ in their lines only. -/
structure CallSite.Alike (c c' : CallSite) : Prop where
  function : c.function = c'.function
  file : c.file = c'.file
  line : OnLines L c.line c'.line

/-- Two diagnostics that differ in their lines only. -/
structure Diagnostic.Alike (d d' : Diagnostic) : Prop where
  cause : d.cause = d'.cause
  line : OnLines L d.line d'.line
  column : d.column = d'.column
  lexeme : d.lexeme = d'.lexeme
  atEnd : d.atEnd = d'.atEnd
  file : d.file = d'.file
  excerpt : d.excerpt = d'.excerpt
  calls : List.Forall₂ (CallSite.Alike L) d.calls d'.calls

/-- Two controls that are the same but for their trees. -/
inductive Control.Alike : Control → Control → Prop
  | eval {e e'} (h : Expr.Alike (Token.Alike L) N e e') : Control.Alike (.eval e) (.eval e')
  | exec {s s'} (h : Stmt.Alike (Token.Alike L) N s s') : Control.Alike (.exec s) (.exec s')
  | value (v : Value) : Control.Alike (.value v) (.value v)
  | done : Control.Alike .done .done
  | giving (v : Value) : Control.Alike (.giving v) (.giving v)
  | failing {d d'} (h : Diagnostic.Alike L d d') : Control.Alike (.failing d) (.failing d')

/-- Two tasks that are the same but for their trees and leave the frame as it is. -/
inductive Pending.Alike : Pending → Pending → Prop
  | unary {op t t'} (ht : t.Alike L t') : Pending.Alike (.unary op t) (.unary op t')
  | rightOperand {op t t' e e'} (ht : t.Alike L t') (h : Expr.Alike (Token.Alike L) N e e') :
      Pending.Alike (.rightOperand op t e) (.rightOperand op t' e')
  | binary {op t t' v} (ht : t.Alike L t') : Pending.Alike (.binary op t v) (.binary op t' v)
  | logical {op e e'} (h : Expr.Alike (Token.Alike L) N e e') :
      Pending.Alike (.logical op e) (.logical op e')
  | assign {n n' t t'} (hnode : N n n') (ht : t.Alike L t') :
      Pending.Alike (.assign n t) (.assign n' t')
  | get {t t'} (ht : t.Alike L t') : Pending.Alike (.get t) (.get t')
  | setObject {t t' e e'} (ht : t.Alike L t') (h : Expr.Alike (Token.Alike L) N e e') :
      Pending.Alike (.setObject t e) (.setObject t' e')
  | set {t t' object} (ht : t.Alike L t') : Pending.Alike (.set t object) (.set t' object)
  | callee {t t' es es'} (ht : t.Alike L t') (h : ArgumentsAlike (Token.Alike L) N es es') :
      Pending.Alike (.callee t es) (.callee t' es')
  | argument {t t' v vs es es'} (ht : t.Alike L t')
      (h : ArgumentsAlike (Token.Alike L) N es es') :
      Pending.Alike (.argument t v vs es) (.argument t' v vs es')
  | discard : Pending.Alike .discard .discard
  | tell : Pending.Alike .tell .tell
  | declare {t t'} (ht : t.Alike L t') : Pending.Alike (.declare t) (.declare t')
  | give : Pending.Alike .give .give
  | branch {yes yes'} (h : Stmt.Alike (Token.Alike L) N yes yes') :
      Pending.Alike (.branch yes none) (.branch yes' none)
  | branches {yes yes' no no'} (h : Stmt.Alike (Token.Alike L) N yes yes')
      (hno : Stmt.Alike (Token.Alike L) N no no') :
      Pending.Alike (.branch yes (some no)) (.branch yes' (some no'))
  | loopTest {e e' s s'} (he : Expr.Alike (Token.Alike L) N e e')
      (h : Stmt.Alike (Token.Alike L) N s s') : Pending.Alike (.loopTest e s) (.loopTest e' s')
  | loopBody {e e' s s'} (he : Expr.Alike (Token.Alike L) N e e')
      (h : Stmt.Alike (Token.Alike L) N s s') : Pending.Alike (.loopBody e s) (.loopBody e' s')
  | sequence {body body'} (h : BodyAlike (Token.Alike L) N body body') :
      Pending.Alike (.sequence body) (.sequence body')

/-- **The tasks that wait in two machines**, from a frame and with some active calls: the last one is
the program, at the globals and with no call active, and the first machine has more of it to run. -/
inductive Queued (more : List Stmt) : Nat → Nat → List Pending → List Pending → Prop
  | program {body body'} (h : BodyAlike (Token.Alike L) N body body') :
      Queued more Machine.globals 0 [.program (body ++ more)] [.program body']
  | task {f n p p' rest rest'} (h : Pending.Alike L N p p') (hrest : Queued more f n rest rest') :
      Queued more f n (p :: rest) (p' :: rest')
  | leave {f g n rest rest'} (hrest : Queued more g n rest rest') :
      Queued more f n (.leave g :: rest) (.leave g :: rest')
  | call {f g n rest rest' function line line' D D'} (hline : L line line')
      (hrest : Queued more g n rest rest') :
      Queued more f (n + 1) (.call function line g D :: rest) (.call function line' g D' :: rest')

/-- Two machines that differ in their trees, their tables and what they are about to do only; the first
has printed some lines before. -/
structure Machine.Beside (more : List Stmt) (before : List Text) (m m' : Machine) : Prop where
  heap : m.heap.Alike L N m'.heap
  clock : m.clock = m'.clock
  output : m.output = m'.output ++ before
  frame : m.frame = m'.frame
  depth : m.depth = m'.depth
  pending : Queued L N more m.frame m.depth m.pending m'.pending

/-- **Two machines in step**: they are about to do the same, or have both failed. -/
inductive Machine.Alike (more : List Stmt) (before : List Text) (m m' : Machine) : Prop
  | running (hbeside : Machine.Beside L N more before m m')
      (hcontrol : Control.Alike L N m.control m'.control)
  | failed {d d'} (hheap : m.heap.Alike L N m'.heap) (hclock : m.clock = m'.clock)
      (houtput : m.output = m'.output ++ before) (hpending : m.pending = [])
      (hpending' : m'.pending = []) (hcontrol : m.control = .failing d)
      (hcontrol' : m'.control = .failing d') (hd : Diagnostic.Alike L d d')

end Alike

/-- A machine whose program has no statement left. -/
def Machine.IsThrough (m : Machine) : Prop := m.control = .done ∧ m.pending = [.program []]

/-! ## Heaps -/

/-- Two optional things that are both missing, or both there and related. -/
def Both {α β : Type} (R : α → β → Prop) (x : Option α) (y : Option β) : Prop :=
  (x = none ∧ y = none) ∨ ∃ a b, x = some a ∧ y = some b ∧ R a b

/-- Related lists have related elements at each place, or none on either side. -/
theorem getElem?_of_forall₂ {α β : Type} {R : α → β → Prop} {xs : List α} {ys : List β}
    (h : List.Forall₂ R xs ys) (i : Nat) : Both R xs[i]? ys[i]? := by
  induction h generalizing i with
  | nil => exact .inl ⟨rfl, rfl⟩
  | cons h _ ih =>
    cases i with
    | zero => exact .inr ⟨_, _, rfl, rfl, h⟩
    | succ i => exact ih i

/-- What is entered under a name in one table is related to what the other has there. -/
theorem lookup_of_forall₂ {α β : Type} {R : α → β → Prop} {xs : List (Text × α)}
    {ys : List (Text × β)} (h : List.Forall₂ (fun x y => x.1 = y.1 ∧ R x.2 y.2) xs ys)
    (name : Text) : Both R (xs.lookup name) (ys.lookup name) := by
  induction h with
  | nil => exact .inl ⟨rfl, rfl⟩
  | @cons x y xs ys h _ ih =>
    obtain ⟨key, a⟩ := x
    obtain ⟨key', b⟩ := y
    obtain ⟨rfl, hab⟩ := h
    simp only [List.lookup_cons]
    split
    · exact .inr ⟨a, b, rfl, rfl, hab⟩
    · exact ih

section Frames

variable {h h' : Heap} (heq : h.frames = h'.frames)

include heq

/-- Equal frames bind the same values. -/
theorem Heap.bound?_congr (f : Nat) (name : Text) : h.bound? f name = h'.bound? f name := by
  rw [Heap.bound?, heq, Heap.bound?]

/-- They have the same parents. -/
theorem Heap.parent?_congr (f : Nat) : h.parent? f = h'.parent? f := by
  rw [Heap.parent?, heq, Heap.parent?]

/-- They have the same frames further out. -/
theorem Heap.ancestor?_congr (f d : Nat) : h.ancestor? f d = h'.ancestor? f d := by
  induction d generalizing f with
  | zero => rfl
  | succ d ih => simp only [Heap.ancestor?, Heap.parent?_congr heq, ih]

/-- They have the same chains. -/
theorem Heap.chain_congr (f : Nat) : h.chain f = h'.chain f :=
  Heap.chain_eq_of_parent? (Heap.parent?_congr heq) f

/-- They find the same frame for a name. -/
theorem Heap.binder?_congr (f : Nat) (name : Text) : h.binder? f name = h'.binder? f name := by
  rw [Heap.binder?, Heap.binder?, Heap.chain_congr heq]
  exact congrArg (List.find? · _) (funext fun g => by rw [Heap.bound?_congr heq])

/-- They find it at the same distance. -/
theorem Heap.binderAt?_congr (f d : Nat) (name : Text) :
    h.binderAt? f d name = h'.binderAt? f d name := by
  rw [Heap.binderAt?, Heap.binderAt?, Heap.ancestor?_congr heq]
  exact congrArg (Option.filter · _) (funext fun g => by rw [Heap.bound?_congr heq])

end Frames

namespace Heap.Alike

variable {L N : Nat → Nat → Prop} {h h' : Heap} (hh : h.Alike L N h')

include hh

/-- Both sides have made as many functions. -/
theorem size_closures : h.closures.size = h'.closures.size := hh.closures.length_eq

/-- Both sides have made as many classes. -/
theorem size_youths : h.youths.size = h'.youths.size := hh.youths.length_eq

/-- The same number is that of functions that are alike, or of none. -/
theorem closure? (i : Nat) : Both (Closure.Alike L N) h.closures[i]? h'.closures[i]? := by
  simpa using getElem?_of_forall₂ hh.closures i

/-- The same for classes. -/
theorem youth? (i : Nat) : Both (Youth.Alike L N) h.youths[i]? h'.youths[i]? := by
  simpa using getElem?_of_forall₂ hh.youths i

/-- The same name may be bound on both sides. -/
theorem define {f f' : Nat} {name name' : Text} {v v' : Value} (hf : f = f') (hname : name = name')
    (hv : v = v') : (h.define f name v).Alike L N (h'.define f' name' v') := by
  subst hf hname hv
  exact ⟨by simp only [Heap.define, hh.frames], hh.natives, hh.objects, hh.closures, hh.youths⟩

/-- The same frame may be made on both sides. -/
theorem newFrame (parent : Option Nat) (bindings : Bindings) :
    (h.newFrame parent bindings).Alike L N (h'.newFrame parent bindings) :=
  ⟨by simp only [Heap.newFrame, hh.frames], hh.natives, hh.objects, hh.closures, hh.youths⟩

/-- So may the same object. -/
theorem newObject (o : Object) : (h.newObject o).Alike L N (h'.newObject o) :=
  ⟨hh.frames, hh.natives, by simp only [Heap.newObject, hh.objects], hh.closures, hh.youths⟩

/-- The same field may be written. -/
theorem setField (object : Nat) (name : Text) (v : Value) :
    (h.setField object name v).Alike L N (h'.setField object name v) :=
  ⟨hh.frames, hh.natives, by simp only [Heap.setField, hh.objects], hh.closures, hh.youths⟩

/-- Functions that are alike may be made on both sides. -/
theorem newClosure {c c' : Closure} (hc : c.Alike L N c') :
    (h.newClosure c).Alike L N (h'.newClosure c') := by
  refine ⟨hh.frames, hh.natives, hh.objects, ?_, hh.youths⟩
  simpa [Heap.newClosure] using List.rel_append hh.closures (.cons hc .nil)

/-- So may classes. -/
theorem newYouth {y y' : Youth} (hy : y.Alike L N y') :
    (h.newYouth y).Alike L N (h'.newYouth y') := by
  refine ⟨hh.frames, hh.natives, hh.objects, hh.closures, ?_⟩
  simpa [Heap.newYouth] using List.rel_append hh.youths (.cons hy .nil)

/-- A class has the same name on both sides. -/
theorem youthName (i : Nat) : h.youthName i = h'.youthName i := by
  obtain ⟨hy, hy'⟩ | ⟨y, y', hy, hy', hname, -⟩ := hh.youth? i
  · rw [Heap.youthName, Heap.youthName, hy, hy']
  · simp [Heap.youthName, hy, hy', hname]

/-- Values are printed alike. -/
theorem describe (v : Value) : h.describe v = h'.describe v := by
  cases v with
  | function id =>
    obtain ⟨hc, hc'⟩ | ⟨c, c', hc, hc', halike⟩ := hh.closure? id
    · rw [Heap.describe, Heap.describe, hc, hc']
    · simp [Heap.describe, hc, hc', halike.declaration.name.lexeme]
  | youth id => exact hh.youthName id
  | object id => simp only [Heap.describe, hh.objects, hh.youthName]
  | truth b => cases b <;> rfl
  | _ => rfl

/-- The methods of an object are alike. -/
theorem method? (object : Nat) (name : Text) :
    Both (Closure.Alike L N) ((h.youthOf? object).bind fun y => y.methods.lookup name)
      ((h'.youthOf? object).bind fun y => y.methods.lookup name) := by
  simp only [Heap.youthOf?, hh.objects]
  cases h'.objects[object]? with
  | none => exact .inl ⟨rfl, rfl⟩
  | some o =>
    simp only [Option.bind_some]
    obtain ⟨hy, hy'⟩ | ⟨y, y', hy, hy', halike⟩ := hh.youth? o.youth
    · rw [hy, hy']
      exact .inl ⟨rfl, rfl⟩
    · rw [hy, hy']
      exact lookup_of_forall₂ halike.methods name

end Heap.Alike

/-! ## Names -/

/-- The frame in which a node finds its name, and what is wrong if there is none. -/
def Machine.binding (m : Machine) (node : Nat) (name : Text) : Option Nat × RuntimeCause :=
  match m.distances[node]? with
  | some d => (m.heap.binderAt? m.frame d name, .unboundAt name d)
  | none => (m.heap.binder? Machine.globals name, .undefinedVariable name)

/-- Two nodes of two machines that find their names in the same frame, or miss them alike. -/
structure SameBinding (m m' : Machine) (n n' : Nat) (name : Text) : Prop where
  frame : (m.binding n name).1 = (m'.binding n' name).1
  cause : (m.binding n name).1 = none → (m.binding n name).2 = (m'.binding n' name).2

/-- To look a name up is to find its frame and read there. -/
theorem Machine.lookUp_eq_binding (m : Machine) (node : Nat) (name : Token) :
    m.lookUp node name
      = m.valueOr ((m.binding node name.lexeme).1.bind fun f => m.heap.bound? f name.lexeme) name
        (m.binding node name.lexeme).2 := by
  unfold Machine.lookUp Machine.binding
  cases m.distances[node]? <;> rfl

/-- To assign to a name is to find its frame and write there. -/
theorem Machine.assign_eq_binding (m : Machine) (node : Nat) (name : Token) (v : Value) :
    m.assign node name v = match (m.binding node name.lexeme).1 with
      | some f => { m with heap := m.heap.define f name.lexeme v, control := .value v }
      | none => m.failAt name (m.binding node name.lexeme).2 := by
  unfold Machine.assign Machine.binding
  cases m.distances[node]? <;> rfl

/-- A global name is found in the globals. -/
theorem Heap.binder?_globals {h : Heap} {name : Text}
    (hbound : (h.bound? Machine.globals name).isSome) :
    h.binder? Machine.globals name = some Machine.globals := by
  simp [Heap.binder?, Heap.chain, Heap.chainFrom, hbound]

/-- No two visits of a list are at one node. -/
def MetOnce (visits : List Visit) : Prop := ∀ v ∈ visits, ∀ w ∈ visits, w.node = v.node → w = v

/-- A name that only the graft declares is no name that a node stands in the initializer of. -/
theorem Visit.not_inOwnInitializer_of_graft {ref : Reference} {base : Scope} {scopes : List Scope}
    (hbase : base.Complete) (hne : scopes ≠ [])
    (hnone : scopes.findIdx? (fun scope => (scope.lookup ref.token.lexeme).isSome) = none) :
    ¬ Visit.InOwnInitializer ⟨ref, graft base scopes⟩ := by
  intro hown
  cases scopes with
  | nil => exact absurd rfl hne
  | cons scope outer =>
    have hscope : scope.lookup ref.token.lexeme = none := by
      simpa using List.findIdx?_eq_none_iff.mp hnone scope List.mem_cons_self
    cases outer with
    | nil =>
      have hfalse : (scope ++ base).lookup ref.token.lexeme = some false := hown
      rw [List.lookup_append, hscope, Option.none_or] at hfalse
      exact hbase _ hfalse
    | cons scope' outer =>
      have hfalse : scope.lookup ref.token.lexeme = some false := hown
      rw [hscope] at hfalse
      exact absurd hfalse (by simp)

section Names

variable {m m' : Machine} {visits visits' : List Visit} {n n' : Nat}

/-- **Linked nodes find their names alike.**  The tables differ only where the one knows a global that
the other leaves open, and then the global is bound. -/
theorem SameBinding.of_linked (hframes : m.heap.frames = m'.heap.frames)
    (hframe : m.frame = m'.frame) (honce : MetOnce visits) (honce' : MetOnce visits')
    (hlink : Linked (· ∈ visits) (· ∈ visits') n n') {use use' : Use} {t t' : Token}
    (ht : t.lexeme = t'.lexeme) {scopes scopes' : List Scope}
    (hr : m.heap.Realizes m.frame scopes)
    (hk : Known visits m.distances ⟨⟨use, t, n⟩, scopes⟩)
    (hk' : Known visits' m'.distances ⟨⟨use', t', n'⟩, scopes'⟩) :
    SameBinding m m' n n' t.lexeme := by
  obtain ⟨v, v', base, ⟨hv, hn⟩, ⟨hv', hn'⟩, hbase, hgraft⟩ := hlink
  obtain rfl := honce _ hk.1 v hv hn
  obtain rfl := honce' _ hk'.1 v' hv' hn'
  obtain rfl : scopes = graft base scopes' := hgraft
  have hne : scopes' ≠ [] := fun hnil => hr.ne_nil (by rw [hnil]; rfl)
  have hd : m.distances[n]? = (graft base scopes').findIdx? _ := hk.2.2
  have hd' : m'.distances[n']? = scopes'.findIdx? _ := hk'.2.2
  simp only [Visit.name, ← ht] at hd hd'
  rw [findIdx?_graft hne] at hd
  cases hfound : scopes'.findIdx? fun scope => (scope.lookup t.lexeme).isSome with
  | some d =>
    rw [hfound] at hd hd'
    have heq : m.binding n t.lexeme = m'.binding n' t.lexeme := by
      simp only [Machine.binding, hd, hd', Option.some_or, hframe,
        Heap.binderAt?_congr hframes]
    exact ⟨by rw [heq], fun _ => by rw [heq]⟩
  | none =>
    rw [hfound, Option.none_or] at hd
    rw [hfound] at hd'
    by_cases hknown : (base.lookup t.lexeme).isSome
    -- The first table leads to the globals, where the name is bound, so the second finds it there.
    · rw [if_pos hknown] at hd
      have hown := @Visit.not_inOwnInitializer_of_graft ⟨use, t, n⟩ base scopes' hbase hne hfound
      have hfirm := hk.2.1.resolve_right fun h => hown h.2
      obtain ⟨g, hg, hbound⟩ := Machine.Binds.of_firm hr hk hfirm _ hd
      have houter := hr.ancestor?_outermost
      rw [length_graft, hg] at houter
      obtain rfl := Option.some.inj houter
      have hbound' : (m'.heap.bound? Machine.globals t.lexeme).isSome := by
        rw [← Heap.bound?_congr hframes]
        exact hbound
      have hat : m.heap.binderAt? m.frame (scopes'.length - 1) t.lexeme = some Machine.globals := by
        rw [Heap.binderAt?, hg]
        exact Option.filter_eq_some_iff.mpr ⟨rfl, hbound⟩
      refine ⟨?_, fun hnone => ?_⟩
      · simp only [Machine.binding, hd, hd', hat, Heap.binder?_globals hbound']
      · simp only [Machine.binding, hd, hat] at hnone
        exact absurd hnone (by simp)
    · rw [if_neg hknown] at hd
      have heq : m.binding n t.lexeme = m'.binding n' t.lexeme := by
        simp only [Machine.binding, hd, hd', Heap.binder?_congr hframes]
      exact ⟨by rw [heq], fun _ => by rw [heq]⟩

end Names

end YouthLang

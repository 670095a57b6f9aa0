import YouthLang.Proofs.Simulation

/-!
# Proofs/Simulation/Step — one step of two machines in step

One lemma for each function of the machine: from machines that stand beside each other, alike arguments
lead to machines in step.  `Machine.Alike.step` puts them together; only where a node finds its name
does it need to know more of the two machines, that each agrees with the walk over its own source.
-/

namespace YouthLang

section Step

variable {L N : Nat → Nat → Prop} {more : List Stmt} {before : List Text} {m m' : Machine}

theorem Function.Alike.length_parameters {T : Token → Token → Prop} {f f' : Function}
    (h : Function.Alike T N f f') : f.parameters.length = f'.parameters.length := by
  obtain ⟨-, hps, -⟩ := h
  exact hps.length_eq

/-- Parameters that are alike are bound alike. -/
theorem foldl_put_congr {ps ps' : List Token} (h : List.Forall₂ (Token.Alike L) ps ps')
    (vs : List Value) : (ps.zip vs).foldl (fun bs (p, v) => Bindings.put p.lexeme v bs) []
      = (ps'.zip vs).foldl (fun bs (p, v) => Bindings.put p.lexeme v bs) [] := by
  generalize ([] : Bindings) = bs
  induction h generalizing vs bs with
  | nil => rfl
  | cons h _ ih =>
    cases vs with
    | nil => rfl
    | cons v vs => simp only [List.zip_cons_cons, List.foldl_cons, h.lexeme, ih]

theorem Diagnostic.Alike.calledFrom {d d' : Diagnostic} (h : d.Alike L d') (function : Text)
    {line line' : Nat} (hline : L line line') :
    (d.calledFrom function line).Alike L (d'.calledFrom function line') where
  cause := h.cause
  line := h.line
  column := h.column
  lexeme := h.lexeme
  atEnd := h.atEnd
  file := h.file
  excerpt := h.excerpt
  calls := List.rel_append h.calls (.cons ⟨rfl, h.file, ⟨_, _, rfl, rfl, hline⟩⟩ .nil)

namespace Machine.Beside

variable (hb : Machine.Beside L N more before m m')

include hb

/-! ## What every step is made of -/

theorem turn {c c' : Control} (hc : Control.Alike L N c c') :
    Machine.Alike L N more before (m.turn c) (m'.turn c') :=
  .running ⟨hb.heap, hb.clock, hb.output, hb.frame, hb.depth, hb.pending⟩ hc

theorem evalFor {e e' : Expr} {p p' : Pending} (he : Expr.Alike (Token.Alike L) N e e')
    (hp : Pending.Alike L N p p') :
    Machine.Alike L N more before (m.evalFor e p) (m'.evalFor e' p') :=
  .running ⟨hb.heap, hb.clock, hb.output, hb.frame, hb.depth, .task hp hb.pending⟩ (.eval he)

theorem failAt {t t' : Token} (ht : t.Alike L t') (cause : RuntimeCause) :
    Machine.Alike L N more before (m.failAt t cause) (m'.failAt t' cause) := by
  refine hb.turn (.failing ?_)
  exact ⟨rfl, ⟨_, _, rfl, rfl, ht.line⟩, congrArg Nat.cast ht.column, ht.lexeme, rfl, rfl, rfl, .nil⟩

/-- The machines with other heaps. -/
theorem withHeap {h h' : Heap} (hh : h.Alike L N h') {c c' : Control} (hc : Control.Alike L N c c') :
    Machine.Alike L N more before { m with heap := h, control := c }
      { m' with heap := h', control := c' } :=
  .running ⟨hh, hb.clock, hb.output, hb.frame, hb.depth, hb.pending⟩ hc

/-- The machines with other tasks. -/
theorem withPending {rest rest' : List Pending} (hrest : Queued L N more m.frame m.depth rest rest') :
    Machine.Beside L N more before { m with pending := rest } { m' with pending := rest' } :=
  ⟨hb.heap, hb.clock, hb.output, hb.frame, hb.depth, hrest⟩

/-! ## Names -/

theorem lookUp {n n' : Nat} {t t' : Token} (ht : t.Alike L t')
    (hs : SameBinding m m' n n' t.lexeme) :
    Machine.Alike L N more before (m.lookUp n t) (m'.lookUp n' t') := by
  rw [Machine.lookUp_eq_binding, Machine.lookUp_eq_binding, ← ht.lexeme, ← hs.frame]
  cases hbinder : (m.binding n t.lexeme).1 with
  | none =>
    rw [← hs.cause hbinder]
    exact hb.failAt ht _
  | some f =>
    obtain ⟨x, hx⟩ : ∃ x, m.heap.bound? f t.lexeme = some x := by
      refine Option.isSome_iff_exists.mp ?_
      unfold Machine.binding at hbinder
      split at hbinder
      · exact Heap.bound?_of_binderAt? hbinder
      · exact Heap.bound?_of_binder? hbinder
    rw [Option.bind_some, Option.bind_some, ← Heap.bound?_congr hb.heap.frames, hx]
    exact hb.turn (.value x)

theorem assign {n n' : Nat} {t t' : Token} (ht : t.Alike L t')
    (hs : SameBinding m m' n n' t.lexeme) (v : Value) :
    Machine.Alike L N more before (m.assign n t v) (m'.assign n' t' v) := by
  rw [Machine.assign_eq_binding, Machine.assign_eq_binding, ← ht.lexeme, ← hs.frame]
  cases hbinder : (m.binding n t.lexeme).1 with
  | none =>
    simp only [← hs.cause hbinder]
    exact hb.failAt ht _
  | some f => exact hb.withHeap (hb.heap.define rfl rfl rfl) (.value v)

/-! ## Expressions -/

theorem applyUnary (op : UnaryOp) {t t' : Token} (ht : t.Alike L t') (v : Value) :
    Machine.Alike L N more before (m.applyUnary op t v) (m'.applyUnary op t' v) := by
  unfold Machine.applyUnary
  split
  · exact hb.turn (.value _)
  · exact hb.turn (.value _)
  · exact hb.failAt ht _

theorem applyBinary (op : BinaryOp) {t t' : Token} (ht : t.Alike L t') (v w : Value) :
    Machine.Alike L N more before (m.applyBinary op t v w) (m'.applyBinary op t' v w) := by
  unfold Machine.applyBinary
  split
  · exact hb.turn (.value _)
  · exact hb.turn (.value _)
  · exact hb.turn (.value _)
  · exact hb.turn (.value _)
  · exact hb.failAt ht _
  · exact hb.failAt ht _

/-- A method that is read off an object is bound to it in frames with the same number. -/
theorem property (v : Value) {t t' : Token} (ht : t.Alike L t') :
    Machine.Alike L N more before (m.property v t) (m'.property v t') := by
  cases v with
  | object id =>
    simp only [Machine.property, ← ht.lexeme, hb.heap.objects]
    split
    · exact hb.turn (.value _)
    · obtain ⟨hc, hc'⟩ | ⟨c, c', hc, hc', halike⟩ := hb.heap.method? id t.lexeme
      · rw [hc, hc']
        exact hb.failAt ht _
      · rw [hc, hc']
        simp only [hb.heap.frames, hb.heap.size_closures, halike.frame]
        refine hb.withHeap ((hb.heap.newFrame _ _).newClosure ?_) (.value _)
        exact ⟨halike.declaration, rfl⟩
  | _ => exact hb.failAt ht _

theorem arity? (v : Value) : m.arity? v = m'.arity? v := by
  cases v with
  | native id => simp only [Machine.arity?, hb.heap.natives]
  | function id =>
    obtain ⟨hc, hc'⟩ | ⟨c, c', hc, hc', halike⟩ := hb.heap.closure? id
    · simp only [Machine.arity?, hc, hc']
    · simp only [Machine.arity?, hc, hc', Option.map_some, halike.declaration.length_parameters]
  | youth id =>
    obtain ⟨hy, hy'⟩ | ⟨y, y', hy, hy', -⟩ := hb.heap.youth? id
    · simp only [Machine.arity?, hy, hy']
    · simp only [Machine.arity?, hy, hy', Option.map_some]
  | _ => rfl

theorem callNative (builtin : Builtin) {t t' : Token} (ht : t.Alike L t') (arguments : List Value) :
    Machine.Alike L N more before (m.callNative builtin t arguments)
      (m'.callNative builtin t' arguments) := by
  cases builtin with
  | clock =>
    simp only [Machine.callNative, hb.clock]
    exact .running ⟨hb.heap, rfl, hb.output, hb.frame, hb.depth, hb.pending⟩ (.value _)
  | str =>
    simp only [Machine.callNative, hb.heap.describe]
    exact hb.turn (.value _)
  | len =>
    simp only [Machine.callNative]
    split
    · exact hb.turn (.value _)
    · exact hb.failAt ht _
  | constant v => exact hb.turn (.value v)
  | failing message => exact hb.failAt ht _

/-- A call goes on in frames with the same number, one call deeper. -/
theorem callClosure {c c' : Closure} (hc : c.Alike L N c') {t t' : Token} (ht : t.Alike L t')
    (arguments : List Value) :
    Machine.Alike L N more before (m.callClosure c t arguments) (m'.callClosure c' t' arguments) := by
  obtain ⟨⟨name, ps, body⟩, frame, D⟩ := c
  obtain ⟨⟨name', ps', body'⟩, frame', D'⟩ := c'
  obtain ⟨hdeclaration, rfl⟩ := hc
  cases hdeclaration with
  | mk hname hps hbody =>
    have hbindings := foldl_put_congr hps arguments
    simp only [Machine.callClosure, Function.parameters, Function.body, Function.name, hbindings,
      hname.lexeme, ← hb.frame]
    refine .running ⟨hb.heap.newFrame _ _, hb.clock, hb.output, ?_, ?_, ?_⟩ .done
    · exact congrArg Array.size hb.heap.frames
    · exact congrArg (· + 1) hb.depth
    · exact .task (.sequence hbody) (.call ht.line hb.pending)

theorem enter (callee : Value) {t t' : Token} (ht : t.Alike L t') (arguments : List Value) :
    Machine.Alike L N more before (m.enter callee t arguments) (m'.enter callee t' arguments) := by
  cases callee with
  | native id =>
    simp only [Machine.enter, hb.heap.natives]
    split
    · exact hb.callNative _ ht arguments
    · exact hb.failAt ht _
  | function id =>
    simp only [Machine.enter]
    obtain ⟨hc, hc'⟩ | ⟨c, c', hc, hc', halike⟩ := hb.heap.closure? id
    · rw [hc, hc']
      exact hb.failAt ht _
    · rw [hc, hc']
      exact hb.callClosure halike ht arguments
  | youth id =>
    simp only [Machine.enter, hb.heap.objects]
    exact hb.withHeap (hb.heap.newObject _) (.value _)
  | _ => exact hb.failAt ht _

theorem call (callee : Value) {t t' : Token} (ht : t.Alike L t') (arguments : List Value) :
    Machine.Alike L N more before (m.call callee t arguments) (m'.call callee t' arguments) := by
  unfold Machine.call
  rw [hb.arity?, hb.depth]
  split
  · exact hb.failAt ht _
  · split
    · exact hb.failAt ht _
    · split
      · exact hb.failAt ht _
      · exact hb.enter callee ht arguments

/-- The first step of an expression. -/
theorem eval {e e' : Expr} (he : Expr.Alike (Token.Alike L) N e e')
    (hname : ∀ ref ref', e.reading? = some ref → e'.reading? = some ref' → N ref.node ref'.node →
      ref.token.Alike L ref'.token → SameBinding m m' ref.node ref'.node ref.token.lexeme) :
    Machine.Alike L N more before (m.eval e) (m'.eval e') := by
  cases he with
  | literal v => exact hb.turn (.value _)
  | «variable» hnode ht => exact hb.lookUp ht (hname _ _ rfl rfl hnode ht)
  | me hnode ht => exact hb.lookUp ht (hname _ _ rfl rfl hnode ht)
  | group h => exact hb.turn (.eval h)
  | unary ht h => exact hb.evalFor h (.unary ht)
  | binary ht hl hr => exact hb.evalFor hl (.rightOperand ht hr)
  | logical _ hl hr => exact hb.evalFor hl (.logical hr)
  | assign hnode ht h => exact hb.evalFor h (.assign hnode ht)
  | get h ht => exact hb.evalFor h (.get ht)
  | set ho ht h => exact hb.evalFor ho (.setObject ht h)
  | call h ht hes => exact hb.evalFor h (.callee ht hes)

/-! ## Statements -/

theorem closureOf {f f' : Function} (h : Function.Alike (Token.Alike L) N f f') :
    (m.closureOf f).Alike L N (m'.closureOf f') := ⟨h, hb.frame⟩

theorem methodTable {ms ms' : List Function} (h : MethodsAlike (Token.Alike L) N ms ms') :
    List.Forall₂ (fun entry entry' => entry.1 = entry'.1 ∧ Closure.Alike L N entry.2 entry'.2)
      (m.methodTable ms) (m'.methodTable ms') := by
  have hlist : List.Forall₂ (Function.Alike (Token.Alike L) N) ms ms' := h.forall₂
  have hreverse := List.forall₂_reverse_iff.mpr hlist
  refine List.forall₂_map_left_iff.mpr (List.forall₂_map_right_iff.mpr (hreverse.imp ?_))
  exact fun f f' hf => ⟨hf.name.lexeme, hb.closureOf hf⟩

/-- The first step of a statement. -/
theorem exec {s s' : Stmt} (hs : Stmt.Alike (Token.Alike L) N s s') :
    Machine.Alike L N more before (m.exec s) (m'.exec s') := by
  cases hs with
  | failed => exact hb.turn .done
  | expression h => exact hb.evalFor h .discard
  | tell h => exact hb.evalFor h .tell
  | bare ht => exact hb.withHeap (hb.heap.define hb.frame ht.lexeme rfl) .done
  | declare ht h => exact hb.evalFor h (.declare ht)
  | giveNothing _ => exact hb.turn (.giving _)
  | give _ h => exact hb.evalFor h .give
  | block h =>
    simp only [Machine.exec, ← hb.frame]
    refine .running ⟨hb.heap.newFrame _ _, hb.clock, hb.output, ?_, hb.depth, ?_⟩ .done
    · exact congrArg Array.size hb.heap.frames
    · exact .task (.sequence h) (.leave hb.pending)
  | branch hc hyes => exact hb.evalFor hc (.branch hyes)
  | branches hc hyes hno => exact hb.evalFor hc (.branches hyes hno)
  | loop hc h => exact hb.evalFor hc (.loopTest hc h)
  | function h =>
    have hvalue := congrArg Value.function hb.heap.size_closures
    have hheap := hb.heap.newClosure (hb.closureOf h)
    exact hb.withHeap (hheap.define hb.frame h.name.lexeme hvalue) .done
  | @youth name name' ms ms' ht h =>
    have hvalue := congrArg Value.youth hb.heap.size_youths
    have hyouth : Youth.Alike L N ⟨name.lexeme, m.methodTable ms⟩ ⟨name'.lexeme, m'.methodTable ms'⟩ :=
      ⟨ht.lexeme, hb.methodTable h⟩
    exact hb.withHeap ((hb.heap.newYouth hyouth).define hb.frame ht.lexeme hvalue) .done

/-! ## Tasks taken up -/

/-- A task takes the value it waits for. -/
theorem receive {p p' : Pending} (hp : Pending.Alike L N p p') (v : Value)
    (hname : ∀ n n' t t', p = .assign n t → p' = .assign n' t' → N n n' → t.Alike L t' →
      SameBinding m m' n n' t.lexeme) :
    Machine.Alike L N more before (m.receive v p) (m'.receive v p') := by
  cases hp with
  | unary ht => exact hb.applyUnary _ ht v
  | rightOperand ht h => exact hb.evalFor h (.binary ht)
  | binary ht => exact hb.applyBinary _ ht _ v
  -- Both values are the same, so both machines take the same side.
  | @logical op _ _ h =>
    cases op <;> (simp only [Machine.receive]; split)
    · exact hb.turn (.eval h)
    · exact hb.turn (.value v)
    · exact hb.turn (.value v)
    · exact hb.turn (.eval h)
  -- The nodes may differ, but find the same frame.
  | assign hnode ht => exact hb.assign ht (hname _ _ _ _ rfl rfl hnode ht) v
  | get ht => exact hb.property v ht
  | setObject ht h =>
    simp only [Machine.receive]
    split
    · exact hb.evalFor h (.set ht)
    · exact hb.failAt ht _
  | set ht =>
    simp only [Machine.receive, ← ht.lexeme]
    exact hb.withHeap (hb.heap.setField _ _ v) (.value v)
  | callee ht h =>
    cases h with
    | nil => exact hb.call v ht []
    | cons he hes => exact hb.evalFor he (.argument ht hes)
  | argument ht h =>
    cases h with
    | nil => exact hb.call _ ht _
    | cons he hes => exact hb.evalFor he (.argument ht hes)
  | discard => exact hb.turn .done
  | tell =>
    simp only [Machine.receive, hb.heap.describe]
    exact .running ⟨hb.heap, hb.clock, congrArg (_ :: ·) hb.output, hb.frame, hb.depth, hb.pending⟩
      .done
  | declare ht => exact hb.withHeap (hb.heap.define hb.frame ht.lexeme rfl) .done
  | give => exact hb.turn (.giving v)
  | branch h =>
    simp only [Machine.receive]
    split
    · exact hb.turn (.exec h)
    · exact hb.turn .done
  | branches h hno =>
    simp only [Machine.receive]
    split
    · exact hb.turn (.exec h)
    · exact hb.turn (.exec hno)
  | loopTest he h =>
    simp only [Machine.receive]
    split
    · exact .running ⟨hb.heap, hb.clock, hb.output, hb.frame, hb.depth,
        .task (.loopBody he h) hb.pending⟩ (.exec h)
    · exact hb.turn .done
  | loopBody _ _ => exact hb.turn .done
  | sequence _ => exact hb.turn .done

/-- A task goes on after a statement. -/
theorem resume {p p' : Pending} (hp : Pending.Alike L N p p') :
    Machine.Alike L N more before (m.resume p) (m'.resume p') := by
  cases hp with
  | loopBody he h => exact hb.evalFor he (.loopTest he h)
  | sequence h =>
    cases h with
    | nil => exact hb.turn .done
    | cons h hbody =>
      exact .running ⟨hb.heap, hb.clock, hb.output, hb.frame, hb.depth,
        .task (.sequence hbody) hb.pending⟩ (.exec h)
  | _ => exact hb.turn .done

/-- A task that neither leaves a frame nor ends a call lets a value that is given back pass. -/
theorem takeGiven {p p' : Pending} (hp : Pending.Alike L N p p') (v : Value) :
    Machine.Alike L N more before (m.takeGiven v p) (m'.takeGiven v p') := by
  cases hp <;> exact hb.turn (.giving v)

theorem unwind {p p' : Pending} (hp : Pending.Alike L N p p') {d d' : Diagnostic}
    (hd : d.Alike L d') : Machine.Alike L N more before (m.unwind d p) (m'.unwind d' p') := by
  cases hp <;> exact hb.turn (.failing hd)

/-! ## Tasks that end -/

/-- Two statements have ended, and neither program is through. -/
theorem step_done (hcontrol : m.control = .done) (hcontrol' : m'.control = .done)
    (hrun : ¬ m'.IsThrough) :
    Machine.Alike L N more before m.step m'.step := by
  obtain ⟨heap, clock, output, frame, distances, depth, control, pending⟩ := m
  obtain ⟨heap', clock', output', frame', distances', depth', control', pending'⟩ := m'
  obtain rfl : control = .done := hcontrol
  obtain rfl : control' = .done := hcontrol'
  obtain ⟨hheap, hclock, houtput, hframe, hdepth, hpending⟩ := id hb
  cases hpending with
  | task hp hrest => exact resume (hb.withPending hrest) hp
  | leave hrest => exact .running ⟨hheap, hclock, houtput, rfl, hdepth, hrest⟩ .done
  | call _ hrest =>
    obtain rfl : _ = depth' := hdepth
    exact .running ⟨hheap, hclock, houtput, rfl, rfl, hrest⟩ (.value .emptiness)
  | program h =>
    cases h with
    | nil => exact absurd ⟨rfl, rfl⟩ hrun
    | cons hs hbody =>
      exact .running ⟨hheap, hclock, houtput, hframe, hdepth, .program hbody⟩ (.exec hs)

/-- Two machines give the same value back. -/
theorem step_giving {v : Value} (hcontrol : m.control = .giving v)
    (hcontrol' : m'.control = .giving v) :
    Machine.Alike L N more before m.step m'.step := by
  obtain ⟨heap, clock, output, frame, distances, depth, control, pending⟩ := m
  obtain ⟨heap', clock', output', frame', distances', depth', control', pending'⟩ := m'
  obtain rfl : control = .giving v := hcontrol
  obtain rfl : control' = .giving v := hcontrol'
  obtain ⟨hheap, hclock, houtput, hframe, hdepth, hpending⟩ := id hb
  cases hpending with
  | task hp hrest => exact takeGiven (hb.withPending hrest) hp v
  | leave hrest => exact .running ⟨hheap, hclock, houtput, rfl, hdepth, hrest⟩ (.giving v)
  | call _ hrest =>
    obtain rfl : _ = depth' := hdepth
    exact .running ⟨hheap, hclock, houtput, rfl, rfl, hrest⟩ (.value v)
  | program h => exact .running ⟨hheap, hclock, houtput, hframe, hdepth, .program h⟩ .done

/-- Two machines fail in the same way. -/
theorem step_failing {d d' : Diagnostic} (hcontrol : m.control = .failing d)
    (hcontrol' : m'.control = .failing d') (hd : d.Alike L d') :
    Machine.Alike L N more before m.step m'.step := by
  obtain ⟨heap, clock, output, frame, distances, depth, control, pending⟩ := m
  obtain ⟨heap', clock', output', frame', distances', depth', control', pending'⟩ := m'
  obtain rfl : control = .failing d := hcontrol
  obtain rfl : control' = .failing d' := hcontrol'
  obtain ⟨hheap, hclock, houtput, hframe, hdepth, hpending⟩ := id hb
  cases hpending with
  | task hp hrest => exact unwind (hb.withPending hrest) hp hd
  | leave hrest => exact .running ⟨hheap, hclock, houtput, rfl, hdepth, hrest⟩ (.failing hd)
  | call hline hrest =>
    obtain rfl : _ = depth' := hdepth
    exact .running ⟨hheap, hclock, houtput, rfl, rfl, hrest⟩ (.failing (hd.calledFrom _ hline))
  | program h => exact .failed hheap hclock houtput rfl rfl rfl rfl hd

end Machine.Beside

end Step

/-! ## One step -/

section Step

variable {L : Nat → Nat → Prop} {more : List Stmt} {before : List Text} {m m' : Machine}
  {visits visits' : List Visit}

/-- Machines that read names at linked nodes find them alike. -/
theorem SameBinding.of_reading (honce : MetOnce visits) (honce' : MetOnce visits')
    (hframes : m.heap.frames = m'.heap.frames) (hframe : m.frame = m'.frame) {e e' : Expr}
    (hm : m.Sound (Known visits)) (hm' : m'.Sound (Known visits')) (he : m.control = .eval e)
    (he' : m'.control = .eval e') {ref ref' : Reference} (href : e.reading? = some ref)
    (href' : e'.reading? = some ref') (hlink : Linked (· ∈ visits) (· ∈ visits') ref.node ref'.node)
    (ht : ref.token.Alike L ref'.token) :
    SameBinding m m' ref.node ref'.node ref.token.lexeme := by
  rw [Machine.Sound, he] at hm
  rw [Machine.Sound, he'] at hm'
  obtain ⟨b, scopes, hstands, hsettled⟩ := hm
  obtain ⟨b', scopes', -, hsettled'⟩ := hm'
  have hmem := (@Expr.eval_of_reading? m e ref href).2.1
  have hmem' := (@Expr.eval_of_reading? m' e' ref' href').2.1
  exact .of_linked hframes hframe honce honce' hlink ht.lexeme hstands.hosts.realizes
    (hsettled ref hmem) (hsettled' ref' hmem')

/-- Machines that write names at linked nodes find them alike. -/
theorem SameBinding.of_writing (honce : MetOnce visits) (honce' : MetOnce visits')
    (hframes : m.heap.frames = m'.heap.frames) (hframe : m.frame = m'.frame) {v v' : Value}
    (hm : m.Sound (Known visits)) (hm' : m'.Sound (Known visits')) (hv : m.control = .value v)
    (hv' : m'.control = .value v') {n n' : Nat} {t t' : Token} {rest rest' : List Pending}
    (hassign : m.pending = .assign n t :: rest) (hassign' : m'.pending = .assign n' t' :: rest')
    (hlink : Linked (· ∈ visits) (· ∈ visits') n n') (ht : t.Alike L t') :
    SameBinding m m' n n' t.lexeme := by
  rw [Machine.Sound, hv] at hm
  rw [Machine.Sound, hv'] at hm'
  obtain ⟨b, scopes, hstands⟩ := hm
  obtain ⟨b', scopes', hstands'⟩ := hm'
  have hawaits := hstands.awaits
  have hawaits' := hstands'.awaits
  rw [hassign] at hawaits
  rw [hassign'] at hawaits'
  cases hawaits with
  | assign hk _ =>
    cases hawaits' with
    | assign hk' _ =>
      exact .of_linked hframes hframe honce honce' hlink ht.lexeme hstands.hosts.realizes hk hk'

/-- **One step keeps two machines in step**, until the program of the second has no statement left. -/
theorem Machine.Alike.step (honce : MetOnce visits) (honce' : MetOnce visits')
    (hm : m.Sound (Known visits)) (hm' : m'.Sound (Known visits'))
    (ha : Machine.Alike L (Linked (· ∈ visits) (· ∈ visits')) more before m m')
    (hrun : ¬ m'.IsThrough) :
    Machine.Alike L (Linked (· ∈ visits) (· ∈ visits')) more before m.step m'.step := by
  cases ha with
  | failed hheap hclock houtput hpending hpending' hcontrol hcontrol' hd =>
    have hstep : m.step = m := by simp only [Machine.step, hcontrol, hpending]
    have hstep' : m'.step = m' := by simp only [Machine.step, hcontrol', hpending']
    rw [hstep, hstep']
    exact .failed hheap hclock houtput hpending hpending' hcontrol hcontrol' hd
  | running hbeside hcontrol =>
    have hname := @SameBinding.of_reading L m m' visits visits' honce honce' hbeside.heap.frames
      hbeside.frame
    have hwrite := @SameBinding.of_writing L m m' visits visits' honce honce' hbeside.heap.frames
      hbeside.frame
    obtain ⟨heap, clock, output, frame, distances, depth, control, pending⟩ := m
    obtain ⟨heap', clock', output', frame', distances', depth', control', pending'⟩ := m'
    cases hcontrol with
    | eval he =>
      exact hbeside.eval he fun ref ref' href href' hlink ht =>
        hname hm hm' rfl rfl href href' hlink ht
    | exec hs => exact hbeside.exec hs
    | value v =>
      -- Neither the program nor a block nor a call waits for a value.
      obtain ⟨b, scopes, hstands⟩ := id hm
      cases hbeside.pending with
      | program _ => cases hstands.awaits
      | leave _ => cases hstands.awaits
      | call _ _ => cases hstands.awaits
      | @task _ _ p p' rest rest' hp hrest =>
        refine (hbeside.withPending hrest).receive hp v ?_
        rintro n n' t t' rfl rfl hlink ht
        obtain ⟨hframe, hcause⟩ := hwrite hm hm' rfl rfl rfl rfl hlink ht
        exact ⟨hframe, hcause⟩
    | done => exact hbeside.step_done rfl rfl hrun
    | giving v => exact hbeside.step_giving rfl rfl
    | failing hd => exact hbeside.step_failing rfl rfl hd

end Step

end YouthLang

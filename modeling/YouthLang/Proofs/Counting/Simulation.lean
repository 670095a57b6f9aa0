import YouthLang.Proofs.Counting.Follow

/-!
# Proofs/Counting/Simulation — a machine follows what a program with counting loops does

Beside a run that stands at some code, a machine that stands at what the code stands for follows
what the run does with any fuel: an expression, the arguments of a call, a statement, the rounds of
a loop and the body of a function or a block (`Followed`).  The induction is on the fuel, with one
lemma for each of the five.

Only loops are not the same on both sides.  Where a counting loop has no initializer the run makes a
frame that the machine does not make, and where it has an increment the machine makes one for each
round that the run does not make; names that lead past them lead to the same twins
(`World.Twin.binding`).
-/

namespace YouthLang.Counting

variable {D D' : Distances}

/-! ## What is followed -/

/-- A machine that has found some arguments goes on to the next one, or to the call if there is
none. -/
def nextArgument (m : Machine) (callee : Value) (paren : Token) (before : List Value) :
    List Expr → Machine
  | [] => m.call callee paren before
  | e :: es => m.evalFor e (.argument paren callee before.reverse es)

section Posts

variable (D D' : Distances) (T : Pairs) (h h' : Heap)

/-- A machine about to call a value with some arguments before those that a run has just found. -/
def Calls (s : Site) (rest : List Pending) (callee : Value) (paren : Token)
    (before arguments : List Value) (w : World) (m : Machine) : Prop :=
  ∃ T₁, Beside D D' T₁ s w m ∧ Onward T T₁ h w.heap h' m.heap
    ∧ m.step = Machine.call { m with pending := rest } callee paren (before ++ arguments)

/-- A machine at the end of a body, in whatever frame. -/
def Leaves (depth : Nat) (rest : List Pending) (given : Option Value) (w : World) (m : Machine) :
    Prop :=
  ∃ T₁, Matched D D' T₁ depth w m ∧ Onward T T₁ h w.heap h' m.heap ∧ m.control = flow given
    ∧ m.pending = rest

end Posts

namespace Site

variable (D D' : Distances) (s : Site)

/-- Both tables answer a node in the scopes of a site. -/
def Answers (ref : Reference) : Prop :=
  Counting.Answers D ⟨ref, s.scopes⟩ ∧ Counting.Answers D' ⟨ref, s.scopes'⟩

/-- A statement and what it stands for are settled in the scopes of a site. -/
def Settles (S : Stmt) : Prop :=
  (∃ b, S.scaffold.Settled (Counting.Answers D) s.scopes b)
    ∧ ∃ b, S.desugar.Settled (Counting.Answers D') s.scopes' b

/-- The same for a list of declarations. -/
def SettlesBody (body : List Decl) : Prop :=
  (∃ b, BodySettled (Counting.Answers D) s.scopes b (scaffoldBody body))
    ∧ ∃ b, BodySettled (Counting.Answers D') s.scopes' b (desugarBody body)

/-- The same for the rounds of a loop. -/
structure SettlesRounds (condition increment : Option Expr) (body : Stmt) : Prop where
  loop : ∃ b, (YouthLang.Stmt.loop (tested condition) body.scaffold).Settled
    (Counting.Answers D) s.scopes b
  increases : ∀ e ∈ increment, e.Settled (Counting.Answers D) s.scopes
  looped : ∃ b, (Counting.looped condition increment body.desugar).Settled (Counting.Answers D')
    s.scopes' b

end Site

/-- **What a machine follows with some fuel.** -/
structure Followed (D D' : Distances) (n : Nat) : Prop where
  eval : ∀ {T : Pairs} {s : Site} {w : World} {m : Machine} {e : Expr}, Beside D D' T s w m →
    (∀ ref ∈ e.references, s.Answers D D' ref) → m.control = .eval e →
    Follows n m m.pending (Comes D D' T w.heap m.heap s m.pending .value)
      (eval D n s.frame s.depth e w)
  arguments : ∀ {T : Pairs} {s : Site} {w : World} {m : Machine} {v : Value} {es : List Expr}
    {rest : List Pending} {callee : Value} {paren : Token} {before : List Value},
    Beside D D' T s w m → (∀ ref ∈ argumentReferences es, s.Answers D D' ref) →
    m.control = .value v →
    m.step = nextArgument { m with pending := rest } callee paren before es →
    Follows n m rest (Calls D D' T w.heap m.heap s rest callee paren before)
      (evalAll D n s.frame s.depth es w)
  exec : ∀ {T : Pairs} {s : Site} {w : World} {m : Machine} {S : Stmt}, Beside D D' T s w m →
    s.Settles D D' S → m.control = .exec S.desugar →
    Follows (n - 1) m m.pending (Comes D D' T w.heap m.heap s m.pending flow)
      (exec D n s.frame s.depth S w)
  rounds : ∀ {T : Pairs} {s : Site} {w : World} {m : Machine} {condition increment : Option Expr}
    {body : Stmt} {rest : List Pending}, Beside D D' T s w m →
    s.SettlesRounds D D' condition increment body →
    m.control = .eval (tested condition) →
    m.pending = .loopTest (tested condition)
      (wrapped increment body.desugar) :: rest →
    Follows (n - 1) m rest (Comes D D' T w.heap m.heap s rest flow)
      (rounds D n s.frame s.depth condition increment body w)
  body : ∀ {T : Pairs} {ms : List Mark} {scopes scopes' : List Scope} {f f' depth : Nat} {w : World}
    {m : Machine} {body : List Decl} {rest : List Pending},
    Beside D D' T ⟨.both :: ms, scopes, scopes', f, f', depth⟩ w m →
    Site.SettlesBody D D' ⟨.both :: ms, scopes, scopes', f, f', depth⟩ body →
    m.control = .done → m.pending = .sequence (desugarBody body) :: rest →
    Follows (n - 1) m rest (Leaves D D' T w.heap m.heap depth rest) (performAll D n f depth body w)

section Step

variable {n : Nat} {T : Pairs} {s : Site} {w : World} {m : Machine} {rest : List Pending}

/-! ## Expressions

The two languages have the same expressions; what differs are the frames that the names in them are
looked up from. -/

/-- An expression that something waits for, and then what waits for it. -/
theorem Followed.operand {β : Type} (ih : Followed D D' n) (hb : Beside D D' T s w m) (e : Expr)
    (p : Pending) (he : ∀ ref ∈ e.references, s.Answers D D' ref) (hp : IsPassed p)
    {f : Value → Action β} {post : β → World → Machine → Prop}
    (hf : ∀ v T₁ w₁ m₁, Beside D D' T₁ s w₁ m₁ → Onward T T₁ w.heap w₁.heap m.heap m₁.heap →
      m₁.pending = m.pending → Follows (n - 1) (Machine.receive m₁ v p) m.pending post (f v w₁)) :
    Follows n (m.evalFor e p) m.pending post ((Counting.eval D n s.frame s.depth e >>= f) w) := by
  have hx : Follows n (m.evalFor e p) ([p] ++ m.pending) _ _ :=
    ih.eval (hb.going (.eval e) (p :: m.pending)) he rfl
  refine Follows.bind [p] hx (List.forall_mem_singleton.mpr hp) fun v w₁ m₁ h => ?_
  obtain ⟨T₁, hb₁, ho, hc, hpending⟩ := h
  exact Follows.of_step (Machine.step_of_value hc hpending)
    (hf v T₁ w₁ _ (hb₁.going m₁.control m.pending) ho rfl)

/-- What comes behind something else comes from the start on. -/
theorem Follows.onwards {T₁ : Pairs} {w₁ : World} {m₁ m₂ : Machine} {α : Type}
    {control : α → Control} {x : Ending α}
    (hx : Follows n m₂ m₁.pending (Comes D D' T₁ w₁.heap m₁.heap s m₁.pending control) x)
    (hpending : m₁.pending = m.pending) (ho : Onward T T₁ w.heap w₁.heap m.heap m₁.heap) :
    Follows n m₂ m.pending (Comes D D' T w.heap m.heap s m.pending control) x := by
  rw [hpending] at hx
  exact hx.onward ho

/-- A second operand, found behind a first one. -/
theorem Followed.secondOperand {T₁ : Pairs} {w₁ : World} {m₁ : Machine} (ih : Followed D D' n)
    (hb₁ : Beside D D' T₁ s w₁ m₁) (ho : Onward T T₁ w.heap w₁.heap m.heap m₁.heap)
    (hpending : m₁.pending = m.pending) (e : Expr) (p : Pending)
    (he : ∀ ref ∈ e.references, s.Answers D D' ref) (hp : IsPassed p) {f : Value → Action Value}
    (hf : ∀ v T₂ w₂ m₂, Beside D D' T₂ s w₂ m₂ → Follows (n - 1) (Machine.receive m₂ v p) m₂.pending
      (Comes D D' T₂ w₂.heap m₂.heap s m₂.pending .value) (f v w₂)) :
    Follows (n - 1) (m₁.evalFor e p) m.pending (Comes D D' T w.heap m.heap s m.pending .value)
      ((Counting.eval D n s.frame s.depth e >>= f) w₁) := by
  rw [← hpending]
  refine Follows.mono ?_ (Nat.sub_le n 1)
  refine ih.operand hb₁ e p he hp fun v T₂ w₂ m₂ hb₂ ho₂ hpending₂ => ?_
  rw [hpending]
  exact (hf v T₂ w₂ m₂ hb₂).onwards (hpending₂.trans hpending) (ho.trans ho₂)

/-- An expression whose value is dropped. -/
theorem Followed.discarded {α : Type} {control : α → Control} {a : α} (ih : Followed D D' n)
    (hb : Beside D D' T s w m) {e : Expr} (he : ∀ ref ∈ e.references, s.Answers D D' ref)
    (ha : control a = .done) :
    Follows n (m.evalFor e .discard) m.pending (Comes D D' T w.heap m.heap s m.pending control)
      ((Counting.eval D n s.frame s.depth e >>= fun _ => (pure a : Action α)) w) :=
  ih.operand hb e .discard he trivial fun _ T₁ _ m₁ hb₁ ho hpending =>
    .ended ⟨T₁, hb₁.going .done m₁.pending, ho, ha.symm, hpending⟩

/-! ## Calls -/

/-- A machine follows what runs the bodies of functions, with some calls active. -/
def FollowsBodies (D D' : Distances) (n depth : Nat)
    (run : Nat → List Decl → Action (Option Value)) : Prop :=
  ∀ {T : Pairs} {ms : List Mark} {scopes scopes' : List Scope} {f f' : Nat} {w : World}
    {m : Machine} {body : List Decl} {rest : List Pending},
    Beside D D' T ⟨.both :: ms, scopes, scopes', f, f', depth⟩ w m →
    Site.SettlesBody D D' ⟨.both :: ms, scopes, scopes', f, f', depth⟩ body →
    m.control = .done → m.pending = .sequence (desugarBody body) :: rest →
    Follows n m rest (Leaves D D' T w.heap m.heap depth rest) (run f body w)

variable {run : Nat → List Decl → Action (Option Value)}

theorem callClosure_eq (name : Token) (parameters : List Token) (body : List Decl) (frame : Nat)
    (paren : Token) (arguments : List Value) (w : World) :
    callClosure run ⟨.mk name parameters body, frame⟩ paren arguments w
      = (Action.called name.lexeme paren.place.line (run w.heap.frames.size body)
          (w.newFrame frame ((parameters.zip arguments).foldl
            (fun bs (p, v) => Bindings.put p.lexeme v bs) []))).andThen
        fun given => (pure (given.getD .emptiness) : Action Value) := rfl

/-- A call beside a call: the parameters are bound in twins, and behind the body the machine is back
where it was. -/
theorem Beside.callClosure (hb : Beside D D' T s w m) {name : Token} {parameters : List Token}
    {body : List Decl} {frame frame' : Nat}
    (hc : Closure.Twin D D' T w.heap m.heap [] ⟨.mk name parameters body, frame⟩
      ⟨.mk name parameters (desugarBody body), frame', D'⟩) (paren : Token) {arguments : List Value}
    (hlength : parameters.length = arguments.length)
    (hrun : FollowsBodies D D' n (s.depth + 1) run) :
    Follows n (m.callClosure ⟨.mk name parameters (desugarBody body), frame', D'⟩ paren arguments)
      m.pending (Comes D D' T w.heap m.heap s m.pending .value)
      (callClosure run ⟨.mk name parameters body, frame⟩ paren arguments w) := by
  obtain ⟨-, -, ms, scopes, scopes', hstanding, hsettled, hsettled'⟩ := hc
  let bindings := (parameters.zip arguments).foldl
    (fun bs (p, v) => Bindings.put p.lexeme v bs) []
  obtain ⟨hb₁, ho⟩ := @Beside.entered D D' T s w m hb ms scopes scopes' (parameterScope parameters)
    frame frame' bindings hstanding
    (fun other => (lookup_parameterScope _ _ hlength other).mp) D' rfl (s.depth + 1) _ rfl .done
    (.sequence (desugarBody body) :: .call name.lexeme paren.place.line m.frame m.distances
      :: m.pending)
  have hcalled := (hrun hb₁ ⟨⟨true, hsettled⟩, true, hsettled'⟩ rfl rfl).called
  rw [callClosure_eq, Machine.callClosure, hb.depth]
  refine Follows.andThen [] hcalled (by simp) fun given w₂ m₂ h => ?_
  obtain ⟨T₂, hmatched, ho₂, hcontrol, hpending⟩ := h
  have ho' := ho.trans ho₂
  have hstep : m₂.step = { m₂ with
      frame := m.frame
      distances := m.distances
      depth := m₂.depth - 1
      control := .value (given.getD .emptiness)
      pending := m.pending } := by
    cases given with
    | none => rw [Machine.step_of_done hcontrol hpending]; rfl
    | some v => rw [Machine.step_of_giving hcontrol hpending]; rfl
  have hdepth : m₂.depth - 1 = s.depth := by rw [hmatched.depth, Nat.add_sub_cancel]
  exact Follows.of_step hstep (.ended ⟨T₂, ⟨⟨hmatched.twin, hmatched.clock, hmatched.output,
    hb.distances, hdepth⟩, hb.frame, hb.standing.onward ho'⟩, ho', rfl, rfl⟩)

theorem Beside.call (hb : Beside D D' T s w m) (callee : Value) (paren : Token)
    (arguments : List Value) (hrun : FollowsBodies D D' n (s.depth + 1) run) :
    Follows n (m.call callee paren arguments) m.pending
      (Comes D D' T w.heap m.heap s m.pending .value)
      (call run s.depth callee paren arguments w) := by
  simp only [Machine.call, Counting.call, hb.twin.arity? rfl callee, hb.depth]
  cases harity : m.arity? callee with
  | none => exact hb.failAt _ _
  | some k =>
    simp only
    split
    · exact hb.failAt _ _
    · next hcount =>
      split
      · exact hb.failAt _ _
      · cases callee with
        | native id =>
          simp only [Machine.enter, Counting.enter, hb.twin.natives]
          cases m.heap.natives[id]? with
          | none => exact hb.failAt _ _
          | some native => exact hb.callNative _ _ _
        | function id =>
          obtain ⟨hc, hc'⟩ | ⟨⟨⟨name, parameters, body⟩, frame⟩, ⟨declaration', frame', _⟩, hc, hc',
            htwin⟩ := hb.twin.closure? id
          · simp only [Machine.enter, Counting.enter, hc, hc']
            exact hb.failAt _ _
          · obtain rfl : declaration' = .mk name parameters (desugarBody body) := htwin.declaration
            obtain rfl := htwin.distances
            simp only [Machine.enter, Counting.enter, hc, hc']
            refine hb.callClosure htwin paren ?_ hrun
            rw [Machine.arity?, hc'] at harity
            obtain rfl := Option.some.inj harity
            simpa [YouthLang.Function.parameters, Int.ofNat_inj] using hcount
        | youth id =>
          have ho := World.Twin.onward_newObject T w m.heap ⟨id, []⟩
          simp only [Machine.enter, Counting.enter, hb.twin.objects]
          exact .ended ⟨T, hb.onto (hb.twin.newObject ⟨id, []⟩) ho rfl rfl _ _, ho, rfl, rfl⟩
        | _ => exact hb.failAt _ _

/-- A logical operator, whose right operand is found only if the left one does not decide. -/
theorem Followed.logical_succ (ih : Followed D D' n) (hb : Beside D D' T s w m) (op : LogicalOp)
    (t : Token) {left right : Expr} (hleft : ∀ ref ∈ left.references, s.Answers D D' ref)
    (hright : ∀ ref ∈ right.references, s.Answers D D' ref) :
    Follows n (m.eval (.logical op t left right)) m.pending
      (Comes D D' T w.heap m.heap s m.pending .value)
      (Counting.eval D (n + 1) s.frame s.depth (.logical op t left right) w) := by
  have hsecond : ∀ {T₁ w₁ m₁}, Beside D D' T₁ s w₁ m₁ →
      Onward T T₁ w.heap w₁.heap m.heap m₁.heap → m₁.pending = m.pending →
      Follows (n - 1) (m₁.turn (.eval right)) m.pending
        (Comes D D' T w.heap m.heap s m.pending .value)
        (Counting.eval D n s.frame s.depth right w₁) := fun hb₁ ho hpending =>
    ((ih.eval (hb₁.going (.eval right) _) hright rfl).onwards hpending ho).mono (Nat.sub_le n 1)
  cases op <;> simp only [Machine.eval, Counting.eval] <;>
    refine ih.operand hb left (.logical _ right) hleft trivial
      fun v T₁ w₁ m₁ hb₁ ho hpending => ?_ <;>
    simp only [Machine.receive] <;> split
  · exact hsecond hb₁ ho hpending
  · exact (hb₁.value v).onwards hpending ho
  · exact (hb₁.value v).onwards hpending ho
  · exact hsecond hb₁ ho hpending

/-- A call: what is called, then its arguments, then the call itself. -/
theorem Followed.call_succ (ih : Followed D D' n) (hb : Beside D D' T s w m) {callee : Expr}
    (paren : Token) {arguments : List Expr} (hcallee : ∀ ref ∈ callee.references, s.Answers D D' ref)
    (harguments : ∀ ref ∈ argumentReferences arguments, s.Answers D D' ref) :
    Follows n (m.eval (.call callee paren arguments)) m.pending
      (Comes D D' T w.heap m.heap s m.pending .value)
      (Counting.eval D (n + 1) s.frame s.depth (.call callee paren arguments) w) := by
  simp only [Machine.eval, Counting.eval]
  have hx : Follows n (m.evalFor callee (.callee paren arguments))
      ([.callee paren arguments] ++ m.pending) _ _ :=
    ih.eval (hb.going (.eval callee) (.callee paren arguments :: m.pending)) hcallee rfl
  refine Follows.bind [_] hx (List.forall_mem_singleton.mpr trivial) fun v w₁ m₁ h => ?_
  obtain ⟨T₁, hb₁, ho₁, hc₁, hpending₁⟩ := h
  have hall := @ih.arguments _ _ _ _ _ _ m.pending v paren [] hb₁ harguments hc₁ (by
    rw [Machine.step_of_value hc₁ hpending₁]
    cases arguments <;> rfl)
  refine Follows.bind [] hall (by simp) fun vs w₂ m₂ h => ?_
  obtain ⟨T₂, hb₂, ho₂, hstep⟩ := h
  have hcall := (hb₂.going m₂.control m.pending).call v paren vs ih.body
  exact (Follows.of_step hstep hcall).onward (ho₁.trans ho₂)

theorem Followed.eval_succ (ih : Followed D D' n) (hb : Beside D D' T s w m) {e : Expr}
    (he : ∀ ref ∈ e.references, s.Answers D D' ref) (hc : m.control = .eval e) :
    Follows (n + 1) m m.pending (Comes D D' T w.heap m.heap s m.pending .value)
      (Counting.eval D (n + 1) s.frame s.depth e w) := by
  refine Follows.of_step (Machine.step_of_eval hc) ?_
  cases e with
  | literal value =>
    simp only [Counting.eval]
    exact hb.value _
  -- A name is answered from both tables, which may disagree on the distance.
  | «variable» node name =>
    obtain ⟨ha, ha'⟩ := he ⟨.read, name, node⟩ (by simp [Expr.references])
    simp only [Counting.eval]
    exact hb.lookUp ha ha'
  | me node keyword =>
    obtain ⟨ha, ha'⟩ := he ⟨.receiver, keyword, node⟩ (by simp [Expr.references])
    simp only [Counting.eval]
    exact hb.lookUp ha ha'
  | group inner =>
    simp only [Counting.eval]
    exact ih.eval (hb.going (.eval inner) m.pending) he rfl
  | unary op t operand =>
    simp only [Machine.eval, Counting.eval]
    refine ih.operand hb operand (.unary op t) he trivial fun v T₁ w₁ m₁ hb₁ ho hpending => ?_
    exact (hb₁.applyUnary op t v).onwards hpending ho
  -- The second operand is evaluated in the world that the first one leaves.
  | binary op t left right =>
    obtain ⟨hleft, hright⟩ := List.forall_mem_append.mp he
    simp only [Machine.eval, Counting.eval]
    refine ih.operand hb left (.rightOperand op t right) hleft trivial
      fun v T₁ w₁ m₁ hb₁ ho hpending => ?_
    exact ih.secondOperand hb₁ ho hpending right (.binary op t v) hright trivial
      fun u T₂ w₂ m₂ hb₂ => hb₂.applyBinary op t v u
  | logical op t left right =>
    obtain ⟨hleft, hright⟩ := List.forall_mem_append.mp he
    exact ih.logical_succ hb op t hleft hright
  | assign node name value =>
    obtain ⟨⟨ha, ha'⟩, hvalue⟩ := List.forall_mem_cons.mp he
    simp only [Machine.eval, Counting.eval]
    refine ih.operand hb value (.assign node name) hvalue trivial
      fun v T₁ w₁ m₁ hb₁ ho hpending => ?_
    exact (hb₁.assign ha ha' v).onwards hpending ho
  | get object name =>
    simp only [Machine.eval, Counting.eval]
    refine ih.operand hb object (.get name) he trivial fun v T₁ w₁ m₁ hb₁ ho hpending => ?_
    exact (hb₁.property v name).onwards hpending ho
  -- What is no object fails before the value is evaluated.
  | set object name value =>
    obtain ⟨hobject, hvalue⟩ := List.forall_mem_append.mp he
    simp only [Machine.eval, Counting.eval]
    refine ih.operand hb object (.setObject name value) hobject trivial
      fun v T₁ w₁ m₁ hb₁ ho hpending => ?_
    cases v with
    | object id =>
      exact ih.secondOperand hb₁ ho hpending value (.set name id) hvalue trivial
        fun u T₂ w₂ m₂ hb₂ => hb₂.setField id name u
    | _ => exact hpending ▸ hb₁.failAt _ _
  | call callee paren arguments =>
    obtain ⟨hcallee, harguments⟩ := List.forall_mem_append.mp he
    exact ih.call_succ hb paren hcallee harguments

theorem Followed.arguments_succ (ih : Followed D D' n) (hb : Beside D D' T s w m)
    {es : List Expr} {callee : Value} {paren : Token} {before : List Value}
    (hes : ∀ ref ∈ argumentReferences es, s.Answers D D' ref)
    (hstep : m.step = nextArgument { m with pending := rest } callee paren before es) :
    Follows (n + 1) m rest (Calls D D' T w.heap m.heap s rest callee paren before)
      (evalAll D (n + 1) s.frame s.depth es w) := by
  cases es with
  | nil =>
    rw [evalAll]
    exact .ended ⟨T, hb, .refl _ _ _, by simpa [nextArgument] using hstep⟩
  | cons e es =>
    obtain ⟨he, hes⟩ := List.forall_mem_append.mp hes
    refine Follows.of_step hstep ?_
    rw [evalAll]
    have hx : Follows n (Machine.evalFor { m with pending := rest } e
        (.argument paren callee before.reverse es))
        ([.argument paren callee before.reverse es] ++ rest) _ _ :=
      ih.eval (hb.going (.eval e) (.argument paren callee before.reverse es :: rest)) he rfl
    refine Follows.bind [_] hx (List.forall_mem_singleton.mpr trivial) fun v w₁ m₁ h => ?_
    obtain ⟨T₁, hb₁, ho₁, hc₁, hpending₁⟩ := h
    have hall := @ih.arguments _ _ _ _ _ _ rest callee paren (before ++ [v]) hb₁ hes hc₁ (by
      rw [Machine.step_of_value hc₁ hpending₁]
      cases es <;> simp [Machine.receive, nextArgument])
    refine Follows.bind [] hall (by simp) fun vs w₂ m₂ h => ?_
    obtain ⟨T₂, hb₂, ho₂, hstep₂⟩ := h
    exact .ended ⟨T₂, hb₂, ho₁.trans ho₂, by simpa using hstep₂⟩


/-! ## Declarations -/

section Declarations

variable {ms : List Mark} {scopes scopes' : List Scope} {f f' depth : Nat}

/-- A name is bound in twins. -/
theorem Beside.define (hb : Beside D D' T ⟨.both :: ms, scopes, scopes', f, f', depth⟩ w m)
    (name : Text) (v : Value) (c : Control) (pending : List Pending) :
    Beside D D' T ⟨.both :: ms, declared name scopes, declared name scopes', f, f', depth⟩
        (w.define f name v)
        { m with heap := m.heap.define m.frame name v, control := c, pending := pending }
      ∧ Onward T T w.heap (w.define f name v).heap m.heap (m.heap.define m.frame name v) := by
  obtain rfl : f' = m.frame := hb.frame.symm
  have htwins := hb.standing.twins
  have ho := @World.Twin.onward_define f m.frame name v T w m.heap
  have hdefined := hb.onto (hb.twin.define htwins) ho rfl rfl c pending
  refine ⟨⟨hdefined.toMatched, rfl, hdefined.standing.declared ?_⟩, ho⟩
  simp [(hb.twin.range htwins).2]

theorem Followed.declareIn (ih : Followed D D' n)
    (hb : Beside D D' T ⟨.both :: ms, scopes, scopes', f, f', depth⟩ w m) {name : Token}
    {initializer : Option Expr} {b b' : Bool}
    (hs : (YouthLang.Stmt.declare name initializer).Settled (Answers D) scopes b)
    (hs' : (YouthLang.Stmt.declare name initializer).Settled (Answers D') scopes' b') :
    Follows (n - 1) (m.exec (.declare name initializer)) m.pending
      (Comes D D' T w.heap m.heap
        ⟨.both :: ms, declared name.lexeme scopes, declared name.lexeme scopes', f, f', depth⟩
        m.pending fun _ => .done)
      (declareIn (Counting.eval D n f depth) f name initializer w) := by
  cases initializer with
  | none =>
    obtain ⟨hdefined, ho⟩ := hb.define name.lexeme .emptiness .done m.pending
    exact .ended ⟨T, hdefined, ho, rfl, rfl⟩
  | some e =>
    have hnoted : Beside D D' T
        ⟨.both :: ms, noted name.lexeme false scopes, noted name.lexeme false scopes', f, f', depth⟩
        w m := ⟨hb.toMatched, hb.frame, hb.standing.noted⟩
    refine Follows.mono ?_ (Nat.sub_le n 1)
    refine ih.operand hnoted e (.declare name) (fun ref href => ⟨hs.2 ref href, hs'.2 ref href⟩)
      trivial fun v T₁ w₁ m₁ hb₁ ho hpending => ?_
    have hb₁' : Beside D D' T₁ ⟨.both :: ms, scopes, scopes', f, f', depth⟩ w₁ m₁ :=
      ⟨hb₁.toMatched, hb₁.frame, hb.standing.onward ho⟩
    obtain ⟨hdefined, ho'⟩ := hb₁'.define name.lexeme v .done m₁.pending
    exact .ended ⟨T₁, hdefined, ho.trans ho', rfl, hpending⟩

/-- A function declared in a frame. -/
theorem Beside.declareFunction
    (hb : Beside D D' T ⟨.both :: ms, scopes, scopes', f, f', depth⟩ w m) {name : Token}
    {parameters : List Token} {body : List Decl}
    (hs : (Function.mk name parameters body).scaffold.Settled (Answers D)
      (declared name.lexeme scopes))
    (hs' : (Function.mk name parameters body).desugar.Settled (Answers D')
      (declared name.lexeme scopes')) :
    Follows n (m.exec (.function (Function.mk name parameters body).desugar)) m.pending
      (Comes D D' T w.heap m.heap
        ⟨.both :: ms, declared name.lexeme scopes, declared name.lexeme scopes', f, f', depth⟩
        m.pending fun _ => .done) (declareFunction f (.mk name parameters body) w) := by
  obtain rfl : f' = m.frame := hb.frame.symm
  -- the function is only settled once its name is bound, so that comes first here
  obtain ⟨hb₁, ho₁⟩ := hb.define name.lexeme (.function w.closures.size) .done m.pending
  let c : Closure := ⟨.mk name parameters body, f⟩
  let c' : YouthLang.Closure := ⟨c.declaration.desugar, m.frame, m.distances⟩
  have htwin : c.Twin D D' T _ _ [] c' :=
    ⟨rfl, hb.distances, _, _, _, hb₁.standing, hs, hs'⟩
  have ho₂ := World.Twin.onward_newClosure T (w.define f name.lexeme (.function w.closures.size))
    (m.heap.define m.frame name.lexeme (.function w.closures.size)) c c'
  have hb₂ := hb₁.onto (hb₁.twin.newClosure htwin) ho₂ rfl rfl .done m.pending
  rw [YouthLang.Machine.exec, ← hb.twin.size_closures]
  exact .ended ⟨T, hb₂, ho₁.trans ho₂, rfl, rfl⟩

/-- A youth declared in a frame. -/
theorem Beside.declareYouth
    (hb : Beside D D' T ⟨.both :: ms, scopes, scopes', f, f', depth⟩ w m) {name : Token}
    {methods : List Function}
    (hs : MethodsSettled (Answers D) ([(receiver, true)] :: declared name.lexeme scopes)
      (scaffoldMethods methods))
    (hs' : MethodsSettled (Answers D') ([(receiver, true)] :: declared name.lexeme scopes')
      (desugarMethods methods)) :
    Follows n (m.exec (.youth name (desugarMethods methods))) m.pending
      (Comes D D' T w.heap m.heap
        ⟨.both :: ms, declared name.lexeme scopes, declared name.lexeme scopes', f, f', depth⟩
        m.pending fun _ => .done) (declareYouth f name methods w) := by
  obtain rfl : f' = m.frame := hb.frame.symm
  obtain ⟨hb₁, ho₁⟩ := hb.define name.lexeme (.youth w.youths.size) .done m.pending
  let y : Youth := ⟨name.lexeme, methods.reverse.map fun c => (c.name.lexeme, ⟨c, f⟩)⟩
  let y' : YouthLang.Youth := ⟨name.lexeme, m.methodTable (desugarMethods methods)⟩
  have htwin : y.Twin D D' T (w.define f name.lexeme (.youth w.youths.size)).heap
      (m.heap.define m.frame name.lexeme (.youth w.youths.size)) y' := by
    refine ⟨rfl, ?_⟩
    simp only [y, y', Machine.methodTable, desugarMethods_eq_map, ← List.map_reverse, List.map_map,
      List.forall₂_map_left_iff, List.forall₂_map_right_iff, List.forall₂_same]
    intro c hc
    obtain ⟨name, parameters, body⟩ := c
    have hmem := List.mem_reverse.mp hc
    rw [scaffoldMethods_eq_map] at hs
    rw [desugarMethods_eq_map] at hs'
    exact ⟨rfl, rfl, hb.distances, _, _, _, hb₁.standing,
      hs.of_mem _ (List.mem_map_of_mem hmem), hs'.of_mem _ (List.mem_map_of_mem hmem)⟩
  have ho₂ := World.Twin.onward_newYouth T (w.define f name.lexeme (.youth w.youths.size))
    (m.heap.define m.frame name.lexeme (.youth w.youths.size)) y y'
  have hb₂ := hb₁.onto (hb₁.twin.newYouth htwin) ho₂ rfl rfl .done m.pending
  rw [YouthLang.Machine.exec, ← hb.twin.size_youths]
  exact .ended ⟨T, hb₂, ho₁.trans ho₂, rfl, rfl⟩

/-- The site behind a declaration. -/
def Site.behind (s : Site) (d : Decl) : Site :=
  { s with scopes := d.scaffold.extend s.scopes, scopes' := d.desugar.extend s.scopes' }

theorem Site.behind_statement (s : Site) (S : Stmt) : s.behind (.statement S) = s := by
  simp only [behind, Decl.scaffold, Decl.desugar,
    Stmt.extend_of_declares_eq_false S.declares_scaffold,
    Stmt.extend_of_declares_eq_false S.declares_desugar]

/-- A declaration is followed to behind it. -/
theorem Followed.perform (ih : Followed D D' n)
    (hb : Beside D D' T ⟨.both :: ms, scopes, scopes', f, f', depth⟩ w m) {d : Decl} {b b' : Bool}
    (hs : d.scaffold.Settled (Answers D) scopes b)
    (hs' : d.desugar.Settled (Answers D') scopes' b') (hc : m.control = .exec d.desugar) :
    Follows (n - 1) m m.pending
      (Comes D D' T w.heap m.heap
        (Site.behind ⟨.both :: ms, scopes, scopes', f, f', depth⟩ d) m.pending flow)
      (perform (Counting.eval D n f depth) (Counting.exec D n f depth) f d w) := by
  -- a declaration gives nothing back
  have hended : ∀ {x : Action Unit}, Follows (n - 1) (m.exec d.desugar) m.pending
      (Comes D D' T w.heap m.heap (Site.behind ⟨.both :: ms, scopes, scopes', f, f', depth⟩ d)
        m.pending fun _ => .done) (x w) →
      Follows (n - 1) m m.pending (Comes D D' T w.heap m.heap
        (Site.behind ⟨.both :: ms, scopes, scopes', f, f', depth⟩ d) m.pending flow)
        ((x >>= fun _ => pure none) w) := fun hx =>
    Follows.bind [] (.of_step (Machine.step_of_exec hc) (hx.mono (Nat.sub_le _ 1))) (by simp)
      fun _ _ _ h => .ended h
  cases d with
  | declare name initializer => exact hended (ih.declareIn hb hs hs')
  | function c =>
    obtain ⟨name, parameters, body⟩ := c
    exact hended (hb.declareFunction hs hs')
  | youth name methods => exact hended (hb.declareYouth hs hs')
  | statement S =>
    rw [Site.behind_statement]
    exact ih.exec hb ⟨⟨b, hs⟩, b', hs'⟩ hc
  | failed => exact Follows.of_step (Machine.step_of_exec hc) (hb.flow none)

/-- The first clause of a counting loop is followed to behind it. -/
theorem Followed.begin (ih : Followed D D' n)
    (hb : Beside D D' T ⟨.both :: ms, scopes, scopes', f, f', depth⟩ w m) {clause : Clause}
    {b b' : Bool} (hs : clause.desugar.Settled (Answers D) scopes b)
    (hs' : clause.desugar.Settled (Answers D') scopes' b') (hc : m.control = .exec clause.desugar) :
    Follows (n - 1) m m.pending
      (Comes D D' T w.heap m.heap
        ⟨.both :: ms, clause.desugar.extend scopes, clause.desugar.extend scopes', f, f', depth⟩
        m.pending fun _ => .done)
      (begin (Counting.eval D n f depth) f (some clause) w) := by
  refine Follows.of_step (Machine.step_of_exec hc) (Follows.mono ?_ (Nat.sub_le _ 1))
  cases clause with
  | declare name initializer => exact ih.declareIn hb hs hs'
  | expression e =>
    have hdropped := @Followed.discarded _ _ _ _ _ _ _ _ (fun _ => .done) () ih hb e
      (fun ref href => ⟨hs ref href, hs' ref href⟩) rfl
    exact hdropped.mono (Nat.sub_le n 1)

end Declarations

/-! ## Loops

A counting loop is followed in three parts: the frame for its first clause, which the machine makes
only where there is one; the rounds; and in each round the frame that only the machine makes, where
there is a step. -/

/-- A condition is followed to a value that tells whether it holds. -/
theorem Followed.holds (ih : Followed D D' n) (hb : Beside D D' T s w m) {condition : Option Expr}
    (hs : ∀ e ∈ condition, ∀ ref ∈ e.references, s.Answers D D' ref)
    (hc : m.control = .eval (tested condition)) :
    Follows n m m.pending
      (fun b w₁ m₁ => ∃ v, Comes D D' T w.heap m.heap s m.pending .value v w₁ m₁ ∧ v.isTruthy = b)
      (holds (Counting.eval D n s.frame s.depth) condition w) := by
  cases condition with
  | none =>
    refine Follows.of_step (Machine.step_of_eval hc) (.ended ⟨.truth true, ?_, rfl⟩)
    exact ⟨T, hb.going (.value (.truth true)) m.pending, .refl _ _ _, rfl, rfl⟩
  | some e =>
    exact Follows.bind [] (ih.eval hb (hs e rfl) hc) (by simp)
      fun v w₁ m₁ h => .ended ⟨v, h, rfl⟩

/-- The increment is followed out of the block that it stands in behind the body. -/
theorem Followed.increase {s₁ : Site} {T₁ : Pairs} {w₁ : World} {m₁ : Machine}
    (ih : Followed D D' n)
    (hb : Beside D D' T s w m) (hb₁ : Beside D D' T₁ s₁ w₁ m₁) (hdepth : s₁.depth = s.depth)
    (ho : Onward T T₁ w.heap w₁.heap m.heap m₁.heap) {e : Expr}
    (he : ∀ ref ∈ e.references, s₁.Answers D D' ref) (hc : m₁.control = .done)
    (hp : m₁.pending = .sequence [.expression e] :: .leave m.frame :: rest) :
    Follows (n - 1) m₁ rest (Comes D D' T w.heap m.heap s rest fun _ => .done)
      (increase (Counting.eval D n s₁.frame s₁.depth) (some e) w₁) := by
  have hdropped := @Followed.discarded _ _ _ _ _ _ _ _ (fun _ => .done) () ih
    (hb₁.going (.exec (.expression e)) (.sequence [] :: .leave m.frame :: rest)) e he rfl
  refine Follows.of_run (Machine.run_of_sequence hc hp)
    (Follows.mono ?_ (show n - 1 - 2 ≤ n by omega))
  refine Follows.andSteps [.sequence [], .leave m.frame] hdropped (by simp [IsPassed])
    fun _ w₂ m₂ h => ⟨2, ?_⟩
  obtain ⟨T₂, hb₂, ho₂, hc₂, hpending₂⟩ := h
  rw [@run_of_block m₂ rest none [] m.frame hc₂ hpending₂ fun _ => rfl]
  exact hb.back (hdepth ▸ hb₂.toMatched) (ho.trans ho₂) ()

/-- A round is followed to its end: the increment stands behind the body, in a frame of the
machine's own. -/
theorem Followed.round (ih : Followed D D' n) (hb : Beside D D' T s w m) {increment : Option Expr}
    {body : Stmt} {b b' : Bool} (hs : body.scaffold.Settled (Answers D) s.scopes b)
    (hincrement : ∀ e ∈ increment, e.Settled (Answers D) s.scopes)
    (hs' : (wrapped increment body.desugar).Settled (Answers D') s.scopes' b')
    (hc : m.control = .exec (wrapped increment body.desugar)) :
    Follows (n - 1) m m.pending (Comes D D' T w.heap m.heap s m.pending flow)
      (round (Counting.eval D n s.frame s.depth) (Counting.exec D n s.frame s.depth) increment body
        w) := by
  cases increment with
  | none =>
    refine Follows.bind [] (ih.exec hb ⟨⟨b, hs⟩, b', hs'⟩ hc) (by simp) fun given w₁ m₁ h => ?_
    cases given <;> exact .ended h
  | some e =>
    obtain ⟨hbody, he', -⟩ := hs'
    rw [Stmt.extend_of_declares_eq_false body.declares_desugar] at he'
    refine Follows.of_run (Machine.run_of_exec_block hc) (Follows.mono ?_ (Nat.sub_le _ 2))
    have hinner := hb.enter_second (.exec body.desugar)
      (.sequence [.expression e] :: .leave m.frame :: m.pending)
    have ho := @World.Twin.onward_second m.frame [] T w m.heap
    have hexecuted := ih.exec hinner ⟨⟨b, hs⟩, b', hbody⟩ rfl
    refine Follows.bind [.sequence [.expression e], .leave m.frame] hexecuted (by simp [IsPassed])
      fun given w₁ m₁ h => ?_
    obtain ⟨T₁, hb₁, ho₁, hc₁, hpending₁⟩ := h
    cases given with
    | some v =>
      refine Follows.of_run (run_of_block hc₁ hpending₁ (by simp)) (.ended ?_)
      exact hb.back hb₁.toMatched (ho.trans ho₁) (some v)
    | none =>
      have hincreased := ih.increase hb hb₁ rfl (ho.trans ho₁)
        (fun ref href => ⟨hincrement e rfl ref href, he' ref href⟩) hc₁ hpending₁
      exact Follows.bind [] hincreased (by simp) fun _ _ _ h => .ended h

/-- From round to round. -/
theorem Followed.rounds_succ (ih : Followed D D' n) (hb : Beside D D' T s w m)
    {condition increment : Option Expr} {body : Stmt}
    (hs : s.SettlesRounds D D' condition increment body)
    (hc : m.control = .eval (tested condition))
    (hp : m.pending = .loopTest (tested condition)
      (wrapped increment body.desugar) :: rest) :
    Follows n m rest (Comes D D' T w.heap m.heap s rest flow)
      (Counting.rounds D (n + 1) s.frame s.depth condition increment body w) := by
  obtain ⟨b, hcondition, -, hbody⟩ := hs.loop
  obtain ⟨b', hcondition', -, hbody'⟩ := hs.looped
  have htest := ih.holds hb (fun e he ref href => by
    obtain rfl : condition = some e := he
    exact ⟨hcondition ref href, hcondition' ref href⟩) hc
  rw [hp] at htest
  rw [Counting.rounds]
  refine Follows.bind [.loopTest _ _] htest (by simp [IsPassed]) fun holds w₁ m₁ h => ?_
  obtain ⟨v, ⟨T₁, hb₁, ho₁, hc₁, hpending₁⟩, hv⟩ := h
  have hstep := Machine.step_of_value hc₁ hpending₁
  simp only [Machine.receive, hv] at hstep
  -- A round is the test, the body and the step; the pending task of the loop waits behind all of
  -- them.
  cases holds with
  | false => exact Follows.of_step hstep (.ended ⟨T₁, hb₁.going .done rest, ho₁, rfl, rfl⟩)
  | true =>
    refine Follows.of_step hstep ?_
    have hround := ih.round (hb₁.going (.exec (wrapped increment body.desugar))
      (.loopBody (tested condition) (wrapped increment body.desugar) :: rest)) hbody hs.increases
      hbody' rfl
    refine Follows.bind [.loopBody _ _] hround (by simp [IsPassed]) fun given w₂ m₂ h => ?_
    obtain ⟨T₂, hb₂, ho₂, hc₂, hpending₂⟩ := h
    cases given with
    -- A value given in the body leaves the loop.
    | some v =>
      refine Follows.of_step (Machine.step_of_giving hc₂ hpending₂) (.ended ?_)
      exact ⟨T₂, hb₂.going (.giving v) rest, ho₁.trans ho₂, rfl, rfl⟩
    -- Otherwise the next round starts where this one ended.
    | none =>
      refine Follows.of_step (Machine.step_of_done hc₂ hpending₂) (Follows.mono ?_ (Nat.sub_le _ 1))
      have hrounds := ih.rounds (hb₂.going (.eval (tested condition))
        (.loopTest (tested condition) (wrapped increment body.desugar) :: rest)) hs rfl rfl
      exact hrounds.onward (ho₁.trans ho₂)

/-! ## Statements -/

/-- The rounds of a counting loop are settled as those of its scaffold and of the loop it stands
for. -/
theorem Site.settlesRounds {condition increment : Option Expr} {body : Stmt} {b b' : Bool}
    (hs : BodySettled (Counting.Answers D) s.scopes b
      (.loop (tested condition) body.scaffold :: incrementsOf increment))
    (hs' : (looped condition increment body.desugar).Settled (Counting.Answers D') s.scopes' b') :
    s.SettlesRounds D D' condition increment body := by
  refine ⟨⟨b, hs.1⟩, fun e he => ?_, b', hs'⟩
  obtain rfl : increment = some e := he
  exact hs.2.1

theorem Followed.block (ih : Followed D D' n) (hb : Beside D D' T s w m) {body : List Decl}
    {b b' : Bool} (hs : BodySettled (Answers D) ([] :: s.scopes) b (scaffoldBody body))
    (hs' : BodySettled (Answers D') ([] :: s.scopes') b' (desugarBody body)) :
    Follows (n - 1) (m.exec (.block (desugarBody body))) m.pending
      (Comes D D' T w.heap m.heap s m.pending flow)
      (performAll D n w.heap.frames.size s.depth body (w.newFrame s.frame [])) := by
  obtain ⟨hinner, ho⟩ :=
    hb.enter .done (.sequence (desugarBody body) :: .leave m.frame :: m.pending)
  refine Follows.andSteps [.leave m.frame]
    (ih.body hinner ⟨⟨b, hs⟩, b', hs'⟩ rfl rfl) (by simp [IsPassed])
    fun given w₁ m₁ h => ⟨1, ?_⟩
  obtain ⟨T₁, hmatched, ho₁, hc₁, hpending₁⟩ := h
  rw [Machine.run_succ, Machine.run, step_of_leave hc₁ hpending₁]
  exact hb.back hmatched (ho.trans ho₁) given

/-- A counting loop without an initializer: the run makes a frame for its scope, the machine does
not. -/
theorem Followed.count_bare (ih : Followed D D' n) (hb : Beside D D' T s w m)
    {condition increment : Option Expr} {body : Stmt} {b b' : Bool}
    (hs : BodySettled (Answers D) ([] :: s.scopes) b
      (.loop (tested condition) body.scaffold :: incrementsOf increment))
    (hs' : (looped condition increment body.desugar).Settled (Answers D') s.scopes' b') :
    Follows (n - 1) (m.exec (looped condition increment body.desugar)) m.pending
      (Comes D D' T w.heap m.heap s m.pending flow)
      (Counting.rounds D n w.heap.frames.size s.depth condition increment body
        (w.newFrame s.frame [])) := by
  have hinner := hb.enter_first (.eval (tested condition))
    (.loopTest (tested condition) (wrapped increment body.desugar) :: m.pending)
  have ho := @World.Twin.onward_first s.frame [] T w m.heap
  have hrounds := ih.rounds hinner (Site.settlesRounds hs hs') rfl rfl
  refine hrounds.weaken fun given w₁ m₁ h => ?_
  obtain ⟨T₁, hb₁, ho₁, hc₁, hpending₁⟩ := h
  exact ⟨T₁, ⟨hb₁.toMatched, hb₁.frame, hb.standing.onward (ho.trans ho₁)⟩, ho.trans ho₁, hc₁,
    hpending₁⟩

/-- A counting loop with an initializer: its scope is the block that the initializer and the loop
stand in. -/
theorem Followed.count_begun (ih : Followed D D' n) (hb : Beside D D' T s w m) {clause : Clause}
    {condition increment : Option Expr} {body : Stmt} {b b' : Bool}
    (hs : BodySettled (Answers D) ([] :: s.scopes) b
      (clause.desugar :: .loop (tested condition) body.scaffold :: incrementsOf increment))
    (hs' : BodySettled (Answers D') ([] :: s.scopes') b'
      [clause.desugar, looped condition increment body.desugar])
    (hc : m.control = .exec (.block [clause.desugar, looped condition increment body.desugar])) :
    Follows n m m.pending (Comes D D' T w.heap m.heap s m.pending flow)
      ((Counting.begin (Counting.eval D n w.heap.frames.size s.depth) w.heap.frames.size
          (some clause)
        >>= fun _ => Counting.rounds D n w.heap.frames.size s.depth condition increment body)
        (w.newFrame s.frame [])) := by
  refine Follows.of_run (Machine.run_of_exec_block hc)
    (Follows.mono ?_ (show n - 2 ≤ n - 1 by omega))
  obtain ⟨hinner, ho⟩ := hb.enter (.exec clause.desugar)
    (.sequence [looped condition increment body.desugar] :: .leave m.frame :: m.pending)
  have hbegun := ih.begin hinner hs.1 hs'.1 rfl
  refine Follows.bind [.sequence [_], .leave m.frame] hbegun (by simp [IsPassed])
    fun _ w₁ m₁ h => ?_
  obtain ⟨T₁, hb₁, ho₁, hc₁, hpending₁⟩ := h
  have hrounds := ih.rounds (hb₁.going (.eval (tested condition))
    (.loopTest (tested condition) (wrapped increment body.desugar) :: .sequence []
      :: .leave m.frame :: m.pending)) (Site.settlesRounds hs.2 hs'.2.1) rfl rfl
  refine Follows.of_run (Machine.run_of_sequence hc₁ hpending₁) (Follows.mono ?_ (Nat.sub_le _ 2))
  refine Follows.andSteps [.sequence [], .leave m.frame] hrounds (by simp [IsPassed])
    fun given w₂ m₂ h => ⟨2, ?_⟩
  obtain ⟨T₂, hb₂, ho₂, hc₂, hpending₂⟩ := h
  rw [run_of_block hc₂ hpending₂ fun _ => rfl]
  exact hb.back hb₂.toMatched ((ho.trans ho₁).trans ho₂) given

theorem Followed.branch (ih : Followed D D' n) (hb : Beside D D' T s w m) {condition : Expr}
    {yes : Stmt} {no : Option Stmt} (hcondition : ∀ ref ∈ condition.references, s.Answers D D' ref)
    (hyes : s.Settles D D' yes) (hno : ∀ S ∈ no, s.Settles D D' S) :
    Follows n (m.exec (.branch condition yes.desugar (no.map Stmt.desugar))) m.pending
      (Comes D D' T w.heap m.heap s m.pending flow)
      ((Counting.eval D n s.frame s.depth condition >>= fun v =>
        if v.isTruthy then Counting.exec D n s.frame s.depth yes
        else execOptional (Counting.exec D n s.frame s.depth) no) w) := by
  refine ih.operand hb condition (.branch yes.desugar (no.map Stmt.desugar)) hcondition trivial
    fun v T₁ w₁ m₁ hb₁ ho hpending => ?_
  have htaken : ∀ {S : Stmt}, s.Settles D D' S →
      Follows (n - 1) (m₁.turn (.exec S.desugar)) m.pending
        (Comes D D' T w.heap m.heap s m.pending flow)
        (Counting.exec D n s.frame s.depth S w₁) := fun hs =>
    (ih.exec (hb₁.going (.exec _) m₁.pending) hs rfl).onwards hpending ho
  cases hv : v.isTruthy with
  | true =>
    simp only [Machine.receive, hv, if_pos]
    exact htaken hyes
  | false =>
    simp only [Machine.receive, hv]
    cases no with
    | none => exact (hb₁.flow none).onwards hpending ho
    | some S => exact htaken (hno S rfl)

theorem Followed.exec_succ (ih : Followed D D' n) (hb : Beside D D' T s w m) {S : Stmt}
    (hs : s.Settles D D' S) (hc : m.control = .exec S.desugar) :
    Follows n m m.pending (Comes D D' T w.heap m.heap s m.pending flow)
      (Counting.exec D (n + 1) s.frame s.depth S w) := by
  obtain ⟨⟨b, hs⟩, b', hs'⟩ := hs
  have hstep := Machine.step_of_exec hc
  cases S with
  | expression e =>
    rw [Counting.exec]
    have hdropped := @Followed.discarded _ _ _ _ _ _ _ _ flow none ih hb e
      (fun ref href => ⟨hs ref href, hs' ref href⟩) rfl
    exact Follows.of_step hstep (hdropped.mono (Nat.sub_le n 1))
  -- What is printed is the same as values are described alike.
  | tell e =>
    rw [Counting.exec]
    refine Follows.of_step hstep (Follows.mono ?_ (Nat.sub_le n 1))
    refine ih.operand hb e .tell (fun ref href => ⟨hs ref href, hs' ref href⟩) trivial
      fun v T₁ w₁ m₁ hb₁ ho hpending => .ended ⟨T₁, ?_, ho, rfl, hpending⟩
    have houtput := congrArg₂ List.cons (hb₁.twin.describe v) hb₁.output
    exact ⟨⟨hb₁.twin.aside _ _, hb₁.clock, houtput, hb₁.distances, hb₁.depth⟩, hb₁.frame,
      hb₁.standing⟩
  | give keyword value =>
    cases value with
    | none =>
      rw [Counting.exec]
      exact Follows.of_step hstep (hb.flow (some .emptiness))
    | some e =>
      rw [Counting.exec]
      refine Follows.of_step hstep (Follows.mono ?_ (Nat.sub_le n 1))
      exact ih.operand hb e .give (fun ref href => ⟨hs.2 ref href, hs'.2 ref href⟩) trivial
        fun v T₁ w₁ m₁ hb₁ ho hpending => (hb₁.flow (some v)).onwards hpending ho
  | block body =>
    rw [Counting.exec]
    exact Follows.of_step hstep (ih.block hb hs hs')
  -- The bodies are settled on both sides, each in scopes of its own.
  | branch condition yes no =>
    rw [Counting.exec]
    rw [desugar_branch] at hstep
    refine Follows.of_step hstep (Follows.mono ?_ (Nat.sub_le n 1))
    cases no with
    | none =>
      exact ih.branch hb (fun ref href => ⟨hs.1 ref href, hs'.1 ref href⟩)
        ⟨⟨b, hs.2.2⟩, b', hs'.2.2⟩ (by simp)
    | some S =>
      refine ih.branch hb (fun ref href => ⟨hs.1 ref href, hs'.1 ref href⟩)
        ⟨⟨b, hs.2.1.2⟩, b', hs'.2.1.2⟩ fun _ h => ?_
      obtain rfl := Option.some.inj h
      exact ⟨⟨b, hs.2.2.2⟩, b', hs'.2.2.2⟩
  -- A loop is a counting loop without a step.
  | loop condition body =>
    rw [Counting.exec]
    exact Follows.of_step hstep (@Followed.rounds _ _ _ ih _ s _ _ (some condition) none body _
      (hb.going (.eval condition) (.loopTest condition body.desugar :: m.pending))
      ⟨⟨b, hs⟩, by simp, b', hs'⟩ rfl rfl)
  -- Only with a first part has the machine a scope more than the run.
  | count initializer condition increment body =>
    rw [desugar_count] at hc hs'
    rw [Counting.exec]
    cases initializer with
    | none => exact Follows.of_step (Machine.step_of_exec hc) (ih.count_bare hb hs hs')
    | some clause => exact ih.count_begun hb hs hs' hc

/-! ## Bodies -/

theorem Followed.body_succ {ms : List Mark} {scopes scopes' : List Scope} {f f' depth : Nat}
    (ih : Followed D D' n) (hb : Beside D D' T ⟨.both :: ms, scopes, scopes', f, f', depth⟩ w m)
    {body : List Decl}
    (hs : Site.SettlesBody D D' ⟨.both :: ms, scopes, scopes', f, f', depth⟩ body)
    (hc : m.control = .done) (hp : m.pending = .sequence (desugarBody body) :: rest) :
    Follows n m rest (Leaves D D' T w.heap m.heap depth rest)
      (performAll D (n + 1) f depth body w) := by
  obtain ⟨⟨b, hs⟩, b', hs'⟩ := hs
  have hstep := Machine.step_of_done hc hp
  cases body with
  | nil =>
    rw [performAll]
    refine Follows.of_step hstep (.ended ⟨T, ?_, .refl _ _ _, rfl, rfl⟩)
    exact (hb.going .done rest).toMatched
  | cons d body =>
    rw [performAll]
    refine Follows.of_step hstep ?_
    have hperformed := ih.perform
      (hb.going (.exec d.desugar) (.sequence (desugarBody body) :: rest)) hs.1 hs'.1 rfl
    refine Follows.bind [.sequence _] hperformed (by simp [IsPassed]) fun given w₁ m₁ h => ?_
    obtain ⟨T₁, hb₁, ho₁, hc₁, hpending₁⟩ := h
    cases given with
    | some v =>
      refine Follows.of_step (Machine.step_of_giving hc₁ hpending₁) (.ended ?_)
      exact ⟨T₁, (hb₁.going (.giving v) rest).toMatched, ho₁, rfl, rfl⟩
    | none =>
      refine (ih.body hb₁ ⟨⟨b, hs.2⟩, b', hs'.2⟩ hc₁ hpending₁).weaken fun given w₂ m₂ h => ?_
      obtain ⟨T₂, hmatched, ho₂, hc₂, hpending₂⟩ := h
      exact ⟨T₂, hmatched, ho₁.trans ho₂, hc₂, hpending₂⟩

end Step

/-! ## Whatever the fuel

The five lemmas above go from one amount of fuel to the next; here they are put together. -/

/-- Without fuel a run gets nowhere, and a machine with something to do has not ended. -/
theorem Followed.zero : Followed D D' 0 where
  eval _ _ hc := by
    rw [Counting.eval]
    simp [Action.exhausted, Follows, Machine.run, Machine.hasEnded, hc]
  arguments _ _ hc _ := by
    rw [evalAll]
    simp [Action.exhausted, Follows, Machine.run, Machine.hasEnded, hc]
  exec _ _ hc := by
    rw [Counting.exec]
    simp [Action.exhausted, Follows, Machine.run, Machine.hasEnded, hc]
  rounds _ _ hc _ := by
    rw [Counting.rounds]
    simp [Action.exhausted, Follows, Machine.run, Machine.hasEnded, hc]
  body _ _ _ hp := by
    rw [performAll]
    simp [Action.exhausted, Follows, Machine.run, Machine.hasEnded, hp]

/-- **With any fuel, a machine follows what a run does.** -/
theorem followed (n : Nat) : Followed D D' n := by
  induction n with
  | zero => exact .zero
  | succ n ih =>
    exact {
      eval := fun hb he hc => ih.eval_succ hb he hc
      arguments := fun hb hes _ hstep => ih.arguments_succ hb hes hstep
      exec := fun hb hs hc => ih.exec_succ hb hs hc
      rounds := fun hb hs hc hp => ih.rounds_succ hb hs hc hp
      body := fun hb hs hc hp => ih.body_succ hb hs hc hp }

end YouthLang.Counting

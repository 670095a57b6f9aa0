import YouthLang.Proofs.Frames
import YouthLang.Proofs.Settled

/-!
# Proofs/Agreement — the walk and the run agree

The scopes that the walk over a program opens and the frames that a run of it makes are kept in step by
one invariant of the machine, `Machine.Sound`: the code that is about to run is settled in scopes that
the current frame realizes, the tasks that wait are so in the frames they go back to (`Awaits`), and
the functions in the heap are so in the frames they were declared in (`Heap.Sound`).  One step keeps it
(`Machine.Sound.step`), so every run does.
-/

namespace YouthLang

variable {ok : Distances → Visit → Prop} {h h' : Heap} {f g : Nat} {scopes : List Scope}

/-! ## Frames that code goes on in

A frame may run a piece of code when its chain realizes the scopes that the code is settled in. -/

/-- A frame that code with some scopes around it goes on in: it realizes the scopes, and unless it is
that of the globals, it binds only what the innermost scope has completely declared. -/
structure Heap.Hosts (h : Heap) (f : Nat) (scopes : List Scope) : Prop where
  realizes : h.Realizes f scopes
  only : f ≠ Machine.globals → ∀ name, (h.bound? f name).isSome →
    (scopes.headD []).lookup name = some true

namespace Heap.Hosts

theorem grows {current : Nat} (hg : Grows current h h') (hf : f ≠ current)
    (hh : h.Hosts f scopes) : h'.Hosts f scopes where
  realizes := hh.realizes.grows hg
  only hne name hb := hh.only hne name (hg.fixed f hh.realizes.lt_size hf name hb)

/-- A change that binds no new name in a frame leaves it as it is. -/
theorem of_grows {current : Nat} (hg : Grows current h h')
    (hb : ∀ name, (h'.bound? f name).isSome → (h.bound? f name).isSome) (hh : h.Hosts f scopes) :
    h'.Hosts f scopes where
  realizes := hh.realizes.grows hg
  only hne name hsome := hh.only hne name (hb name hsome)

/-- A declaration that has begun binds nothing yet. -/
theorem noted_false {name : Text} (hh : h.Hosts f scopes)
    (hnew : (scopes.headD []).lookup name = none) : h.Hosts f (noted name false scopes) := by
  obtain ⟨hr, honly⟩ := hh
  cases scopes with
  | nil => exact absurd rfl hr.ne_nil
  | cons scope outer =>
    simp only [List.headD_cons] at hnew honly
    refine ⟨hr.exchange fun other hl => ?_, fun hne other hb => ?_⟩
    · by_cases he : other = name
      · simp [he] at hl
      · have hb : (other == name) = false := by simpa using he
        exact hr.covers other (by simpa [List.lookup_cons, hb] using hl)
    · have hl := honly hne other hb
      have he : other ≠ name := fun he => by simp [he, hnew] at hl
      have hb : (other == name) = false := by simpa using he
      simpa [noted, List.lookup_cons, hb] using hl

/-- A name that is bound is completely declared. -/
theorem noted_true {name : Text} {v : Value} (hh : h.Hosts f scopes) :
    (h.define f name v).Hosts f (noted name true scopes) := by
  obtain ⟨hr, honly⟩ := hh
  have hlt := hr.lt_size
  have hr' := hr.grows (@Heap.Grows.define h f name v)
  cases scopes with
  | nil => exact absurd rfl hr.ne_nil
  | cons scope outer =>
    refine ⟨hr'.exchange fun other hl => ?_, fun hne other hb => ?_⟩
    · by_cases he : other = name
      · simp [he, hlt]
      · have hb : (other == name) = false := by simpa using he
        exact hr'.covers other (by simpa [List.lookup_cons, hb] using hl)
    · by_cases he : other = name
      · simp [noted, he]
      · have hb' : (other == name) = false := by simpa using he
        rw [bound?_define_of_name_ne he] at hb
        simpa [noted, List.lookup_cons, hb'] using honly hne other hb

/-- A name declared at once. -/
theorem declared {name : Text} {v : Value} (hh : h.Hosts f scopes) :
    (h.define f name v).Hosts f (declared name scopes) := by
  have htrue := @noted_true h f scopes name v hh
  obtain ⟨hr, honly⟩ := htrue
  cases scopes with
  | nil => exact absurd rfl hh.realizes.ne_nil
  | cons scope outer =>
    -- the entry that says the declaration has begun is hidden by the one that says it is complete
    have hlook : ∀ other, List.lookup other ((name, true) :: (name, false) :: scope)
        = List.lookup other ((name, true) :: scope) := by
      intro other
      by_cases he : other = name
      · simp [he]
      · have hb : (other == name) = false := by simpa using he
        simp [List.lookup_cons, hb]
    refine ⟨hr.exchange fun other hl => hr.covers other ?_, fun hne other hb => ?_⟩
    · rwa [hlook] at hl
    · have hl : List.lookup other ((name, true) :: scope) = some true := honly hne other hb
      exact (hlook other).trans hl

/-- A new frame hosts one more scope that declares just what it binds. -/
theorem newFrame {scope : Scope} {bindings : Bindings} (hr : h.Realizes f scopes)
    (hb : ∀ name, scope.lookup name = some true ↔ (bindings.lookup name).isSome) :
    (h.newFrame (some f) bindings).Hosts h.frames.size (scope :: scopes) where
  realizes := hr.newFrame fun name => (hb name).mp
  only _ name hsome := (hb name).mpr (by simpa using hsome)

end Heap.Hosts

/-- The frame of a call binds the parameters, as the scope of the function declares them. -/
theorem lookup_parameterScope : ∀ (ps : List Token) (vs : List Value), ps.length = vs.length →
    ∀ name, (parameterScope ps).lookup name = some true ↔
      (((ps.zip vs).foldl (fun bs (p, v) => Bindings.put p.lexeme v bs) []).lookup name).isSome := by
  have key : ∀ (ps : List Token) (vs : List Value), ps.length = vs.length →
      ∀ (scope : Scope) (bs : Bindings),
        (∀ name, scope.lookup name = some true ↔ (bs.lookup name).isSome) →
        ∀ name, (ps.foldl (fun scope p => (p.lexeme, true) :: (p.lexeme, false) :: scope)
            scope).lookup name = some true ↔
          (((ps.zip vs).foldl (fun bs (p, v) => Bindings.put p.lexeme v bs) bs).lookup
            name).isSome := by
    intro ps
    induction ps with
    | nil => intro vs _ scope bs hb; simpa using hb
    | cons p ps ih =>
      intro vs hlen scope bs hb
      cases vs with
      | nil => simp at hlen
      | cons v vs =>
        simp only [List.foldl_cons, List.zip_cons_cons]
        refine ih vs (by simpa using hlen) _ _ fun name => ?_
        by_cases he : name = p.lexeme
        · simp [he]
        · have hne : (name == p.lexeme) = false := by simpa using he
          rw [Bindings.lookup_put_of_ne v bs he]
          simpa [List.lookup_cons, hne] using hb name
  exact fun ps vs hlen => key ps vs hlen [] [] fun name => by simp

/-! ## The functions in the heap -/

/-- A function whose body is settled in the scopes of the frame it was declared in, with those that a
call finds between the two. -/
def Closure.Sound (ok : Distances → Visit → Prop) (h : Heap) (between : List Scope) (c : Closure) :
    Prop :=
  ∃ scopes, h.Realizes c.frame scopes
    ∧ c.declaration.Settled (ok c.distances) (between ++ scopes)

/-- Every function and every method of a heap is sound.  A method waits for its receiver. -/
structure Heap.Sound (ok : Distances → Visit → Prop) (h : Heap) : Prop where
  globals : Machine.globals < h.frames.size ∧ h.parent? Machine.globals = none
  closures : ∀ c ∈ h.closures, c.Sound ok h []
  methods : ∀ y ∈ h.youths, ∀ m ∈ y.methods, m.2.Sound ok h [[(receiver, true)]]

theorem Closure.Sound.grows {current : Nat} {between : List Scope} {c : Closure}
    (hg : Heap.Grows current h h') (hc : c.Sound ok h between) : c.Sound ok h' between := by
  obtain ⟨scopes, hr, hs⟩ := hc
  exact ⟨scopes, hr.grows hg, hs⟩

namespace Heap.Sound

/-- A heap with sound functions that grows by sound functions only stays sound. -/
theorem grows {current : Nat} (hs : h.Sound ok) (hg : Grows current h h')
    (hclosures : ∀ c ∈ h'.closures, c ∈ h.closures ∨ c.Sound ok h' [])
    (hyouths : ∀ y ∈ h'.youths, y ∈ h.youths ∨ ∀ m ∈ y.methods,
      m.2.Sound ok h' [[(receiver, true)]]) : h'.Sound ok where
  globals := ⟨Nat.lt_of_lt_of_le hs.globals.1 hg.size,
    (hg.parent _ hs.globals.1).trans hs.globals.2⟩
  closures c hc := by
    rcases hclosures c hc with hold | hnew
    · exact (hs.closures c hold).grows hg
    · exact hnew
  methods y hy m hm := by
    rcases hyouths y hy with hold | hnew
    · exact (hs.methods y hold m hm).grows hg
    · exact hnew m hm

/-- A heap that grows by no function stays sound. -/
theorem grows_same {current : Nat} (hs : h.Sound ok) (hg : Grows current h h')
    (hclosures : h'.closures = h.closures) (hyouths : h'.youths = h.youths) : h'.Sound ok :=
  hs.grows hg (fun _ hc => Or.inl (hclosures ▸ hc)) (fun _ hy => Or.inl (hyouths ▸ hy))

theorem define (hs : h.Sound ok) {name : Text} {v : Value} : (h.define f name v).Sound ok :=
  hs.grows_same Grows.define rfl rfl

theorem newFrame (hs : h.Sound ok) {parent : Option Nat} {bindings : Bindings} :
    (h.newFrame parent bindings).Sound ok :=
  hs.grows_same (@Grows.newFrame h 0 bindings parent) rfl rfl

theorem newObject (hs : h.Sound ok) {o : Object} : (h.newObject o).Sound ok :=
  hs.grows_same (@Grows.of_frames_eq h _ 0 rfl) rfl rfl

theorem setField (hs : h.Sound ok) {object : Nat} {name : Text} {v : Value} :
    (h.setField object name v).Sound ok :=
  hs.grows_same (@Grows.of_frames_eq h _ 0 rfl) rfl rfl

theorem newClosure (hs : h.Sound ok) {c : Closure} (hc : c.Sound ok h []) :
    (h.newClosure c).Sound ok := by
  have hg : Grows 0 h (h.newClosure c) := Grows.of_frames_eq rfl
  refine hs.grows hg (fun d hd => ?_) fun _ hy => Or.inl hy
  rcases Array.mem_push.mp hd with hd | rfl
  · exact Or.inl hd
  · exact Or.inr (hc.grows hg)

end Heap.Sound

/-! ## The tasks that wait

Each task remembers the frame it goes on in, and what it leaves there for the next.  So the
judgement follows the list of tasks and passes the scopes along. -/

/-- What a task waits for: the value of an expression, or the end of a statement. -/
inductive Awaited where
  | value
  | done

/-- **The tasks that wait are settled in the frames they go back to.**  The numbers, the distances and
the scopes are those of the code that runs before the first of the tasks; `inFunction` says that a call
is among the tasks. -/
inductive Awaits (ok : Distances → Visit → Prop) (h : Heap) :
    Awaited → Nat → Distances → Bool → List Scope → List Pending → Prop
  | ended {f D scopes} : Awaits ok h .done f D false scopes []
  | unary {f D b scopes rest op t} (hrest : Awaits ok h .value f D b scopes rest) :
      Awaits ok h .value f D b scopes (.unary op t :: rest)
  | rightOperand {f D b scopes rest op t right} (hright : Expr.Settled (ok D) scopes right)
      (hrest : Awaits ok h .value f D b scopes rest) :
      Awaits ok h .value f D b scopes (.rightOperand op t right :: rest)
  | binary {f D b scopes rest op t left} (hrest : Awaits ok h .value f D b scopes rest) :
      Awaits ok h .value f D b scopes (.binary op t left :: rest)
  | logical {f D b scopes rest op right} (hright : Expr.Settled (ok D) scopes right)
      (hrest : Awaits ok h .value f D b scopes rest) :
      Awaits ok h .value f D b scopes (.logical op right :: rest)
  | assign {f D b scopes rest node name} (hok : ok D ⟨⟨.write, name, node⟩, scopes⟩)
      (hrest : Awaits ok h .value f D b scopes rest) :
      Awaits ok h .value f D b scopes (.assign node name :: rest)
  | get {f D b scopes rest name} (hrest : Awaits ok h .value f D b scopes rest) :
      Awaits ok h .value f D b scopes (.get name :: rest)
  | setObject {f D b scopes rest name value} (hvalue : Expr.Settled (ok D) scopes value)
      (hrest : Awaits ok h .value f D b scopes rest) :
      Awaits ok h .value f D b scopes (.setObject name value :: rest)
  | set {f D b scopes rest name object} (hrest : Awaits ok h .value f D b scopes rest) :
      Awaits ok h .value f D b scopes (.set name object :: rest)
  | callee {f D b scopes rest paren arguments}
      (harguments : ∀ e ∈ arguments, Expr.Settled (ok D) scopes e)
      (hrest : Awaits ok h .value f D b scopes rest) :
      Awaits ok h .value f D b scopes (.callee paren arguments :: rest)
  | argument {f D b scopes rest paren callee read arguments}
      (harguments : ∀ e ∈ arguments, Expr.Settled (ok D) scopes e)
      (hrest : Awaits ok h .value f D b scopes rest) :
      Awaits ok h .value f D b scopes (.argument paren callee read arguments :: rest)
  | discard {f D b scopes rest} (hrest : Awaits ok h .done f D b scopes rest) :
      Awaits ok h .value f D b scopes (.discard :: rest)
  | tell {f D b scopes rest} (hrest : Awaits ok h .done f D b scopes rest) :
      Awaits ok h .value f D b scopes (.tell :: rest)
  | declare {f D b scopes rest name}
      (hrest : Awaits ok h .done f D b (noted name.lexeme true scopes) rest) :
      Awaits ok h .value f D b scopes (.declare name :: rest)
  | give {f D scopes rest} (hrest : Awaits ok h .done f D true scopes rest) :
      Awaits ok h .value f D true scopes (.give :: rest)
  | branch {f D b scopes rest yes no}
      (hyes : yes.declares = false ∧ yes.Settled (ok D) scopes b)
      (hno : ∀ s ∈ no, s.declares = false ∧ s.Settled (ok D) scopes b)
      (hrest : Awaits ok h .done f D b scopes rest) :
      Awaits ok h .value f D b scopes (.branch yes no :: rest)
  | loopTest {f D b scopes rest condition body}
      (hloop : Stmt.Settled (ok D) scopes b (.loop condition body))
      (hrest : Awaits ok h .done f D b scopes rest) :
      Awaits ok h .value f D b scopes (.loopTest condition body :: rest)
  | loopBody {f D b scopes rest condition body}
      (hloop : Stmt.Settled (ok D) scopes b (.loop condition body))
      (hrest : Awaits ok h .done f D b scopes rest) :
      Awaits ok h .done f D b scopes (.loopBody condition body :: rest)
  | sequence {f D b scopes rest body} (hbody : BodySettled (ok D) scopes b body)
      (hrest : Awaits ok h .done f D b (bodyExtend scopes body) rest) :
      Awaits ok h .done f D b scopes (.sequence body :: rest)
  | leave {f g D b scopes scopes' rest} (hlt : g < f) (hhost : h.Hosts g scopes')
      (hrest : Awaits ok h .done g D b scopes' rest) :
      Awaits ok h .done f D b scopes (.leave g :: rest)
  | call {f g D D' b scopes scopes' rest function line} (hlt : g < f) (hhost : h.Hosts g scopes')
      (hrest : Awaits ok h .value g D' b scopes' rest) :
      Awaits ok h .done f D true scopes (.call function line g D' :: rest)
  | program {f D scopes rest body} (hbody : BodySettled (ok D) scopes false body)
      (hrest : Awaits ok h .done f D false (bodyExtend scopes body) rest) :
      Awaits ok h .done f D false scopes (.program body :: rest)

/-- The frames that tasks go back to are older than the current one, so a change at the current one
does not reach them. -/
theorem Awaits.grows {ending : Awaited} {D : Distances} {b : Bool} {pending : List Pending}
    {current : Nat} (hg : Heap.Grows current h h')
    (ha : Awaits ok h ending f D b scopes pending) (hf : f ≤ current) :
    Awaits ok h' ending f D b scopes pending := by
  induction ha with
  | ended => exact .ended
  | unary _ ih => exact .unary (ih hf)
  | rightOperand hright _ ih => exact .rightOperand hright (ih hf)
  | binary _ ih => exact .binary (ih hf)
  | logical hright _ ih => exact .logical hright (ih hf)
  | assign hok _ ih => exact .assign hok (ih hf)
  | get _ ih => exact .get (ih hf)
  | setObject hvalue _ ih => exact .setObject hvalue (ih hf)
  | set _ ih => exact .set (ih hf)
  | callee harguments _ ih => exact .callee harguments (ih hf)
  | argument harguments _ ih => exact .argument harguments (ih hf)
  | discard _ ih => exact .discard (ih hf)
  | tell _ ih => exact .tell (ih hf)
  | declare _ ih => exact .declare (ih hf)
  | give _ ih => exact .give (ih hf)
  | branch hyes hno _ ih => exact .branch hyes hno (ih hf)
  | loopTest hloop _ ih => exact .loopTest hloop (ih hf)
  | loopBody hloop _ ih => exact .loopBody hloop (ih hf)
  | sequence hbody _ ih => exact .sequence hbody (ih hf)
  | leave hlt hhost _ ih =>
    exact .leave hlt (hhost.grows hg (Nat.ne_of_lt (Nat.lt_of_lt_of_le hlt hf)))
      (ih (Nat.le_of_lt (Nat.lt_of_lt_of_le hlt hf)))
  | call hlt hhost _ ih =>
    exact .call hlt (hhost.grows hg (Nat.ne_of_lt (Nat.lt_of_lt_of_le hlt hf)))
      (ih (Nat.le_of_lt (Nat.lt_of_lt_of_le hlt hf)))
  | program hbody _ ih => exact .program hbody (ih hf)

/-! ## The invariant

It is stated for any judgement of visits, so that each use of it may say what a node is known to be.
-/

/-- Code with some scopes around it goes on in a frame, before the tasks that wait for it. -/
structure Stands (ok : Distances → Visit → Prop) (h : Heap) (ending : Awaited) (f : Nat)
    (D : Distances) (inFunction : Bool) (scopes : List Scope) (pending : List Pending) : Prop where
  heap : h.Sound ok
  hosts : h.Hosts f scopes
  awaits : Awaits ok h ending f D inFunction scopes pending

/-- **The invariant of a run.**  After a failure nothing but the heap is used again, and a value that
is given back is on its way to a call. -/
def Machine.Sound (ok : Distances → Visit → Prop) (m : Machine) : Prop :=
  match m.control with
  | .eval e => ∃ b scopes, Stands ok m.heap .value m.frame m.distances b scopes m.pending
      ∧ e.Settled (ok m.distances) scopes
  | .exec s => ∃ b scopes, m.heap.Sound ok ∧ m.heap.Hosts m.frame scopes
      ∧ s.Settled (ok m.distances) scopes b
      ∧ Awaits ok m.heap .done m.frame m.distances b (s.extend scopes) m.pending
  | .value _ => ∃ b scopes, Stands ok m.heap .value m.frame m.distances b scopes m.pending
  | .done => ∃ b scopes, Stands ok m.heap .done m.frame m.distances b scopes m.pending
  | .giving _ => m.heap.Sound ok
      ∧ ∃ scopes, Awaits ok m.heap .done m.frame m.distances true scopes m.pending
  | .failing _ => m.heap.Sound ok

section Step

variable {m : Machine} {ending : Awaited} {D : Distances} {b : Bool} {pending : List Pending}
  {v : Value}

/-- The code still stands after a change that binds no new name in a frame. -/
theorem Stands.quiet {current : Nat} (hs : Stands ok h ending f D b scopes pending)
    (hg : Heap.Grows current h h') (hf : f ≤ current) (hheap : h'.Sound ok)
    (hb : ∀ name, (h'.bound? f name).isSome → (h.bound? f name).isSome) :
    Stands ok h' ending f D b scopes pending :=
  ⟨hheap, hs.hosts.of_grows hg hb, hs.awaits.grows hg hf⟩

/-- The code still stands after a change that leaves the frames alone. -/
theorem Stands.of_frames_eq (hs : Stands ok h ending f D b scopes pending)
    (heq : h'.frames = h.frames) (hheap : h'.Sound ok) :
    Stands ok h' ending f D b scopes pending :=
  hs.quiet (@Heap.Grows.of_frames_eq h h' f heq) (Nat.le_refl f) hheap
    fun name hb => by simpa [Heap.bound?, heq] using hb

/-- The code still stands when a frame is made. -/
theorem Stands.newFrame (hs : Stands ok h ending f D b scopes pending) {parent : Option Nat}
    {bindings : Bindings} : Stands ok (h.newFrame parent bindings) ending f D b scopes pending :=
  hs.quiet (@Heap.Grows.newFrame h f bindings parent) (Nat.le_refl f) hs.heap.newFrame
    fun name hb => by rwa [Heap.bound?_newFrame_of_lt hs.hosts.realizes.lt_size] at hb

/-- The code still stands when a name that is bound gets another value. -/
theorem Stands.redefine (hs : Stands ok h ending f D b scopes pending) {name : Text}
    (hb : (h.bound? g name).isSome) :
    Stands ok (h.define g name v) ending f D b scopes pending := by
  have hg : Heap.Grows f h (h.define g name v) := Heap.Grows.redefine hb
  refine hs.quiet hg (Nat.le_refl f) hs.heap.define fun other ho => ?_
  have hg' : Heap.Grows (f + 1) h (h.define g name v) := Heap.Grows.redefine hb
  exact hg'.fixed f hs.hosts.realizes.lt_size (Nat.ne_of_lt (Nat.lt_succ_self f)) other ho

theorem Machine.Sound.valueOr
    (hs : Stands ok m.heap .value m.frame m.distances b scopes m.pending) (v? : Option Value)
    (t : Token) (cause : RuntimeCause) : (m.valueOr v? t cause).Sound ok := by
  cases v? with
  | some v => exact ⟨b, scopes, hs⟩
  | none => exact hs.heap

theorem Machine.Sound.lookUp
    (hs : Stands ok m.heap .value m.frame m.distances b scopes m.pending) (node : Nat)
    (name : Token) : (m.lookUp node name).Sound ok := by
  unfold Machine.lookUp
  split
  · exact Machine.Sound.valueOr hs _ _ _
  · exact Machine.Sound.valueOr hs _ _ _

/-! ## Expressions -/

/-- Each of the arguments of a settled call is settled. -/
theorem forall_settled_of_argumentReferences {ok : Visit → Prop} : ∀ {es : List Expr},
    (∀ ref ∈ argumentReferences es, ok ⟨ref, scopes⟩) → ∀ e ∈ es, e.Settled ok scopes
  | e :: es, hrefs, x, hx => by
      obtain ⟨he, hes⟩ := List.forall_mem_append.mp hrefs
      rcases List.mem_cons.mp hx with rfl | hx
      · exact he
      · exact forall_settled_of_argumentReferences hes x hx

/-- The first step of an expression keeps the invariant: its parts are settled where it is. -/
theorem Machine.Sound.eval
    (hs : Stands ok m.heap .value m.frame m.distances b scopes m.pending) : ∀ e : Expr,
    e.Settled (ok m.distances) scopes → (m.eval e).Sound ok
  | .literal _, _ => ⟨b, scopes, hs⟩
  | .variable node name, _ => Machine.Sound.lookUp hs node name
  | .me node keyword, _ => Machine.Sound.lookUp hs node keyword
  | .group _, he => ⟨b, scopes, hs, he⟩
  | .unary _ _ _, he => ⟨b, scopes, ⟨hs.heap, hs.hosts, .unary hs.awaits⟩, he⟩
  | .binary _ _ _ _, he => by
      obtain ⟨hleft, hright⟩ := List.forall_mem_append.mp he
      exact ⟨b, scopes, ⟨hs.heap, hs.hosts, .rightOperand hright hs.awaits⟩, hleft⟩
  | .logical _ _ _ _, he => by
      obtain ⟨hleft, hright⟩ := List.forall_mem_append.mp he
      exact ⟨b, scopes, ⟨hs.heap, hs.hosts, .logical hright hs.awaits⟩, hleft⟩
  | .assign _ _ _, he => by
      obtain ⟨hwrite, hvalue⟩ := List.forall_mem_cons.mp he
      exact ⟨b, scopes, ⟨hs.heap, hs.hosts, .assign hwrite hs.awaits⟩, hvalue⟩
  | .get _ _, he => ⟨b, scopes, ⟨hs.heap, hs.hosts, .get hs.awaits⟩, he⟩
  | .set _ _ _, he => by
      obtain ⟨hobject, hvalue⟩ := List.forall_mem_append.mp he
      exact ⟨b, scopes, ⟨hs.heap, hs.hosts, .setObject hvalue hs.awaits⟩, hobject⟩
  | .call _ _ _, he => by
      obtain ⟨hcallee, harguments⟩ := List.forall_mem_append.mp he
      have harguments := forall_settled_of_argumentReferences harguments
      exact ⟨b, scopes, ⟨hs.heap, hs.hosts, .callee harguments hs.awaits⟩, hcallee⟩

/-- A method read off an object is bound to it in a new frame. -/
theorem Machine.Sound.property (name : Token)
    (hs : Stands ok m.heap .value m.frame m.distances b scopes m.pending) :
    (m.property v name).Sound ok := by
  cases v with
  | object id =>
    simp only [Machine.property]
    split
    · exact ⟨b, scopes, hs⟩
    · split
      · next c hc =>
        have hmethod : c.Sound ok m.heap [[(receiver, true)]] := by
          obtain ⟨y, hy, hl⟩ := Option.bind_eq_some_iff.mp hc
          obtain ⟨o, -, hy⟩ := Option.bind_eq_some_iff.mp hy
          obtain ⟨before, after, heq, -⟩ := List.lookup_eq_some_iff.mp hl
          exact hs.heap.methods y (Array.mem_of_getElem? hy) (name.lexeme, c) (by simp [heq])
        obtain ⟨scopes', hr, hsettled⟩ := hmethod
        have hframe := @Stands.newFrame _ _ _ _ _ _ _ _ hs (some c.frame) [(receiver, .object id)]
        have hbound : Closure.Sound ok (m.heap.newFrame (some c.frame) [(receiver, .object id)]) []
            { c with frame := m.heap.frames.size } :=
          ⟨_, hr.newFrame fun name hl => by
            simp only [List.lookup_cons] at hl ⊢
            split at hl
            · rfl
            · simp at hl, hsettled⟩
        exact ⟨b, scopes, hframe.of_frames_eq rfl (hframe.heap.newClosure hbound)⟩
      · exact hs.heap
  | _ => exact hs.heap

theorem Machine.Sound.callNative (builtin : Builtin) (paren : Token) (arguments : List Value)
    (hs : Stands ok m.heap .value m.frame m.distances b scopes m.pending) :
    (m.callNative builtin paren arguments).Sound ok := by
  cases builtin with
  | len =>
    simp only [Machine.callNative]
    split
    · exact ⟨b, scopes, hs⟩
    · exact hs.heap
  | failing message => exact hs.heap
  | _ => exact ⟨b, scopes, hs⟩

/-- A call goes on in a new frame that binds the parameters. -/
theorem Machine.Sound.callClosure {c : Closure} (hc : c.Sound ok m.heap []) (paren : Token)
    {arguments : List Value} (harity : c.declaration.parameters.length = arguments.length)
    (hs : Stands ok m.heap .value m.frame m.distances b scopes m.pending) :
    (m.callClosure c paren arguments).Sound ok := by
  obtain ⟨scopes', hr, hsettled⟩ := hc
  obtain ⟨⟨name, parameters, body⟩, frame, distances⟩ := c
  have hhost := Heap.Hosts.newFrame hr (lookup_parameterScope parameters arguments harity)
  have hnew := @Stands.newFrame _ _ _ _ _ _ _ _ hs (some frame)
    ((parameters.zip arguments).foldl (fun bs (p, v) => Bindings.put p.lexeme v bs) [])
  exact ⟨true, _, hnew.heap, hhost, .sequence hsettled
    (.call hs.hosts.realizes.lt_size hnew.hosts hnew.awaits)⟩

theorem Machine.Sound.enter {callee : Value} (paren : Token) {arguments : List Value}
    (harity : m.arity? callee = some (arguments.length : Int))
    (hs : Stands ok m.heap .value m.frame m.distances b scopes m.pending) :
    (m.enter callee paren arguments).Sound ok := by
  cases callee with
  | native id =>
    simp only [Machine.enter]
    split
    · exact Machine.Sound.callNative _ paren arguments hs
    · exact hs.heap
  | function id =>
    simp only [Machine.enter]
    split
    · next c hc =>
      have hlen : (c.declaration.parameters.length : Int) = arguments.length := by
        simpa [Machine.arity?, hc] using harity
      exact Machine.Sound.callClosure (hs.heap.closures c (Array.mem_of_getElem? hc)) paren
        (Int.ofNat.inj hlen) hs
    · exact hs.heap
  | youth id => exact ⟨b, scopes, hs.of_frames_eq rfl hs.heap.newObject⟩
  | _ => exact hs.heap

theorem Machine.Sound.call (callee : Value) (paren : Token) (arguments : List Value)
    (hs : Stands ok m.heap .value m.frame m.distances b scopes m.pending) :
    (m.call callee paren arguments).Sound ok := by
  unfold Machine.call
  split
  · exact hs.heap
  · next n harity =>
    split
    · exact hs.heap
    · next hn =>
      split
      · exact hs.heap
      · exact Machine.Sound.enter paren (harity.trans (by rw [Decidable.of_not_not hn])) hs

/-! ## Statements -/

/-- A function that is declared under its own name. -/
theorem Heap.Sound.function {c : Closure} {name : Text} (hs : h.Sound ok)
    (hframe : c.frame = f) (hhost : h.Hosts f scopes)
    (hsettled : c.declaration.Settled (ok c.distances) (declared name scopes)) :
    ((h.newClosure c).define f name v).Sound ok := by
  have hg : Grows f h ((h.newClosure c).define f name v) :=
    (@Grows.of_frames_eq h (h.newClosure c) f rfl).trans Grows.define
  have hhost' : ((h.newClosure c).define f name v).Hosts f (YouthLang.declared name scopes) :=
    (hhost.of_grows (@Grows.of_frames_eq h (h.newClosure c) f rfl) fun _ hb => hb).declared
  refine hs.grows hg (fun d hd => ?_) fun _ hy => Or.inl hy
  rcases Array.mem_push.mp hd with hd | rfl
  · exact Or.inl hd
  · exact Or.inr ⟨_, hframe ▸ hhost'.realizes, hsettled⟩

/-- A youth whose methods are declared behind its name. -/
theorem Heap.Sound.youth {y : Youth} {name : Text} (hs : h.Sound ok) (hhost : h.Hosts f scopes)
    (hmethods : ∀ m ∈ y.methods, m.2.frame = f ∧
      m.2.declaration.Settled (ok m.2.distances) ([(receiver, true)] :: declared name scopes)) :
    ((h.newYouth y).define f name v).Sound ok := by
  have hg : Grows f h ((h.newYouth y).define f name v) :=
    (@Grows.of_frames_eq h (h.newYouth y) f rfl).trans Grows.define
  have hhost' : ((h.newYouth y).define f name v).Hosts f (YouthLang.declared name scopes) :=
    (hhost.of_grows (@Grows.of_frames_eq h (h.newYouth y) f rfl) fun _ hb => hb).declared
  refine hs.grows hg (fun _ hc => Or.inl hc) fun z hz => ?_
  rcases Array.mem_push.mp hz with hz | rfl
  · exact Or.inl hz
  · refine Or.inr fun m hm => ?_
    obtain ⟨hframe, hsettled⟩ := hmethods m hm
    exact ⟨_, hframe ▸ hhost'.realizes, hsettled⟩

/-- The first step of a statement keeps the invariant. -/
theorem Machine.Sound.exec (hheap : m.heap.Sound ok) (hhost : m.heap.Hosts m.frame scopes) :
    ∀ s : Stmt, s.Settled (ok m.distances) scopes b →
      Awaits ok m.heap .done m.frame m.distances b (s.extend scopes) m.pending → (m.exec s).Sound ok
  | .failed, _, ha => ⟨b, scopes, hheap, hhost, ha⟩
  | .expression _, hs, ha => ⟨b, scopes, ⟨hheap, hhost, .discard ha⟩, hs⟩
  | .tell _, hs, ha => ⟨b, scopes, ⟨hheap, hhost, .tell ha⟩, hs⟩
  -- The name is complete at once; what waits has grown by it.
  | .declare _ none, _, ha =>
      ⟨b, _, hheap.define, hhost.declared, ha.grows Heap.Grows.define (Nat.le_refl _)⟩
  | .declare _ (some _), hs, ha =>
      ⟨b, _, ⟨hheap, hhost.noted_false hs.1, .declare ha⟩, hs.2⟩
  | .give _ none, hs, ha => by
      obtain rfl : b = true := hs
      exact ⟨hheap, scopes, ha⟩
  | .give _ (some _), hs, ha => by
      obtain ⟨rfl, hvalue⟩ := hs
      exact ⟨true, scopes, ⟨hheap, hhost, .give ha⟩, hvalue⟩
  -- The new frame realizes an empty scope in front of the old ones.
  | .block body, hs, ha => by
      have hlt := hhost.realizes.lt_size
      have hg : Heap.Grows m.heap.frames.size m.heap (m.heap.newFrame (some m.frame) []) :=
        Heap.Grows.newFrame (some m.frame)
      have hnew : (m.heap.newFrame (some m.frame) []).Hosts m.heap.frames.size ([] :: scopes) :=
        Heap.Hosts.newFrame hhost.realizes fun name => by simp
      exact ⟨b, _, hheap.newFrame, hnew, .sequence hs
        (.leave hlt (hhost.grows hg (Nat.ne_of_lt hlt)) (ha.grows hg (Nat.le_of_lt hlt)))⟩
  | .branch _ _ none, hs, ha =>
      ⟨b, scopes, ⟨hheap, hhost, .branch hs.2 (fun _ h => absurd h (by simp)) ha⟩, hs.1⟩
  | .branch _ _ (some no), hs, ha => by
      obtain ⟨hcondition, hyes, hno⟩ := hs
      refine ⟨b, scopes, ⟨hheap, hhost, .branch hyes (fun s h => ?_) ha⟩, hcondition⟩
      obtain rfl := Option.mem_some.mp h
      exact hno
  | .loop _ _, hs, ha => ⟨b, scopes, ⟨hheap, hhost, .loopTest hs ha⟩, hs.1⟩
  -- The closure is made first and may refer to its own name, declared right after.
  | .function declaration, hs, ha => by
      have hg : Heap.Grows m.frame m.heap (m.heap.newClosure (m.closureOf declaration)) :=
        Heap.Grows.of_frames_eq rfl
      exact ⟨b, _, hheap.function rfl hhost hs, (hhost.of_grows hg fun _ h => h).declared,
        (ha.grows hg (Nat.le_refl _)).grows Heap.Grows.define (Nat.le_refl _)⟩
  | .youth name methods, hs, ha => by
      have hg : Heap.Grows m.frame m.heap
          (m.heap.newYouth ⟨name.lexeme, m.methodTable methods⟩) := Heap.Grows.of_frames_eq rfl
      refine ⟨b, _, hheap.youth hhost fun entry hentry => ?_,
        (hhost.of_grows hg fun _ h => h).declared,
        (ha.grows hg (Nat.le_refl _)).grows Heap.Grows.define (Nat.le_refl _)⟩
      obtain ⟨f, hf, rfl⟩ := List.mem_map.mp hentry
      exact ⟨rfl, MethodsSettled.of_mem hs f (List.mem_reverse.mp hf)⟩

/-! ## Tasks taken up -/

/-- An assignment binds no name that was not bound. -/
theorem Machine.Sound.assign (node : Nat) (name : Token)
    (hs : Stands ok m.heap .value m.frame m.distances b scopes m.pending) :
    (m.assign node name v).Sound ok := by
  unfold Machine.assign
  split
  next frame? cause heq =>
  have hbound : ∀ g ∈ frame?, (m.heap.bound? g name.lexeme).isSome := by
    split at heq
    · obtain ⟨rfl, rfl⟩ := Prod.mk.inj heq
      exact fun g hg => Heap.bound?_of_binderAt? hg
    · obtain ⟨rfl, rfl⟩ := Prod.mk.inj heq
      exact fun g hg => Heap.bound?_of_binder? hg
  cases frame? with
  | some g => exact ⟨b, scopes, hs.redefine (hbound g rfl)⟩
  | none => exact hs.heap

theorem Machine.Sound.applyUnary (op : UnaryOp) (t : Token)
    (hs : Stands ok m.heap .value m.frame m.distances b scopes m.pending) :
    (m.applyUnary op t v).Sound ok := by
  unfold Machine.applyUnary
  split
  · exact ⟨b, scopes, hs⟩
  · exact ⟨b, scopes, hs⟩
  · exact hs.heap

theorem Machine.Sound.applyBinary (op : BinaryOp) (t : Token) (left : Value)
    (hs : Stands ok m.heap .value m.frame m.distances b scopes m.pending) :
    (m.applyBinary op t left v).Sound ok := by
  unfold Machine.applyBinary
  split
  · exact ⟨b, scopes, hs⟩
  · exact ⟨b, scopes, hs⟩
  · exact ⟨b, scopes, hs⟩
  · exact ⟨b, scopes, hs⟩
  · exact hs.heap
  · exact hs.heap

/-- A task that takes its value keeps the invariant. -/
theorem Machine.Sound.receive {p : Pending}
    (hs : Stands ok m.heap .value m.frame m.distances b scopes (p :: m.pending)) :
    (m.receive v p).Sound ok := by
  obtain ⟨hheap, hhost, hawait⟩ := hs
  cases hawait with
  | unary hrest => exact Machine.Sound.applyUnary _ _ ⟨hheap, hhost, hrest⟩
  | rightOperand hright hrest => exact ⟨b, scopes, ⟨hheap, hhost, .binary hrest⟩, hright⟩
  | binary hrest => exact Machine.Sound.applyBinary _ _ _ ⟨hheap, hhost, hrest⟩
  | @logical _ _ _ _ _ op right hright hrest =>
    have hvalue : Machine.Sound ok (m.turn (.value v)) := ⟨b, scopes, hheap, hhost, hrest⟩
    have heval : Machine.Sound ok (m.turn (.eval right)) :=
      ⟨b, scopes, ⟨hheap, hhost, hrest⟩, hright⟩
    cases op <;> (simp only [Machine.receive]; split) <;> assumption
  | assign _ hrest => exact Machine.Sound.assign _ _ ⟨hheap, hhost, hrest⟩
  | get hrest => exact Machine.Sound.property _ ⟨hheap, hhost, hrest⟩
  | setObject hvalue hrest =>
    simp only [Machine.receive]
    split
    · exact ⟨b, scopes, ⟨hheap, hhost, .set hrest⟩, hvalue⟩
    · exact hheap
  | set hrest =>
    have hs : Stands ok m.heap .value m.frame m.distances b scopes m.pending :=
      ⟨hheap, hhost, hrest⟩
    exact ⟨b, scopes, hs.of_frames_eq rfl hheap.setField⟩
  | @callee _ _ _ _ _ _ arguments harguments hrest =>
    cases arguments with
    | nil => exact Machine.Sound.call _ _ _ ⟨hheap, hhost, hrest⟩
    | cons e es =>
      obtain ⟨he, hes⟩ := List.forall_mem_cons.mp harguments
      exact ⟨b, scopes, ⟨hheap, hhost, .argument hes hrest⟩, he⟩
  | @argument _ _ _ _ _ _ _ _ arguments harguments hrest =>
    cases arguments with
    | nil => exact Machine.Sound.call _ _ _ ⟨hheap, hhost, hrest⟩
    | cons e es =>
      obtain ⟨he, hes⟩ := List.forall_mem_cons.mp harguments
      exact ⟨b, scopes, ⟨hheap, hhost, .argument hes hrest⟩, he⟩
  | discard hrest => exact ⟨b, scopes, hheap, hhost, hrest⟩
  | tell hrest => exact ⟨b, scopes, hheap, hhost, hrest⟩
  | declare hrest =>
    exact ⟨b, _, hheap.define, hhost.noted_true,
      hrest.grows Heap.Grows.define (Nat.le_refl _)⟩
  | give hrest => exact ⟨hheap, scopes, hrest⟩
  | @branch _ _ _ _ _ yes no hyes hno hrest =>
    -- a branch that declares nothing leaves the scopes as the condition found them
    have hexec : ∀ s : Stmt, s.declares = false ∧ s.Settled (ok m.distances) scopes b →
        Machine.Sound ok (m.turn (.exec s)) := by
      intro s hs
      refine ⟨b, scopes, hheap, hhost, hs.2, ?_⟩
      rw [s.extend_of_declares_eq_false hs.1]
      exact hrest
    simp only [Machine.receive]
    split
    · exact hexec yes hyes
    · split
      · next s => exact hexec s (hno s rfl)
      · exact ⟨b, scopes, hheap, hhost, hrest⟩
  | @loopTest _ _ _ _ _ condition body hloop hrest =>
    simp only [Machine.receive]
    split
    · refine ⟨b, scopes, hheap, hhost, hloop.2.2, ?_⟩
      rw [body.extend_of_declares_eq_false hloop.2.1]
      exact .loopBody hloop hrest
    · exact ⟨b, scopes, hheap, hhost, hrest⟩

/-- A task that goes on after a statement keeps the invariant. -/
theorem Machine.Sound.resume {p : Pending}
    (hs : Stands ok m.heap .done m.frame m.distances b scopes (p :: m.pending)) :
    (m.resume p).Sound ok := by
  obtain ⟨hheap, hhost, hawait⟩ := hs
  cases hawait with
  | loopBody hloop hrest => exact ⟨b, scopes, ⟨hheap, hhost, .loopTest hloop hrest⟩, hloop.1⟩
  | @sequence _ _ _ _ _ body hbody hrest =>
    cases body with
    | nil => exact ⟨b, scopes, hheap, hhost, hrest⟩
    | cons s body => exact ⟨b, scopes, hheap, hhost, hbody.1, .sequence hbody.2 hrest⟩
  | leave _ hback hrest => exact ⟨b, _, hheap, hback, hrest⟩
  | call _ hback hrest => exact ⟨_, _, hheap, hback, hrest⟩
  | @program _ _ _ _ body hbody hrest =>
    cases body with
    | nil => exact ⟨false, scopes, hheap, hhost, hrest⟩
    | cons s body => exact ⟨false, scopes, hheap, hhost, hbody.1, .program hbody.2 hrest⟩

/-- A task that a value given back passes by keeps the invariant: only a call stops it. -/
theorem Machine.Sound.takeGiven {p : Pending} (hheap : m.heap.Sound ok)
    (hawait : Awaits ok m.heap .done m.frame m.distances true scopes (p :: m.pending)) :
    (m.takeGiven v p).Sound ok := by
  cases hawait with
  | loopBody _ hrest => exact ⟨hheap, _, hrest⟩
  | sequence _ hrest => exact ⟨hheap, _, hrest⟩
  | leave _ _ hrest => exact ⟨hheap, _, hrest⟩
  | call _ hback hrest => exact ⟨_, _, hheap, hback, hrest⟩

/-! ## Runs -/

/-- **One step keeps the invariant.** -/
theorem Machine.Sound.step (hm : m.Sound ok) : m.step.Sound ok := by
  obtain ⟨heap, clock, output, frame, distances, depth, control, pending⟩ := m
  cases control with
  | eval e =>
    obtain ⟨b, scopes, hs, he⟩ := hm
    exact Machine.Sound.eval hs e he
  | exec s =>
    obtain ⟨b, scopes, hheap, hhost, hs, ha⟩ := hm
    exact Machine.Sound.exec hheap hhost s hs ha
  | value v =>
    obtain ⟨b, scopes, hs⟩ := hm
    cases pending with
    | nil => cases hs.awaits
    | cons p rest => exact Machine.Sound.receive hs
  | done =>
    obtain ⟨b, scopes, hs⟩ := hm
    cases pending with
    | nil => exact ⟨b, scopes, hs⟩
    | cons p rest => exact Machine.Sound.resume hs
  | giving v =>
    obtain ⟨hheap, scopes, ha⟩ := hm
    cases pending with
    | nil => cases ha
    | cons p rest => exact Machine.Sound.takeGiven hheap ha
  | failing d =>
    cases pending with
    | nil => exact hm
    | cons p rest => cases p <;> exact hm

/-- **A run keeps the invariant.** -/
theorem Machine.Sound.run : ∀ (fuel : Nat) {m : Machine}, m.Sound ok → (m.run fuel).Sound ok
  | 0, _, hm => hm
  | fuel + 1, m, hm => by
      unfold Machine.run
      split
      · exact hm
      · exact Machine.Sound.run fuel hm.step

/-- The heap of a machine is sound whatever it is about to do. -/
theorem Machine.Sound.heap (hm : m.Sound ok) : m.heap.Sound ok := by
  unfold Machine.Sound at hm
  split at hm
  · exact hm.choose_spec.choose_spec.1.heap
  · exact hm.choose_spec.choose_spec.1
  · exact hm.choose_spec.choose_spec.heap
  · exact hm.choose_spec.choose_spec.heap
  · exact hm.1
  · exact hm

/-- A program settled in the scope of the globals starts soundly, whatever ran before it. -/
theorem Machine.Sound.load {statements : List Stmt} {distances : Distances}
    (hheap : m.heap.Sound ok) (hs : BodySettled (ok distances) [[]] false statements) :
    (m.load statements distances).Sound ok := by
  have hhost : m.heap.Hosts Machine.globals [[]] :=
    ⟨.globals hheap.globals.1 hheap.globals.2 fun name hl => by simp at hl,
      fun hne => absurd rfl hne⟩
  exact ⟨false, [[]], hheap, hhost, .program hs .ended⟩

/-- A machine that has run nothing holds no function but the built-in ones. -/
theorem Machine.sound_ofClock (clock : Clock) : (Machine.ofClock clock).heap.Sound ok where
  globals := ⟨Nat.zero_lt_one, rfl⟩
  closures c hc := absurd hc (by simp [Machine.ofClock, Machine.builtins, Machine.install,
    Heap.newNative, Heap.define, Heap.newFrame, Heap.empty])
  methods y hy := absurd hy (by simp [Machine.ofClock, Machine.builtins, Machine.install,
    Heap.newNative, Heap.define, Heap.newFrame, Heap.empty])

end Step

end YouthLang

import YouthLang.Proofs.Homes

/-!
# Proofs/Receivers — `me` is the object that the method was read off

A method that is read off an object is a new function in a new frame, and that frame binds the receiver
and nothing else.  A session keeps no list of the methods that were bound, but its runs determine one
(`Session.bindings`).  Two invariants tie the frames of a run to it: the frames that bind the receiver
are just those that were made for the bound methods, and are as they were made (`Heap.Records`); and the
frame that a mention of the receiver finds at its distance is that of a method which contains it
(`Homed`, which is heritable).  So a mention always has the object that its method was read off as its
value (`Session.me_receiver`).
-/

namespace YouthLang

/-! ## Methods that are bound

A binding is what reading a method off an object makes: the object, the method, and the numbers of
the new frame and the new function. -/

/-- A method that was read off an object, with the frame and the number of the function made for it. -/
structure Binding where
  object : Nat
  method : Closure
  frame : Nat
  function : Nat

namespace Machine

variable (m : Machine)

/-- The method that the next step reads off an object. -/
def binding? : Option Binding :=
  match m.control, m.pending with
  | .value (.object id), .get name :: _ =>
    match m.heap.objects[id]?.bind fun o => o.fields.lookup name.lexeme with
    | some _ => none
    | none => ((m.heap.youthOf? id).bind fun y => y.methods.lookup name.lexeme).map fun c =>
        ⟨id, c, m.heap.frames.size, m.heap.closures.size⟩
  | _, _ => none

/-- The methods that the first steps read off objects, first to last. -/
def bindings (n : Nat) : List Binding := (List.range n).filterMap fun k => (m.run k).binding?

end Machine

/-- What a step that binds no method does to a heap: it gives a name another value, or it declares one
by a statement of the current frame, or it makes something that is new. -/
inductive Machine.Alters (m : Machine) (N : Token → Prop) (J : Heap → Nat → Distances → Code → Prop) :
    Heap → Prop
  | same : m.Alters N J m.heap
  | rebind {g : Nat} {t : Token} {v : Value} (hname : N t)
      (hbound : (m.heap.bound? g t.lexeme).isSome) : m.Alters N J (m.heap.define g t.lexeme v)
  | object {o : Object} : m.Alters N J (m.heap.newObject o)
  | field {id : Nat} {name : Text} {v : Value} : m.Alters N J (m.heap.setField id name v)
  | «variable» {s : Stmt} {t : Token} {v : Value} (hs : J m.heap m.frame m.distances (.stmt s))
      (ht : t ∈ (Code.stmt s).names) : m.Alters N J (m.heap.define m.frame t.lexeme v)
  | function {f : Function} {v : Value} (hs : J m.heap m.frame m.distances (.stmt (.function f))) :
      m.Alters N J ((m.heap.newClosure (m.closureOf f)).define m.frame f.name.lexeme v)
  | youth {s : Stmt} {y : Youth} {t : Token} {v : Value}
      (hs : J m.heap m.frame m.distances (.stmt s)) (ht : t ∈ (Code.stmt s).names) :
      m.Alters N J ((m.heap.newYouth y).define m.frame t.lexeme v)
  | block : m.Alters N J (m.heap.newFrame (some m.frame) [])
  | enters {c : Closure} {bindings : Bindings} (hc : c ∈ m.heap.closures)
      (hb : ∀ name, (bindings.lookup name).isSome →
        ∃ p ∈ c.declaration.parameters, p.lexeme = name) :
      m.Alters N J (m.heap.newFrame (some c.frame) bindings)

/-! ## Steps that leave the heap as it is -/

namespace Machine

variable {m : Machine} {v : Value} {t : Token}

@[simp] theorem heap_turn (c : Control) : (m.turn c).heap = m.heap := rfl

@[simp] theorem heap_failAt (cause : RuntimeCause) : (m.failAt t cause).heap = m.heap := rfl

@[simp] theorem heap_evalFor (e : Expr) (p : Pending) : (m.evalFor e p).heap = m.heap := rfl

@[simp] theorem heap_valueOr (v : Option Value) (cause : RuntimeCause) :
    (m.valueOr v t cause).heap = m.heap := by
  cases v <;> rfl

@[simp] theorem heap_lookUp (node : Nat) : (m.lookUp node t).heap = m.heap := by
  unfold lookUp
  split <;> simp

@[simp] theorem heap_eval (e : Expr) : (m.eval e).heap = m.heap := by
  cases e <;> simp [Machine.eval]

@[simp] theorem heap_applyUnary (op : UnaryOp) : (m.applyUnary op t v).heap = m.heap := by
  unfold applyUnary
  split <;> rfl

@[simp] theorem heap_applyBinary (op : BinaryOp) (w : Value) :
    (m.applyBinary op t v w).heap = m.heap := by
  unfold applyBinary
  split <;> rfl

@[simp] theorem heap_callNative (b : Builtin) (arguments : List Value) :
    (m.callNative b t arguments).heap = m.heap := by
  cases b with
  | len =>
    simp only [callNative]
    split <;> rfl
  | _ => rfl

@[simp] theorem heap_resume (p : Pending) : (m.resume p).heap = m.heap := by
  unfold resume
  split <;> rfl

@[simp] theorem heap_takeGiven (p : Pending) : (m.takeGiven v p).heap = m.heap := by
  unfold takeGiven
  split <;> rfl

@[simp] theorem heap_unwind (d : Diagnostic) (p : Pending) : (m.unwind d p).heap = m.heap := by
  unfold unwind
  split <;> rfl

end Machine

/-! ## Steps that change the heap

Of the steps that change the heap, only those that read a property may bind a receiver. -/

namespace Machine

variable {m : Machine} {v : Value} {p : Pending} {rest : List Pending} {b : Binding}
  {T N : Token → Prop} {J : Heap → Nat → Distances → Code → Prop}

/-- A step that binds a method makes a frame with the receiver, and a function in it. -/
theorem step_of_binding? (hb : m.binding? = some b) :
    b.frame = m.heap.frames.size ∧ b.function = m.heap.closures.size
      ∧ (∃ y name, m.heap.youthOf? b.object = some y ∧ (name, b.method) ∈ y.methods)
      ∧ m.step.heap = (m.heap.newFrame (some b.method.frame) [(receiver, .object b.object)]).newClosure
          { b.method with frame := b.frame }
      ∧ m.step.control = .value (.function b.function) := by
  unfold binding? at hb
  split at hb
  · next id name rest hvalue hpending =>
    split at hb
    · exact absurd hb (by simp)
    · next hfield =>
      obtain ⟨c, hc, rfl⟩ := Option.map_eq_some_iff.mp hb
      obtain ⟨y, hy, hl⟩ := Option.bind_eq_some_iff.mp hc
      obtain ⟨before, after, heq, -⟩ := List.lookup_eq_some_iff.mp hl
      have hstep : m.step = { m with
          heap := (m.heap.newFrame (some c.frame) [(receiver, .object id)]).newClosure
            { c with frame := m.heap.frames.size }
          pending := rest
          control := .value (.function m.heap.closures.size) } := by
        simp only [step, hvalue, hpending, receive, property, hfield, hc]
      exact ⟨rfl, rfl, ⟨y, name.lexeme, hy, by simp [heq]⟩, by rw [hstep], by rw [hstep]⟩
  · exact absurd hb (by simp)

/-- An assignment gives another value to a name that is bound. -/
theorem Alters.assign {m₀ : Machine} {node : Nat} {t : Token} (hheap : m.heap = m₀.heap)
    (hname : N t) : m₀.Alters N J (m.assign node t v).heap := by
  unfold Machine.assign
  split
  next frame? cause heq =>
  cases frame? with
  | none => exact hheap ▸ .same
  | some g =>
    have hbound : (m.heap.bound? g t.lexeme).isSome := by
      split at heq
      · exact Heap.bound?_of_binderAt? (Prod.mk.inj heq).1
      · exact Heap.bound?_of_binder? (Prod.mk.inj heq).1
    exact hheap ▸ .rebind hname (hheap ▸ hbound)

/-- A property that is no method. -/
theorem Alters.property {name : Token} (hnone : m.binding? = none) (hvalue : m.control = .value v)
    (hpending : m.pending = .get name :: rest) :
    m.Alters N J (Machine.property { m with pending := rest } v name).heap := by
  cases v with
  | object id =>
    simp only [binding?, hvalue, hpending] at hnone
    simp only [Machine.property]
    split
    · exact .same
    · next hfield =>
      rw [hfield] at hnone
      split
      · next c hc => exact absurd ((Option.map_eq_none_iff.mp hnone).symm.trans hc) (by simp)
      · exact .same
  | _ => exact .same

/-- A call enters a function, makes an object, or leaves the heap as it is. -/
theorem Alters.call {m₀ : Machine} {callee : Value} {paren : Token} {arguments : List Value}
    (hheap : m.heap = m₀.heap) : m₀.Alters N J (m.call callee paren arguments).heap := by
  unfold Machine.call
  split
  · exact hheap ▸ .same
  · split
    · exact hheap ▸ .same
    · split
      · exact hheap ▸ .same
      · unfold Machine.enter
        split
        · split
          · rw [heap_callNative]
            exact hheap ▸ .same
          · exact hheap ▸ .same
        · split
          · next c hc =>
            have hentered : m₀.Alters N J (m₀.heap.newFrame (some c.frame) _) :=
              .enters (hheap ▸ Array.mem_of_getElem? hc) fun name =>
                Holds.exists_parameter c.declaration.parameters arguments
            simpa only [callClosure, hheap] using hentered
          · exact hheap ▸ .same
        · simpa only [hheap] using (Alters.object : m₀.Alters N J _)
        · exact hheap ▸ .same

/-- The first step of a statement. -/
theorem Alters.exec {s : Stmt} (hs : J m.heap m.frame m.distances (.stmt s)) :
    m.Alters N J (m.exec s).heap := by
  cases s with
  | declare name value =>
    cases value with
    | none => exact .variable hs (by simp [Code.names])
    | some value => exact .same
  | give keyword value => cases value <;> exact .same
  | block body => exact .block
  | function f => exact .function hs
  | youth name methods => exact .youth hs (by simp [Code.names])
  | _ => exact .same

/-- A task that takes its value. -/
theorem Alters.receive (hnone : m.binding? = none) (hvalue : m.control = .value v)
    (hpending : m.pending = p :: rest) (hp : p.Carries T N J m.heap m.setting) :
    m.Alters N J (Machine.receive { m with pending := rest } v p).heap := by
  cases p with
  | unary op t => exact (heap_applyUnary op).symm ▸ .same
  | binary op t left => exact (heap_applyBinary op v).symm ▸ .same
  | logical op right => cases op <;> (simp only [Machine.receive]; split) <;> exact .same
  | assign node name => exact Alters.assign rfl (hp.names name (by simp [Pending.names]))
  | get name => exact Alters.property hnone hvalue hpending
  | setObject name value =>
    simp only [Machine.receive]
    split <;> exact .same
  | set name object => exact .field
  | callee paren arguments =>
    cases arguments with
    | nil => exact Alters.call rfl
    | cons e es => exact .same
  | argument paren callee read arguments =>
    cases arguments with
    | nil => exact Alters.call rfl
    | cons e es => exact .same
  | declare name =>
    exact .variable (hp.parts (.stmt (.declare name none)) (by simp [Pending.parts]))
      (by simp [Code.names])
  | branch yes no =>
    simp only [Machine.receive]
    cases no <;> split <;> exact .same
  | loopTest condition body =>
    simp only [Machine.receive]
    split <;> exact .same
  | _ => exact .same

/-- **A step that binds no method alters the heap in one of few ways.** -/
theorem Carries.alters (hm : m.Carries T N J) (hnone : m.binding? = none) : m.Alters N J m.step.heap := by
  obtain ⟨⟨-, htasks⟩, hcontrol⟩ := hm
  unfold Machine.step
  split
  · rw [heap_eval]
    exact .same
  · next s hexec =>
    rw [hexec] at hcontrol
    exact .exec hcontrol
  · next v p rest hvalue hpending =>
    rw [hpending] at htasks
    exact .receive hnone hvalue hpending htasks.1
  · rw [heap_resume]
    exact .same
  · rw [heap_takeGiven]
    exact .same
  · rw [heap_unwind]
    exact .same
  · exact .same
  · exact .same
  · exact .same
  · exact .same

end Machine

/-! ## The frames that bind the receiver

A frame binds the receiver from the start or never.  So what is known of those frames is carried
along by every change that adds no such frame. -/

namespace Heap

variable {h h' h'' : Heap} {f : Nat} {name : Text} {v : Value} {log : List Binding} {b : Binding}

/-- A heap has a bound method as it was made: the frame binds the receiver to the object and nothing
else, the function is the method in that frame, and no other function is in it; the method is one of the
youth of the object. -/
structure Has (h : Heap) (b : Binding) : Prop where
  frame : h.frames[b.frame]? = some ⟨some b.method.frame, [(receiver, .object b.object)]⟩
  function : h.closures[b.function]? = some { b.method with frame := b.frame }
  only : ∀ (id : Nat) c, h.closures[id]? = some c → c.frame = b.frame → id = b.function
  youth : ∃ y name, h.youthOf? b.object = some y ∧ (name, b.method) ∈ y.methods

/-- A frame that a binding made has its object under the receiver's name. -/
theorem Has.bound? (hb : h.Has b) : h.bound? b.frame receiver = some (.object b.object) := by
  simp [Heap.bound?, hb.frame]

/-- Some bound methods are all that there are: the heap has each, and no other frame binds the
receiver. -/
structure Records (h : Heap) (log : List Binding) : Prop where
  has : ∀ b ∈ log, h.Has b
  binder : ∀ f, (h.bound? f receiver).isSome → ∃ b ∈ log, b.frame = f

/-- A heap leaves another one's receivers alone: the frames that bind one stay as they are, no other
frame gets one, and no function is declared in such a frame. -/
structure Spares (h h' : Heap) : Prop extends h.Keeps h' where
  receivers : ∀ f, (h.bound? f receiver).isSome → h'.frames[f]? = h.frames[f]?
  plain : ∀ f, (h'.bound? f receiver).isSome → (h.bound? f receiver).isSome
  functions : ∀ (id : Nat) c, h'.closures[id]? = some c →
    h.closures[id]? = some c ∨ h'.bound? c.frame receiver = none
  objects : ∀ id y, h.youthOf? id = some y → h'.youthOf? id = some y

namespace Spares

/-- A frame without a receiver does not get one later. -/
theorem unbound (hs : h.Spares h') (hnone : h.bound? f receiver = none) :
    h'.bound? f receiver = none := by
  refine Option.not_isSome_iff_eq_none.mp fun hsome => ?_
  have := hs.plain f hsome
  simp [hnone] at this

/-- So frames that are plain remain plain. -/
theorem keepsPlain (hs : h.Spares h') : h.KeepsPlain h' where
  toKeeps := hs.toKeeps
  plain _ hf := ⟨Nat.lt_of_lt_of_le hf.1 hs.size, hs.unbound hf.2⟩

/-- Every heap spares its own receivers. -/
theorem refl (h : Heap) : h.Spares h where
  toKeeps := .refl h
  receivers _ _ := rfl
  plain _ hb := hb
  functions _ _ hc := .inl hc
  objects _ _ hy := hy

/-- What is spared twice is spared. -/
theorem trans (hs : h.Spares h') (hs' : h'.Spares h'') : h.Spares h'' where
  toKeeps := hs.toKeeps.trans hs'.toKeeps
  receivers f hb := by
    have heq := hs.receivers f hb
    refine (hs'.receivers f ?_).trans heq
    simpa only [Heap.bound?, heq] using hb
  plain f hb := hs.plain f (hs'.plain f hb)
  functions id c hc := by
    rcases hs'.functions id c hc with hold | hnew
    · exact (hs.functions id c hold).imp_right hs'.unbound
    · exact .inr hnew
  objects id y hy := hs'.objects id y (hs.objects id y hy)

/-- A name other than the receiver's is given a value in a frame that does not bind the receiver. -/
theorem define (hf : h.bound? f receiver = none) (hname : name ≠ receiver) :
    h.Spares (h.define f name v) where
  toKeeps := .of_grows (@Grows.define h f name v) rfl (.inl rfl) (.inl rfl)
  receivers g hb := by
    have hne : f ≠ g := fun heq => by simp [← heq, hf] at hb
    simp [Heap.define, Array.getElem?_modify, hne]
  plain g hb := by rwa [bound?_define_of_name_ne hname.symm] at hb
  functions _ _ hc := .inl hc
  objects _ _ hy := hy

/-- A new frame without a receiver leaves the others as they are. -/
theorem newFrame {parent : Option Nat} {bindings : Bindings}
    (hbindings : bindings.lookup receiver = none) : h.Spares (h.newFrame parent bindings) where
  toKeeps := .newFrame
  receivers f hb := by
    simp [Heap.newFrame, Array.getElem?_push, Nat.ne_of_lt (bound?_isSome_lt hb)]
  plain f hb := by
    rcases Nat.lt_succ_iff_lt_or_eq.mp (by simpa using bound?_isSome_lt hb) with hlt | rfl
    · rwa [bound?_newFrame_of_lt hlt] at hb
    · simp [hbindings] at hb
  functions _ _ hc := .inl hc
  objects _ _ hy := hy

/-- A function in a frame that does not bind the receiver. -/
theorem newClosure {c : Closure} (hc : h.bound? c.frame receiver = none) :
    h.Spares (h.newClosure c) where
  toKeeps := .of_grows (@Grows.of_frames_eq h _ 0 rfl) rfl (.inr ⟨c, rfl⟩) (.inl rfl)
  receivers _ _ := rfl
  plain _ hb := hb
  functions id d hd := by
    rw [Heap.newClosure, Array.getElem?_push] at hd
    split at hd
    · obtain rfl := Option.some.inj hd
      exact .inr hc
    · exact .inl hd
  objects _ _ hy := hy

/-- A new class has no frame. -/
theorem newYouth {y : Youth} : h.Spares (h.newYouth y) where
  toKeeps := .of_grows (@Grows.of_frames_eq h _ 0 rfl) rfl (.inl rfl) (.inr ⟨y, rfl⟩)
  receivers _ _ := rfl
  plain _ hb := hb
  functions _ _ hc := .inl hc
  objects id z hz := by
    obtain ⟨o, ho, hz⟩ := Option.bind_eq_some_iff.mp hz
    refine Option.bind_eq_some_iff.mpr ⟨o, ho, ?_⟩
    rw [Heap.newYouth, Array.getElem?_push_lt (Array.getElem?_eq_some_iff.mp hz).choose]
    exact (Array.getElem?_eq_getElem _).symm.trans hz

/-- Nor has a new object. -/
theorem newObject {o : Object} : h.Spares (h.newObject o) where
  toKeeps := .of_grows (@Grows.of_frames_eq h _ 0 rfl) rfl (.inl rfl) (.inl rfl)
  receivers _ _ := rfl
  plain _ hb := hb
  functions _ _ hc := .inl hc
  objects id z hz := by
    obtain ⟨o', ho, hz⟩ := Option.bind_eq_some_iff.mp hz
    refine Option.bind_eq_some_iff.mpr ⟨o', ?_, hz⟩
    rw [Heap.newObject, Array.getElem?_push_lt (Array.getElem?_eq_some_iff.mp ho).choose]
    exact (Array.getElem?_eq_getElem _).symm.trans ho

/-- Nor does a field live in one. -/
theorem setField {id : Nat} : h.Spares (h.setField id name v) where
  toKeeps := .of_grows (@Grows.of_frames_eq h _ 0 rfl) rfl (.inl rfl) (.inl rfl)
  receivers _ _ := rfl
  plain _ hb := hb
  functions _ _ hc := .inl hc
  objects other y hy := by
    obtain ⟨o, ho, hy⟩ := Option.bind_eq_some_iff.mp hy
    rw [youthOf?, Heap.setField, Array.getElem?_modify]
    split
    · simpa [ho] using hy
    · simpa [ho] using hy

end Spares

/-- What leaves the receivers alone keeps the bound methods. -/
theorem Records.spares (hr : h.Records log) (hs : h.Spares h') : h'.Records log where
  has b hb := by
    have hhas := hr.has b hb
    have hbound : (h.bound? b.frame receiver).isSome := by simp [hhas.bound?]
    refine ⟨(hs.receivers _ hbound).trans hhas.frame, hs.closures _ _ hhas.function,
      fun id c hc hframe => ?_, ?_⟩
    · rcases hs.functions id c hc with hold | hplain
      · exact hhas.only id c hold hframe
      · have := hs.bound _ _ hbound
        rw [hframe] at hplain
        simp [hplain] at this
    · obtain ⟨y, name, hy, hmethod⟩ := hhas.youth
      exact ⟨y, name, hs.objects _ _ hy, hmethod⟩
  binder f hf := hr.binder f (hs.plain f hf)

/-- A frame that binds the receiver binds nothing else. -/
theorem Records.plain_of_bound (hr : h.Records log) (hname : name ≠ receiver)
    (hb : (h.bound? f name).isSome) : h.bound? f receiver = none := by
  refine Option.not_isSome_iff_eq_none.mp fun hsome => ?_
  obtain ⟨b, hmem, rfl⟩ := hr.binder f hsome
  have hne : (name == receiver) = false := by simpa using hname
  simp [Heap.bound?, (hr.has b hmem).frame, List.lookup_cons, hne] at hb

/-- A method bound in a new frame. -/
theorem Records.bind (hr : h.Records log) (hclosures : ∀ c ∈ h.closures, c.frame < h.frames.size)
    (hframe : b.frame = h.frames.size) (hfunction : b.function = h.closures.size)
    (hyouth : ∃ y name, h.youthOf? b.object = some y ∧ (name, b.method) ∈ y.methods)
    (heq : h' = (h.newFrame (some b.method.frame) [(receiver, .object b.object)]).newClosure
      { b.method with frame := b.frame }) : h'.Records (log ++ [b]) := by
  -- The new heap has one closure more, and no older one runs in the new frame.
  have hold : ∀ (id : Nat) c, h'.closures[id]? = some c →
      h.closures[id]? = some c ∨ id = b.function ∧ c.frame = b.frame := by
    intro id c hc
    rw [heq, Heap.newClosure, Array.getElem?_push] at hc
    split at hc
    · next hid =>
      obtain rfl := Option.some.inj hc
      exact .inr ⟨hid.trans hfunction.symm, rfl⟩
    · exact .inl hc
  have hlt : ∀ (id : Nat) c, h.closures[id]? = some c → c.frame ≠ b.frame := fun id c hc hf =>
    Nat.lt_irrefl _ (hframe ▸ hf ▸ hclosures c (Array.mem_of_getElem? hc))
  refine ⟨List.forall_mem_append.mpr ⟨fun d hd => ?_, List.forall_mem_singleton.mpr ?_⟩, fun f hf => ?_⟩
  -- Older bindings keep what they have, at their old numbers.
  · have hhas := hr.has d hd
    have hdlt := (Array.getElem?_eq_some_iff.mp hhas.frame).choose
    refine ⟨?_, ?_, fun id c hc hf => ?_, ?_⟩
    · rw [heq]
      simpa [Heap.newClosure, Heap.newFrame, Array.getElem?_push, Nat.ne_of_lt hdlt] using hhas.frame
    · have hid := (Array.getElem?_eq_some_iff.mp hhas.function).choose
      rw [heq]
      simpa [Heap.newClosure, Heap.newFrame, Array.getElem?_push, Nat.ne_of_lt hid]
        using hhas.function
    · rcases hold id c hc with hc | ⟨-, hnew⟩
      · exact hhas.only id c hc hf
      · exact absurd (hf.symm.trans (hnew.trans hframe)) (Nat.ne_of_lt hdlt)
    · rw [heq]
      exact hhas.youth
  -- The new one has the frame, the closure and the object just made.
  · refine ⟨?_, ?_, fun id c hc hf => ?_, ?_⟩
    · simp [heq, hframe, Heap.newClosure, Heap.newFrame]
    · simp [heq, hfunction, Heap.newClosure, Heap.newFrame]
    · exact (hold id c hc).elim (fun hc => absurd hf (hlt id c hc)) And.left
    · rw [heq]
      exact hyouth
  -- A frame that binds the receiver is an old one, which has its record, or the new one.
  · rw [heq] at hf
    have hf : ((h.newFrame (some b.method.frame) [(receiver, .object b.object)]).bound? f
        receiver).isSome := hf
    rcases Nat.lt_succ_iff_lt_or_eq.mp (by simpa using bound?_isSome_lt hf) with hlt | rfl
    · rw [bound?_newFrame_of_lt hlt] at hf
      obtain ⟨d, hd, hframe⟩ := hr.binder f hf
      exact ⟨d, List.mem_append_left _ hd, hframe⟩
    · exact ⟨b, by simp, hframe⟩

end Heap

/-! ## Runs -/

namespace Machine

variable {m : Machine} {log : List Binding} {b : Binding} {ok : Distances → Visit → Prop}

/-- A step that binds no method leaves the receivers alone. -/
theorem Alters.spares {h : Heap} (ha : m.Alters (fun t => t.lexeme ≠ receiver) Homed h)
    (hr : m.heap.Records log) (hheap : m.heap.Carries Homed) : m.heap.Spares h := by
  cases ha with
  | same => exact .refl _
  | rebind hname hbound => exact .define (hr.plain_of_bound hname hbound) hname
  | object => exact .newObject
  | field => exact .setField
  | «variable» hs ht => exact .define (hs.plain trivial).2 (hs.ne_receiver ht)
  | @function f v hs =>
    have hplain := (hs.plain trivial).2
    exact (Heap.Spares.newClosure (c := m.closureOf f) hplain).trans
      (.define hplain (hs.ne_receiver (by simp [Code.names])))
  | youth hs ht => exact Heap.Spares.newYouth.trans (.define (hs.plain trivial).2 (hs.ne_receiver ht))
  | block => exact .newFrame rfl
  | @enters c bindings hc hb =>
    refine .newFrame (Option.not_isSome_iff_eq_none.mp fun hsome => ?_)
    obtain ⟨p, hp, hname⟩ := hb receiver hsome
    have hformed := (hheap.functions c hc).formed
    obtain ⟨⟨_, parameters, body⟩, _, _⟩ := c
    exact Token.IsName.ne_receiver (hformed.2.1 p hp) hname

/-- Everything that the machine has still to do is at home, some bound methods are all that there are,
and the globals do not bind the receiver. -/
structure Minds (m : Machine) (log : List Binding) : Prop where
  carries : m.Carries (fun _ => True) (fun t => t.lexeme ≠ receiver) Homed
  records : m.heap.Records log
  globals : m.heap.IsPlain globals

/-- **One step keeps the receivers**, and adds the method that it binds. -/
theorem Minds.step (hm : m.Minds log) (hs : m.Sound ok) :
    m.step.Minds (log ++ m.binding?.toList) := by
  obtain ⟨hcarries, hrecords, hglobals⟩ := hm
  cases hb : m.binding? with
  | none =>
    have hspares := (hcarries.alters hb).spares hrecords hcarries.heap
    rw [Option.toList_none, List.append_nil]
    exact ⟨hcarries.step Homed.heritable hs.ready hspares.keepsPlain, hrecords.spares hspares,
      hspares.keepsPlain.plain _ hglobals⟩
  | some b =>
    obtain ⟨hframe, hfunction, hyouth, hheap, -⟩ := step_of_binding? hb
    have hlt : ∀ c ∈ m.heap.closures, c.frame < m.heap.frames.size := fun c hc => by
      obtain ⟨scopes, hrealizes, -⟩ := hs.heap.closures c hc
      exact hrealizes.lt_size
    have hplain : ∀ f, m.heap.IsPlain f → m.step.heap.IsPlain f := fun f hf => by
      rw [hheap]
      exact ⟨by simpa [Heap.newClosure] using Nat.lt_succ_of_lt hf.1,
        (Heap.bound?_newFrame_of_lt hf.1 _).trans hf.2⟩
    exact ⟨hcarries.step Homed.heritable hs.ready ⟨hs.move.keeps, hplain⟩,
      hrecords.bind hlt hframe hfunction hyouth hheap, hplain _ hglobals⟩

/-- The bindings of one more step are those before it and the one it makes, if it makes one. -/
theorem bindings_succ (m : Machine) (n : Nat) :
    m.bindings (n + 1) = m.bindings n ++ (m.run n).binding?.toList := by
  rw [bindings, List.range_succ, List.filterMap_append, ← bindings, List.filterMap_cons,
    List.filterMap_nil]
  cases (m.run n).binding? <;> rfl

/-- **A run keeps the receivers.** -/
theorem Minds.run (hm : m.Minds log) (hs : m.Sound ok) : ∀ n,
    (m.run n).Minds (log ++ m.bindings n)
  | 0 => by
      rw [bindings, List.range_zero, List.filterMap_nil, List.append_nil]
      exact hm
  | n + 1 => by
      rw [run_succ, bindings_succ, ← List.append_assoc]
      exact (hm.run hs n).step (hs.run n)

/-- **A mention of the receiver is the object of the bound method it is in.** -/
theorem Minds.me (hm : m.Minds log) {node : Nat} {keyword : Token}
    (heval : m.control = .eval (.me node keyword)) :
    ∃ b ∈ log, (∃ scopes, (node, scopes) ∈ b.method.declaration.mentions)
      ∧ (∃ d, m.heap.ancestor? m.frame (d + 1) = some b.frame)
      ∧ m.step = m.turn (.value (.object b.object)) := by
  have hhomed : Homed m.heap m.frame m.distances (.expr (.me node keyword)) := by
    have := hm.carries.control
    rwa [heval] at this
  have hname : keyword.lexeme = receiver := by
    obtain ⟨hkind, hspelled⟩ := hhomed.references ⟨.receiver, keyword, node⟩ (by
      simp [Code.references, Expr.references])
    exact hspelled.2 hkind
  obtain ⟨steps, ⟨c, hc, hancestor, hbound, hmention⟩, hdistance⟩ := hhomed.mentions node 0 (by
    simp [Code.mentions, Expr.mentions, Expr.references])
  -- The frame that the walk stops at binds the receiver, so it belongs to a binding on record.
  obtain ⟨b, hb, hframe⟩ := hm.records.binder c.frame hbound
  have hhas := hm.records.has b hb
  obtain ⟨id, hid⟩ := Array.getElem?_of_mem hc
  obtain rfl := hhas.only id c hid hframe.symm
  obtain rfl := Option.some.inj (hhas.function.symm.trans hid)
  refine ⟨b, hb, hmention, ?_, ?_⟩
  · -- the frame itself is none that binds the receiver
    cases steps with
    | zero =>
      have hplain := (hhomed.plain trivial).2
      rw [show m.frame = b.frame from Option.some.inj hancestor, hhas.bound?] at hplain
      exact absurd hplain (by simp)
    | succ d => exact ⟨d, hancestor⟩
  · have hvalue : m.heap.getAt? m.frame steps receiver = some (.object b.object) :=
      (Heap.getAt?_of_ancestor? hancestor).trans hhas.bound?
    rw [Nat.add_zero] at hdistance
    simp only [Machine.step, heval, Machine.eval, lookUp, hdistance, hname, hvalue, valueOr]

/-- A machine at its start has bound no receiver, and its global frame is plain. -/
theorem minds_ofClock (clock : Clock) : (ofClock clock).heap.Carries Homed
    ∧ (ofClock clock).heap.Records [] ∧ (ofClock clock).heap.IsPlain globals := by
  have hglobals : (ofClock clock).heap.bound? globals receiver = none := by cbv
  refine ⟨carries_ofClock clock, ⟨by simp, fun f hf => ?_⟩, Nat.zero_lt_one, hglobals⟩
  have hlt : f < 1 := Heap.bound?_isSome_lt hf
  obtain rfl : f = globals := Nat.lt_one_iff.mp hlt
  simp [hglobals] at hf

end Machine

/-! ## Sessions -/

namespace Session

variable {s : Session} {file source : Text} {node : Nat} {clock : Clock} {past : Past}

/-- The methods that were bound in the runs of some more sources, first to last. -/
def bindings (s : Session) : Past → List Binding
  | [] => []
  | (fuel, source) :: rest =>
    (if (analyse s.node s.file source).diagnostics = [] then (s.machineAt source 0).bindings fuel
      else []) ++ ((s.run fuel source).1).bindings rest

/-- The bindings of one past behind another are those of both in turn. -/
theorem bindings_append (past more : Past) : ∀ s : Session,
    s.bindings (past ++ more) = s.bindings past ++ (s.after past).bindings more := by
  induction past with
  | nil => exact fun _ => rfl
  | cons entry rest ih =>
    intro s
    simp only [List.cons_append, bindings, ih, after, List.append_assoc]

/-- The functions of a session are at home, some bound methods are all that there are, and the globals
do not bind the receiver. -/
structure Minds (s : Session) (log : List Binding) : Prop where
  sound : s.machine.heap.Sound anywhere
  carries : s.machine.heap.Carries Homed
  records : s.machine.heap.Records log
  globals : s.machine.heap.IsPlain Machine.globals

/-- A source without mistakes starts with everything at home. -/
theorem Minds.load {log : List Binding} (hs : s.Minds log)
    (hclean : (analyse s.node s.file source).diagnostics = []) :
    (s.machineAt source 0).Minds log := by
  obtain ⟨hnumbered, hformed⟩ := analyse_formed s.node s.file source
  obtain ⟨-, hplaced⟩ := placed_of_bodySettled _ (analyse_settled hclean fun _ _ _ hd => hd) hformed
    hnumbered.formed
  have hmentions : bodyMentions (analyse s.node s.file source).statements = [] := by
    have hresolved := List.map_eq_nil_iff.mp (List.append_eq_nil_iff.mp hclean).2
    exact mentions_of_resolveBody (r := ⟨[[]], false, false, ∅, []⟩) rfl _
      (List.reverse_eq_nil_iff.mp hresolved)
  refine ⟨.load hs.carries fun st hst => ?_, hs.records, hs.globals⟩
  refine ⟨hformed.of_mem hst, fun ref href => hnumbered.formed ref (references_subset_of_mem hst href),
    fun m hm => hplaced m (methods_subset_of_mem hst hm), fun n k hmem => ?_, fun _ => hs.globals⟩
  have := mentions_subset_of_mem hst hmem
  simp [hmentions] at this

/-- A source that is run, or is rejected, keeps the receivers. -/
theorem Minds.runs {log : List Binding} (hs : s.Minds log) (fuel : Nat) (source : Text) :
    (s.run fuel source).1.Minds (log
      ++ if (analyse s.node s.file source).diagnostics = [] then (s.machineAt source 0).bindings fuel
        else []) := by
  by_cases hclean : (analyse s.node s.file source).diagnostics = []
  · have hsound : ∀ n, (s.machineAt source n).Sound anywhere := sound_anywhere hs.sound hclean
    have hminds := (hs.load hclean).run (hsound 0) fuel
    rw [run_of_diagnostics_eq_nil fuel hclean, if_pos hclean]
    exact ⟨(hsound fuel).heap, hminds.carries.heap, hminds.records, hminds.globals⟩
  · rw [run_of_diagnostics_ne_nil fuel hclean, if_neg hclean, List.append_nil]
    exact ⟨hs.sound, hs.carries, hs.records, hs.globals⟩

/-- A whole past keeps the log right, source by source. -/
theorem Minds.after : ∀ (past : Past) {s : Session} {log : List Binding}, s.Minds log →
    (s.after past).Minds (log ++ s.bindings past)
  | [], _, _, hs => by
      rw [bindings, List.append_nil]
      exact hs
  | (fuel, source) :: rest, s, log, hs => by
      rw [Session.after, bindings, ← List.append_assoc]
      exact (hs.runs fuel source).after rest

/-- **`me` is always the object that the method around it was read off.**  Behind any past of a session,
at any point of the run of a source without mistakes:

* a method that is read off an object is the function that was made for it;
* every method that was read off an object so far is as it was: its frame binds the receiver to that
  object, and nothing else, so nothing has bound the receiver again;
* where the receiver is mentioned, some method was read off an object before, of the innermost youth
  around the mention; what is evaluated is in a call of the function made for it, and the value is that
  object. -/
theorem me_receiver (hs : s = (fresh file node clock).after past)
    (hclean : (analyse s.node s.file source).diagnostics = []) (n : Nat) :
    (∀ b, (s.machineAt source n).binding? = some b →
      (s.machineAt source n).step.control = .value (.function b.function)
        ∧ (s.machineAt source n).step.heap.Has b)
    ∧ (∀ b ∈ (fresh file node clock).bindings (past ++ [(n, source)]),
        (s.machineAt source n).heap.Has b)
    ∧ ∀ mention keyword, (s.machineAt source n).control = .eval (.me mention keyword) →
        ∃ b ∈ (fresh file node clock).bindings (past ++ [(n, source)]),
          (∃ scopes, (mention, scopes) ∈ b.method.declaration.mentions)
          ∧ (∃ d, (s.machineAt source n).heap.ancestor? (s.machineAt source n).frame (d + 1)
              = some b.frame)
          ∧ (s.machineAt source n).step = (s.machineAt source n).turn (.value (.object b.object)) := by
  obtain ⟨hcarries, hrecords, hglobals⟩ := Machine.minds_ofClock clock
  have hfresh : (fresh file node clock).Minds [] :=
    ⟨Machine.sound_ofClock clock, hcarries, hrecords, hglobals⟩
  have hafter : s.Minds ((fresh file node clock).bindings past) := hs ▸ hfresh.after past
  have hsound : ∀ n, (s.machineAt source n).Sound anywhere := sound_anywhere hafter.sound hclean
  have hlog : (fresh file node clock).bindings (past ++ [(n, source)])
      = (fresh file node clock).bindings past ++ (s.machineAt source 0).bindings n := by
    rw [bindings_append, ← hs]
    simp only [bindings, if_pos hclean, List.append_nil]
  have hminds := (hafter.load hclean).run (hsound 0) n
  rw [hlog]
  refine ⟨fun b hb => ⟨(Machine.step_of_binding? hb).2.2.2.2, ?_⟩, hminds.records.has,
    fun mention keyword heval => hminds.me heval⟩
  exact (hminds.step (hsound n)).records.has b (by
    rw [show Machine.run n (s.machineAt source 0) = s.machineAt source n from rfl, hb]
    simp)

/-- A session in which a method has given back a function of its own, which mentions the receiver. -/
def escaped : Session :=
  (fresh [] 0 ⟨0, []⟩).after
    [(21, "youth A ( listen f() ( listen g() ( give me; ) give g; ) ) is g = A().f();")]

/-- The function is called by a later source, and its mention is the object that the method was read
off. -/
theorem me_receiver_escaped : ∃ object, (escaped.machineAt "g();" 7).step
    = (escaped.machineAt "g();" 7).turn (.value (.object object)) := by
  obtain ⟨-, -, hme⟩ := @me_receiver escaped [] "g();" 0 ⟨0, []⟩ _ rfl (by decide +kernel) 7
  obtain ⟨b, -, -, -, hstep⟩ := hme 1 ⟨.meKey, "me", ⟨1, 42⟩⟩ (by cbv)
  exact ⟨b.object, hstep⟩

end Session

end YouthLang

import Mathlib
import YouthLang.Proofs.Moves
import YouthLang.Proofs.Renaming

/-!
# Proofs/Discipline — what an execution puts back

A piece of code that is executed may enter blocks and calls, in whatever depth, and leave them by
ending, by giving or by failing.  While it is under way (`Machine.Underway`), the tasks above those that
waited at its start lead back to the frame, the table and the depth it started with; so they are as they
were when it has ended (`Session.frame_discipline`).  The heap has only grown by then, and only the
frame it started in may have new names.
-/

namespace YouthLang

/-! ## What a heap keeps -/

namespace Heap

variable {h h' h'' : Heap} {f current : Nat} {name : Text} {v : Value} {bindings : Bindings}
  {parent : Option Nat}

/-- Frames keep their parents and their names, and functions and youths stay as they are. -/
structure Keeps (h h' : Heap) : Prop where
  size : h.frames.size ≤ h'.frames.size
  parent : ∀ f < h.frames.size, h'.parent? f = h.parent? f
  bound : ∀ f name, (h.bound? f name).isSome → (h'.bound? f name).isSome
  natives : h'.natives = h.natives
  closures : ∀ (id : Nat) c, h.closures[id]? = some c → h'.closures[id]? = some c
  youths : ∀ (id : Nat) y, h.youths[id]? = some y → h'.youths[id]? = some y

/-- A heap keeps all it has. -/
theorem Keeps.refl (h : Heap) : h.Keeps h :=
  ⟨Nat.le_refl _, fun _ _ => rfl, fun _ _ hb => hb, rfl, fun _ _ hc => hc, fun _ _ hy => hy⟩

/-- What is kept twice is kept. -/
theorem Keeps.trans (hk : h.Keeps h') (hk' : h'.Keeps h'') : h.Keeps h'' where
  size := Nat.le_trans hk.size hk'.size
  parent f hf := (hk'.parent f (Nat.lt_of_lt_of_le hf hk.size)).trans (hk.parent f hf)
  bound f name hb := hk'.bound f name (hk.bound f name hb)
  natives := hk'.natives.trans hk.natives
  closures id c hc := hk'.closures id c (hk.closures id c hc)
  youths id y hy := hk'.youths id y (hk.youths id y hy)

/-- A heap that has grown keeps what it had, if it has the same functions and youths and more. -/
theorem Keeps.of_grows (hg : Grows current h h') (hnatives : h'.natives = h.natives)
    (hclosures : h'.closures = h.closures ∨ ∃ c, h'.closures = h.closures.push c)
    (hyouths : h'.youths = h.youths ∨ ∃ y, h'.youths = h.youths.push y) : h.Keeps h' where
  size := hg.size
  parent := hg.parent
  bound := hg.bound
  natives := hnatives
  closures id c hc := by
    rcases hclosures with heq | ⟨d, heq⟩
    · rwa [heq]
    · rw [heq, Array.getElem?_push_lt (Array.getElem?_eq_some_iff.mp hc).choose]
      exact (Array.getElem?_eq_getElem _).symm.trans hc
  youths id y hy := by
    rcases hyouths with heq | ⟨z, heq⟩
    · rwa [heq]
    · rw [heq, Array.getElem?_push_lt (Array.getElem?_eq_some_iff.mp hy).choose]
      exact (Array.getElem?_eq_getElem _).symm.trans hy

/-- A name bound moves no frame and takes no name away. -/
theorem Keeps.define : h.Keeps (h.define f name v) :=
  .of_grows .define rfl (.inl rfl) (.inl rfl)

/-- A new frame leaves the others as they are. -/
theorem Keeps.newFrame : h.Keeps (h.newFrame parent bindings) :=
  .of_grows (@Grows.newFrame h 0 bindings parent) rfl (.inl rfl) (.inl rfl)

/-- A new function leaves all frames as they are. -/
theorem Keeps.newClosure {c : Closure} : h.Keeps (h.newClosure c) :=
  .of_grows (@Grows.of_frames_eq h (h.newClosure c) 0 rfl) rfl (.inr ⟨c, rfl⟩) (.inl rfl)

/-- So does a new class. -/
theorem Keeps.newYouth {y : Youth} : h.Keeps (h.newYouth y) :=
  .of_grows (@Grows.of_frames_eq h (h.newYouth y) 0 rfl) rfl (.inl rfl) (.inr ⟨y, rfl⟩)

/-- So does a new object. -/
theorem Keeps.newObject {o : Object} : h.Keeps (h.newObject o) :=
  .of_grows (@Grows.of_frames_eq h (h.newObject o) 0 rfl) rfl (.inl rfl) (.inl rfl)

/-- So does a field. -/
theorem Keeps.setField {object : Nat} : h.Keeps (h.setField object name v) :=
  .of_grows (@Grows.of_frames_eq h (h.setField object name v) 0 rfl) rfl (.inl rfl) (.inl rfl)

/-- A quiet change is new to no frame that was there. -/
theorem Quiet.grows (hq : h.Quiet h') : Grows current h h' := by
  cases hq with
  | same | object | field => exact .of_frames_eq rfl
  | rebind hbound => exact .redefine hbound
  | method _ _ => exact (Grows.newFrame _).trans (.of_frames_eq rfl)

/-- Every frame but that of the globals was made inside an older one. -/
def Rooted (h : Heap) : Prop :=
  ∀ f < h.frames.size, f ≠ Machine.globals → ∃ p < f, h.parent? f = some p

/-- The chain of a frame reaches the globals. -/
theorem Rooted.reaches (hr : h.Rooted) (f : Nat) (hf : f < h.frames.size) :
    ∃ d, h.ancestor? f d = some Machine.globals := by
  induction f using Nat.strongRecOn with
  | _ f ih =>
    by_cases hglobals : f = Machine.globals
    · exact ⟨0, by rw [hglobals, ancestor?]⟩
    · obtain ⟨p, hlt, hparent⟩ := hr f hf hglobals
      obtain ⟨d, hd⟩ := ih p hlt (Nat.lt_trans hlt hf)
      exact ⟨d + 1, by simpa [ancestor?, hparent] using hd⟩

/-- Whether frames lead to the globals depends on the frames alone. -/
theorem Rooted.of_frames_eq (hr : h.Rooted) (heq : h'.frames = h.frames) : h'.Rooted := by
  intro f hf hne
  rw [heq] at hf
  simpa [parent?, heq] using hr f hf hne

/-- A name bound does not change where frames lead. -/
theorem Rooted.define (hr : h.Rooted) : (h.define current name v).Rooted := by
  intro f hf hne
  rw [size_frames_define] at hf
  simpa using hr f hf hne

/-- A frame made inside another one. -/
theorem Rooted.newFrame {p : Nat} (hr : h.Rooted) (hp : p < h.frames.size) :
    (h.newFrame (some p) bindings).Rooted := by
  intro f hf hne
  rcases Nat.lt_succ_iff_lt_or_eq.mp (by simpa using hf) with hlt | rfl
  · simpa [parent?_newFrame_of_lt hlt] using hr f hlt hne
  · exact ⟨p, hp, parent?_newFrame_self _⟩

end Heap

namespace Machine

variable {m m' : Machine} {ok : Distances → Visit → Prop}

/-! ## What each move keeps -/

/-- A move grows the heap, adding names to the current frame alone. -/
theorem Move.grows (hm : m.Move m') : Heap.Grows m.frame m.heap m'.heap := by
  cases hm with
  | plain _ _ _ _ hquiet => exact hquiet.grows
  | «variable» _ _ => exact .define
  | function _ => exact (@Heap.Grows.of_frames_eq m.heap (m.heap.newClosure _) _ rfl).trans .define
  | youth _ => exact (@Heap.Grows.of_frames_eq m.heap (m.heap.newYouth _) _ rfl).trans .define
  | block _ => exact .newFrame _
  | enters => exact .newFrame _
  | _ => exact .of_frames_eq rfl

/-- So it keeps what was there. -/
theorem Move.keeps (hm : m.Move m') : m.heap.Keeps m'.heap := by
  have hgrows := hm.grows
  cases hm with
  | plain _ _ _ _ hquiet =>
    cases hquiet with
    | method _ _ => exact .of_grows hgrows rfl (.inr ⟨_, rfl⟩) (.inl rfl)
    | _ => exact .of_grows hgrows rfl (.inl rfl) (.inl rfl)
  | function _ => exact .of_grows hgrows rfl (.inr ⟨_, rfl⟩) (.inl rfl)
  | youth _ => exact .of_grows hgrows rfl (.inl rfl) (.inr ⟨_, rfl⟩)
  | _ => exact .of_grows hgrows rfl (.inl rfl) (.inl rfl)

/-- A name that is new to a frame is declared by the move, which the machine makes in that frame. -/
theorem Move.declares (hm : m.Move m') {f : Nat} (hf : f < m.heap.frames.size) {name : Text}
    (hb : (m'.heap.bound? f name).isSome) : (m.heap.bound? f name).isSome
      ∨ f = m.frame ∧ ∃ t, m.declaring? = some t ∧ t.lexeme = name := by
  have hgrows := hm.grows
  by_cases hframe : f = m.frame
  case neg => exact .inl (hgrows.fixed f hf hframe name hb)
  have hdefined : ∀ {t : Token} {v : Value} {h : Heap}, m.declaring? = some t →
      h.frames = m.heap.frames → ((h.define m.frame t.lexeme v).bound? f name).isSome →
      (m.heap.bound? f name).isSome ∨ f = m.frame ∧ ∃ t, m.declaring? = some t ∧ t.lexeme = name :=
    fun {t _ h} ht heq hb => by
      by_cases hname : name = t.lexeme
      · exact .inr ⟨hframe, t, ht, hname.symm⟩
      · rw [Heap.bound?_define_of_name_ne hname] at hb
        exact .inl (by simpa [Heap.bound?, heq] using hb)
  cases hm with
  | plain _ _ _ _ hquiet =>
    exact .inl ((@Heap.Quiet.grows _ _ m.heap.frames.size hquiet).fixed f hf (Nat.ne_of_lt hf) name hb)
  | «variable» _ hdeclaring => exact hdefined hdeclaring rfl hb
  | function hcontrol => exact hdefined (by simp [declaring?, hcontrol]) rfl hb
  | youth hcontrol => exact hdefined (by simp [declaring?, hcontrol]) rfl hb
  | block _ =>
    exact .inl ((Heap.Grows.newFrame _).fixed f hf (Nat.ne_of_lt hf) name hb)
  | enters =>
    exact .inl ((Heap.Grows.newFrame _).fixed f hf (Nat.ne_of_lt hf) name hb)
  | _ => exact .inl hb

/-- One step keeps every frame inside an older one. -/
theorem Sound.rooted (hs : m.Sound ok) (hr : m.heap.Rooted) : m.step.heap.Rooted := by
  have hm := hs.move
  generalize m.step = m' at hm
  cases hm with
  | plain _ _ _ _ hquiet =>
    cases hquiet with
    | rebind _ => exact hr.define
    | method hyouth hmethod =>
      obtain ⟨_, hrealizes, -⟩ := hs.heap.methods _ hyouth _ hmethod
      exact (hr.newFrame hrealizes.lt_size).of_frames_eq rfl
    | _ => exact hr.of_frames_eq rfl
  | «variable» _ _ => exact hr.define
  | function _ | youth _ => exact (hr.of_frames_eq rfl).define
  | block hcontrol =>
    rw [Sound, hcontrol] at hs
    obtain ⟨_, _, -, hhosts, -⟩ := hs
    exact hr.newFrame hhosts.realizes.lt_size
  | enters _ _ _ _ hclosure _ _ =>
    obtain ⟨_, hrealizes, -⟩ := hs.heap.closures _ hclosure
    exact hr.newFrame hrealizes.lt_size
  | _ => exact hr.of_frames_eq rfl

/-- Along a whole run every frame leads to the globals. -/
theorem Sound.rooted_run (hs : m.Sound ok) (hr : m.heap.Rooted) : ∀ n, (m.run n).heap.Rooted
  | 0 => hr
  | n + 1 => by
      rw [run_succ]
      exact (hs.run n).rooted (hs.rooted_run hr n)

end Machine

/-! ## Settings

A setting is the frame, the table and the depth.  Each task that is not plain puts some of it back,
so a list of tasks leads from the setting of now to those of later. -/

/-- The frame, the table and the number of active calls that code runs with. -/
structure Setting where
  frame : Nat
  distances : Distances
  depth : Nat

/-- The setting of the code before a task, in the setting that the code behind it has. -/
def Pending.back (s : Setting) : Pending → Setting
  | .leave frame => { s with frame := frame }
  | .call _ _ frame distances => ⟨frame, distances, s.depth - 1⟩
  | _ => s

/-- Plain work restores nothing. -/
theorem Pending.back_of_isPlain {p : Pending} (h : p.isPlain) (s : Setting) : p.back s = s := by
  cases p <;> first | rfl | exact absurd h (by simp [isPlain])

namespace Setting

/-- The setting behind some tasks. -/
def behind (s : Setting) (tasks : List Pending) : Setting := tasks.foldl Pending.back s

/-- The names that some tasks may yet declare in a frame. -/
def due (frame : Nat) : Setting → List Pending → List Token
  | _, [] => []
  | s, p :: rest => (if s.frame = frame then p.declarations else []) ++ due frame (p.back s) rest

variable {s : Setting} {pushed tasks : List Pending} {frame : Nat}

/-- So it can be left out of what is restored. -/
theorem behind_plain (h : ∀ p ∈ pushed, p.isPlain) :
    s.behind (pushed ++ tasks) = s.behind tasks := by
  induction pushed with
  | nil => rfl
  | cons p rest ih =>
    obtain ⟨hp, hrest⟩ := List.forall_mem_cons.mp h
    rw [List.cons_append, behind, List.foldl_cons, Pending.back_of_isPlain hp]
    exact ih hrest

/-- What it declares is due in the frame it runs in. -/
theorem due_plain (h : ∀ p ∈ pushed, p.isPlain) : s.due frame (pushed ++ tasks)
    = (if s.frame = frame then pushed.flatMap Pending.declarations else []) ++ s.due frame tasks := by
  induction pushed with
  | nil => simp
  | cons p rest ih =>
    obtain ⟨hp, hrest⟩ := List.forall_mem_cons.mp h
    rw [List.cons_append, due, Pending.back_of_isPlain hp, ih hrest]
    split <;> simp

end Setting

namespace Machine

variable (m : Machine) in
/-- The setting of what the machine is about to do. -/
def setting : Setting := ⟨m.frame, m.distances, m.depth⟩

variable (m : Machine) in
/-- The names that what the machine is about to do and some tasks may yet declare in a frame. -/
def due (frame : Nat) (tasks : List Pending) : List Token :=
  (if m.frame = frame then m.control.declarations else []) ++ m.setting.due frame tasks

end Machine

/-! ## Code under way

The tasks above the ones that waited at the start lead back to the setting of the start, whatever is
under way; each kind of move keeps this. -/

/-- Code that is executed: the tasks that wait for it, the setting and the heap that it starts with, and
the names that it may declare in the frame it starts in. -/
structure Undertaking where
  below : List Pending
  setting : Setting
  heap : Heap
  names : List Token

namespace Machine

variable {m m' : Machine} {u : Undertaking} {tasks tasks' rest : List Pending} {p : Pending}
  {popped : Option Pending}

/-- The code is under way: some tasks lead back to where it started. -/
structure Underway (u : Undertaking) (m : Machine) (tasks : List Pending) : Prop where
  pending : m.pending = tasks ++ u.below
  behind : m.setting.behind tasks = u.setting
  keeps : u.heap.Keeps m.heap
  due : ∀ f < u.heap.frames.size, ∀ t ∈ m.due f tasks, f = u.setting.frame ∧ t ∈ u.names

namespace Underway

variable (hu : m.Underway u tasks) (hbusy : tasks = [] → m.control.isOutcome = false)

include hu in
/-- A move that leads back to the same setting, and to no other declaration. -/
theorem goesOn (hm : m.Move m') (hpending : m'.pending = tasks' ++ u.below)
    (hbehind : m'.setting.behind tasks' = m.setting.behind tasks)
    (hdue : ∀ f < m.heap.frames.size, m'.due f tasks' ⊆ m.due f tasks) : m'.Underway u tasks' where
  pending := hpending
  behind := hbehind.trans hu.behind
  keeps := hu.keeps.trans hm.keeps
  due f hf t ht := hu.due f hf t (hdue f (Nat.lt_of_lt_of_le hf hu.keeps.size) ht)

include hu in
/-- A move that takes up no task, and after which nothing is about to be declared. -/
theorem stays (hm : m.Move m') (hpending : m'.pending = m.pending) (hsetting : m'.setting = m.setting)
    (hdeclarations : m'.control.declarations = []) : m'.Underway u tasks := by
  refine hu.goesOn hm (hpending.trans hu.pending) (by rw [hsetting]) fun f _ => ?_
  rw [Machine.due, Machine.due, hsetting, hdeclarations, ite_self, List.nil_append]
  exact List.subset_append_right _ _

include hu in
/-- A move that goes back over a task, and after which nothing is about to be declared. -/
theorem goesBack (hm : m.Move m') (htasks : tasks = p :: tasks')
    (hpending : m'.pending = tasks' ++ u.below) (hsetting : m'.setting = p.back m.setting)
    (hdeclarations : m'.control.declarations = []) : m'.Underway u tasks' := by
  subst htasks
  refine hu.goesOn hm hpending (by rw [hsetting]; rfl) fun f _ => ?_
  rw [Machine.due, Machine.due, hsetting, hdeclarations, ite_self, List.nil_append, Setting.due]
  exact List.subset_append_of_subset_right _ (List.subset_append_right _ _)

include hu hbusy

/-- The first task that waits is one of the code's own. -/
theorem exists_cons (hpending : m.pending = p :: rest) (hended : m.control.isOutcome) :
    ∃ left, tasks = p :: left ∧ rest = left ++ u.below := by
  have hsplit := hu.pending.symm.trans hpending
  cases tasks with
  | nil => exact absurd (hbusy rfl) (by simp [hended])
  | cons q left =>
    obtain ⟨rfl, rfl⟩ := List.cons.inj hsplit
    exact ⟨left, rfl, rfl⟩

/-- Work is taken from what the code pushed, never from what is below. -/
theorem exists_append (ht : m.Takes popped rest) :
    ∃ left, tasks = popped.toList ++ left ∧ rest = left ++ u.below := by
  cases popped with
  | none => exact ⟨tasks, rfl, ht.pending.symm.trans hu.pending⟩
  | some p => exact hu.exists_cons hbusy ht.pending (ht.ended p rfl)

/-- A move that takes up a plain task, if any, and after which nothing is about to be declared. -/
theorem takes (hm : m.Move m') (ht : m.Takes popped rest) (hpending : m'.pending = rest)
    (hsetting : m'.setting = m.setting) (hdeclarations : m'.control.declarations = []) :
    ∃ tasks', m'.Underway u tasks' := by
  obtain ⟨left, htasks, rfl⟩ := hu.exists_append hbusy ht
  cases popped with
  | none => exact ⟨tasks, hu.stays hm (hpending.trans ht.pending.symm) hsetting hdeclarations⟩
  | some p =>
    rw [← Pending.back_of_isPlain (ht.plain p rfl) m.setting] at hsetting
    exact ⟨left, hu.goesBack hm htasks hpending hsetting hdeclarations⟩

/-- **One move keeps the code under way**, until the tasks that waited for it are back. -/
theorem move (hm : m.Move m') : ∃ tasks', m'.Underway u tasks' := by
  have hcopy := hm
  -- A move takes its tasks from those of the code, never from the ones below.
  cases hm with
  | steady _ => exact ⟨tasks, hu⟩
  -- What is pushed restores nothing, so the setting to come back to stays the same.
  | @plain popped pushed rest _ _ _ control htakes hplain hshrinks _ _ =>
    obtain ⟨left, rfl, rfl⟩ := hu.exists_append hbusy htakes
    have hpopped : ∀ p ∈ popped.toList, p.isPlain := by simpa using htakes.plain
    refine ⟨pushed ++ left, hu.goesOn hcopy (List.append_assoc _ _ _).symm ?_ fun f _ => ?_⟩
    · rw [Setting.behind_plain hplain, Setting.behind_plain hpopped]
      rfl
    · have hdeclarations := hshrinks.declarations
      simp only [Machine.due, Setting.due_plain hplain, Setting.due_plain hpopped, setting]
      split
      · rw [← List.append_assoc, ← List.append_assoc]
        exact List.append_subset.mpr ⟨List.subset_append_of_subset_left _ hdeclarations,
          List.subset_append_right _ _⟩
      · exact List.Subset.refl _
  | fails htakes _ => exact hu.takes hbusy hcopy htakes rfl rfl rfl
  | drops hpending hplain hcontrol =>
    obtain ⟨left, htasks, rfl⟩ := hu.exists_cons hbusy hpending (by simp [hcontrol, Control.isOutcome])
    have hback := Pending.back_of_isPlain hplain m.setting
    exact ⟨left, hu.goesBack hcopy htasks rfl hback.symm (by simp [hcontrol, Control.declarations])⟩
  | «variable» htakes _ => exact hu.takes hbusy hcopy htakes rfl rfl rfl
  | function _ => exact ⟨tasks, hu.stays hcopy rfl rfl rfl⟩
  | youth _ => exact ⟨tasks, hu.stays hcopy rfl rfl rfl⟩
  -- The new task at the bottom of the block remembers the frame.
  | @block body _ =>
    refine ⟨.sequence body :: .leave m.frame :: tasks,
      hu.goesOn hcopy (by simp [hu.pending]) rfl fun f hf => ?_⟩
    simp [Machine.due, Setting.due, setting, Control.declarations, Pending.back, Nat.ne_of_gt hf]
  -- Here it is restored, whether the block was done, gave a value or failed.
  | leave hpending hended _ =>
    obtain ⟨left, htasks, rfl⟩ := hu.exists_cons hbusy hpending hended
    refine ⟨left, hu.goesBack hcopy htasks rfl rfl ?_⟩
    cases hcontrol : m.control <;> simp_all [Control.declarations, Control.isOutcome]
  -- A call remembers frame and table for its return.
  | @enters p rest c paren arguments v hpending hplain _ hcontrol _ _ _ =>
    obtain ⟨left, rfl, rfl⟩ := hu.exists_cons hbusy hpending (by simp [hcontrol, Control.isOutcome])
    have hback := Pending.back_of_isPlain hplain m.setting
    refine ⟨.sequence c.declaration.body
        :: .call c.declaration.name.lexeme paren.place.line m.frame m.distances :: left,
      hu.goesOn hcopy rfl (congrArg (fun s : Setting => s.behind left) hback.symm) fun f hf => ?_⟩
    have hleft : m.setting.due f left ⊆ m.due f (p :: left) := by
      rw [Machine.due, Setting.due, hback]
      exact List.subset_append_of_subset_right _ (List.subset_append_right _ _)
    refine List.Subset.trans ?_ hleft
    simp [callClosure, Machine.due, Setting.due, setting, Pending.back, Nat.ne_of_gt hf]
  | returns hpending hcontrol =>
    have hended : m.control.isOutcome := by rcases hcontrol with h | h <;> simp [h, Control.isOutcome]
    obtain ⟨left, htasks, rfl⟩ := hu.exists_cons hbusy hpending hended
    exact ⟨left, hu.goesBack hcopy htasks rfl rfl rfl⟩
  | escapes hpending hcontrol =>
    obtain ⟨left, htasks, rfl⟩ := hu.exists_cons hbusy hpending (by simp [hcontrol, Control.isOutcome])
    exact ⟨left, hu.goesBack hcopy htasks rfl rfl rfl⟩

/-- A name that is declared next is one of those that may yet be declared. -/
theorem declaring?_mem_due {t : Token} (hdeclaring : m.declaring? = some t) :
    t ∈ m.due m.frame tasks := by
  unfold declaring? at hdeclaring
  rw [Machine.due, if_pos rfl]
  split at hdeclaring
  · next hcontrol => simp_all [Control.declarations, Stmt.declarations]
  · next hcontrol => simp_all [Control.declarations, Stmt.declarations]
  · next hcontrol => simp_all [Control.declarations, Stmt.declarations]
  · next hcontrol hpending =>
    obtain ⟨left, rfl, -⟩ := hu.exists_cons hbusy hpending (by simp [hcontrol, Control.isOutcome])
    obtain rfl := Option.some.inj hdeclaring
    simp [Setting.due, setting, Pending.declarations]
  · exact absurd hdeclaring (by simp)

end Underway

/-- In one of its first steps the machine declares a name in a frame. -/
def DeclaresWithin (m : Machine) (n frame : Nat) (t : Token) : Prop :=
  ∃ k < n, (m.run k).frame = frame ∧ (m.run k).declaring? = some t

/-- The only frame that has new names is the one that code started in: they are some of its
declarations, and one of the first steps has declared them in that frame. -/
def AddsOnly (m : Machine) (n : Nat) (u : Undertaking) : Prop :=
  ∀ f < u.heap.frames.size, ∀ name, ((m.run n).heap.bound? f name).isSome →
    (u.heap.bound? f name).isSome
      ∨ f = u.setting.frame ∧ ∃ t ∈ u.names, t.lexeme = name ∧ m.DeclaresWithin n f t

/-- **Code is under way until the tasks that waited for it are back.** -/
theorem Underway.run {ok : Distances → Visit → Prop} (hs : m.Sound ok) (hu : m.Underway u tasks)
    (hheap : m.heap = u.heap) : ∀ n,
    (∀ k < n, (m.run k).pending = u.below → (m.run k).control.isOutcome = false) →
      (∃ tasks', (m.run n).Underway u tasks') ∧ m.AddsOnly n u
  | 0, _ => ⟨⟨tasks, hu⟩, fun f _ name hb => .inl (hheap ▸ hb)⟩
  | n + 1, hbusy => by
      obtain ⟨⟨tasks', hu'⟩, hnames⟩ :=
        hu.run hs hheap n fun k hk => hbusy k (Nat.lt_succ_of_lt hk)
      have hbusy' : tasks' = [] → (m.run n).control.isOutcome = false := fun hnil =>
        hbusy n (Nat.lt_succ_self n) (by rw [hu'.pending, hnil, List.nil_append])
      have hm := (hs.run n).move
      rw [AddsOnly, run_succ]
      refine ⟨hu'.move hbusy' hm, fun f hf name hb => ?_⟩
      rcases hm.declares (Nat.lt_of_lt_of_le hf hu'.keeps.size) hb with hold | ⟨rfl, t, ht, rfl⟩
      · rcases hnames f hf name hold with hold | ⟨hframe, t, ht, hname, k, hk, hdeclares⟩
        · exact .inl hold
        · exact .inr ⟨hframe, t, ht, hname, k, Nat.lt_succ_of_lt hk, hdeclares⟩
      · obtain ⟨hframe, hmem⟩ := hu'.due _ hf t (hu'.declaring?_mem_due hbusy' ht)
        exact .inr ⟨hframe, t, hmem, rfl, n, Nat.lt_succ_self n, rfl, ht⟩

/-! ## Executions

Where the tasks above have all been taken, the setting is that of the start. -/

variable (m) in
/-- What the machine is about to do, as a piece of code. -/
def undertaking : Undertaking := ⟨m.pending, m.setting, m.heap, m.control.declarations⟩

/-- A machine has just begun what its control says. -/
theorem underway_undertaking : m.Underway m.undertaking [] where
  pending := rfl
  behind := rfl
  keeps := .refl _
  due f _ t ht := by
    rw [Machine.due, Setting.due, List.append_nil] at ht
    split at ht
    · next hframe => exact ⟨hframe.symm, ht⟩
    · exact absurd ht (by simp)

variable (m) in
/-- After some steps as many tasks wait as before, and something has ended. -/
def BackAt (n : Nat) : Prop :=
  (m.run n).pending.length = m.pending.length ∧ (m.run n).control.isOutcome

variable (m) in
/-- What the machine is about to do ends after some steps, and not before. -/
def EndsAfter (n : Nat) : Prop := m.BackAt n ∧ ∀ k < n, ¬ m.BackAt k

instance (n : Nat) : Decidable (m.BackAt n) := inferInstanceAs (Decidable (_ ∧ _))

instance (n : Nat) : Decidable (m.EndsAfter n) := inferInstanceAs (Decidable (_ ∧ _))

/-- What an execution that has led from one machine to another leaves as it was. -/
structure Restores (m m' : Machine) : Prop where
  pending : m'.pending = m.pending
  frame : m'.frame = m.frame
  distances : m'.distances = m.distances
  depth : m'.depth = m.depth
  heap : m.heap.Keeps m'.heap

/-- **What has ended has put back the frame, the table and the depth.** -/
theorem Sound.restores {ok : Distances → Visit → Prop} (hs : m.Sound ok) {n : Nat}
    (hends : m.EndsAfter n) : m.Restores (m.run n) ∧ m.AddsOnly n m.undertaking := by
  obtain ⟨⟨hlength, -⟩, hbusy⟩ := hends
  obtain ⟨⟨tasks, hu⟩, hnames⟩ := underway_undertaking.run hs rfl n fun k hk hpending => by
    have := hbusy k hk
    simpa [BackAt, show (m.run k).pending = m.pending from hpending] using this
  have hnil : tasks = [] := by
    have := congrArg List.length hu.pending
    rw [hlength, List.length_append] at this
    exact List.length_eq_zero_iff.mp (by simpa [undertaking] using this)
  subst hnil
  obtain ⟨hframe, hdistances, hdepth⟩ := Setting.mk.inj hu.behind
  exact ⟨⟨hu.pending, hframe, hdistances, hdepth, hu.keeps⟩, hnames⟩

/-- When the machine ends, what it was about to do has ended. -/
theorem Sound.exists_endsAfter {ok : Distances → Visit → Prop} (hs : m.Sound ok) {n : Nat}
    (hended : (m.run n).hasEnded) : ∃ k ≤ n, m.EndsAfter k := by
  have hback : ∃ k ≤ n, m.BackAt k := by
    by_contra hnever
    obtain ⟨⟨tasks, hu⟩, -⟩ := underway_undertaking.run hs rfl n fun k hk hpending => by
      by_contra houtcome
      exact hnever ⟨k, Nat.le_of_lt hk, congrArg List.length hpending, by simpa using houtcome⟩
    obtain ⟨hempty, hcontrol⟩ := Bool.and_eq_true_iff.mp hended
    have hnil := List.isEmpty_iff.mp hempty
    have hbelow := (List.append_eq_nil_iff.mp (hu.pending.symm.trans hnil)).2
    refine hnever ⟨n, Nat.le_refl n, by rw [hnil, show m.pending = [] from hbelow], ?_⟩
    split at hcontrol <;> simp_all [Control.isOutcome]
  obtain ⟨k, hk, hback⟩ := hback
  refine ⟨Nat.find ⟨k, hback⟩, Nat.le_trans (Nat.find_min' _ hback) hk, Nat.find_spec ⟨k, hback⟩,
    fun j hj => Nat.find_min _ hj⟩

/-! ## Whole runs -/

/-- The first frame is the globals. -/
theorem rooted_ofClock (clock : Clock) : (Machine.ofClock clock).heap.Rooted := by
  intro f hf hne
  simp [Machine.ofClock, builtins, install, Heap.newNative, Heap.newFrame, Heap.define, Heap.empty]
    at hf
  exact absurd hf hne

/-- A program, as a piece of code that starts among the globals. -/
def program (m : Machine) (statements : List Stmt) (distances : Distances) : Undertaking :=
  ⟨[], ⟨globals, distances, 0⟩, m.heap, statements.flatMap Stmt.declarations⟩

/-- A program that is loaded is under way, with nothing below it. -/
theorem underway_load (statements : List Stmt) (distances : Distances) :
    (m.load statements distances).Underway (m.program statements distances)
      [.program statements] where
  pending := rfl
  behind := rfl
  keeps := .refl _
  due f _ t ht := by
    by_cases hframe : globals = f
    · refine ⟨hframe.symm, ?_⟩
      simpa [Machine.due, load, setting, Setting.due, Control.declarations, Pending.declarations,
        hframe, program] using ht
    · simp [Machine.due, load, setting, Setting.due, hframe] at ht

/-- **A program that has ended has put back the globals and left every call.** -/
theorem Sound.ends_program {ok : Distances → Visit → Prop} {statements : List Stmt}
    {distances : Distances} (hs : (m.load statements distances).Sound ok) {n : Nat}
    (hrun : (m.load statements distances).run n = m') (hended : m'.hasEnded) :
    m'.frame = globals ∧ m'.depth = 0
      ∧ ∀ name, (m'.heap.bound? globals name).isSome → (m.heap.bound? globals name).isSome
          ∨ ∃ t ∈ statements.flatMap Stmt.declarations, t.lexeme = name := by
  subst hrun
  have hexists : ∃ k, ((m.load statements distances).run k).hasEnded := ⟨n, hended⟩
  -- the first step at which the program has ended; what comes after it changes nothing
  rw [run_of_le (Nat.find_spec hexists) (Nat.find_min' hexists hended)]
  obtain ⟨⟨tasks, hu⟩, hnames⟩ := (underway_load statements distances).run hs rfl
    (Nat.find hexists) fun k hk hpending => by
      by_contra houtcome
      exact Nat.find_min hexists hk ((hs.run k).hasEnded hpending (by simpa using houtcome))
  have hpending := List.isEmpty_iff.mp (Bool.and_eq_true_iff.mp (Nat.find_spec hexists)).1
  obtain ⟨rfl, -⟩ := List.append_eq_nil_iff.mp (hu.pending.symm.trans hpending)
  obtain ⟨hframe, -, hdepth⟩ := Setting.mk.inj hu.behind
  refine ⟨hframe, hdepth, fun name hb => ?_⟩
  rcases hnames globals hs.heap.globals.1 name hb with hold | ⟨-, t, ht, hname, -⟩
  · exact .inl hold
  · exact .inr ⟨t, ht, hname⟩

end Machine

/-! ## Top-level declarations -/

/-- In a parsed program only a declaration declares a name in the scope it stands in. -/
theorem Stmt.declarations_of_formed {allowed : Token → Prop} : ∀ s : Stmt, s.Formed allowed →
    s.declarations = s.declared?.toList
  | .branch _ yes none, h => by
      obtain ⟨hdeclares, hyes⟩ := h
      have := yes.declarations_of_formed hyes
      cases yes <;> simp_all [declarations, declared?, declares]
  | .branch _ yes (some no), h => by
      obtain ⟨hdeclares, hyes, hdeclares', hno⟩ := h
      have := yes.declarations_of_formed hyes
      have := no.declarations_of_formed hno
      cases yes <;> cases no <;> simp_all [declarations, declared?, declares]
  | .loop _ body, h => by
      obtain ⟨hdeclares, hbody⟩ := h
      have := body.declarations_of_formed hbody
      cases body <;> simp_all [declarations, declared?, declares]
  | .declare _ _, _ | .function _, _ | .youth _ _, _ | .expression _, _ | .tell _, _
  | .give _ _, _ | .block _, _ | .failed, _ => rfl

/-- In a well-formed body every declaration is one that a statement makes itself. -/
theorem declarations_of_bodyFormed {allowed : Token → Prop} {body : List Stmt}
    (h : BodyFormed allowed body) :
    body.flatMap Stmt.declarations = body.filterMap Stmt.declared? := by
  induction body with
  | nil => rfl
  | cons s rest ih =>
    rw [List.flatMap_cons, s.declarations_of_formed h.1, ih h.2, List.filterMap_cons]
    cases s.declared? <;> rfl

/-! ## Sessions -/

namespace Session

variable {s : Session} {file source : Text} {node : Nat} {clock : Clock} {past : Past} {fuel : Nat}

/-- Every one of some sources has been run to its end, or has been rejected. -/
def Returned (s : Session) (past : Past) : Prop :=
  s.Forall (fun s fuel source => (s.run fuel source).2.outcome ≠ .unfinished) past

/-- The heap of a session is sound, and its frames are inside older ones. -/
theorem sound_rooted (file : Text) (node : Nat) (clock : Clock) (past : Past) :
    ((fresh file node clock).after past).machine.heap.Sound anywhere
      ∧ ((fresh file node clock).after past).machine.heap.Rooted :=
  heap_after (Machine.rooted_ofClock clock) (fun _ n hs hr => hs.rooted_run hr n) file node past

/-- Between two runs the machine is at the globals, and no call is active. -/
theorem idle_after (hreturned : (fresh file node clock).Returned past) :
    ((fresh file node clock).after past).machine.frame = Machine.globals
      ∧ ((fresh file node clock).after past).machine.depth = 0 := by
  refine (machine_after (P := fun m => m.frame = Machine.globals ∧ m.depth = 0) ⟨rfl, rfl⟩
    (fun s fuel source hended hclean hsound _ => ?_) hreturned).2
  obtain ⟨hframe, hdepth, -⟩ := hsound.ends_program rfl (hasEnded_of_outcome hclean hended)
  exact ⟨hframe, hdepth⟩

/-- A run that has ended has put back the globals, left every call, and declared no name but those of
the source. -/
theorem ends_run (hheap : s.machine.heap.Sound anywhere)
    (hidle : s.machine.frame = Machine.globals ∧ s.machine.depth = 0)
    (hended : (s.run fuel source).2.outcome ≠ .unfinished) :
    ((s.run fuel source).1.machine.frame = Machine.globals
        ∧ (s.run fuel source).1.machine.depth = 0)
      ∧ ∀ name, ((s.run fuel source).1.machine.heap.bound? Machine.globals name).isSome →
        (s.machine.heap.bound? Machine.globals name).isSome
          ∨ ∃ t ∈ (analyse s.node s.file source).statements.filterMap Stmt.declared?,
              t.lexeme = name := by
  by_cases hclean : (analyse s.node s.file source).diagnostics = []
  · rw [run_of_diagnostics_eq_nil fuel hclean]
    obtain ⟨hframe, hdepth, hnames⟩ := (sound_anywhere hheap hclean 0).ends_program rfl
      (hasEnded_of_outcome hclean hended)
    rw [declarations_of_bodyFormed (analyse_formed s.node s.file source).2] at hnames
    exact ⟨⟨hframe, hdepth⟩, hnames⟩
  · rw [run_of_diagnostics_ne_nil fuel hclean]
    exact ⟨hidle, fun name hb => .inl hb⟩

/-- **Every execution puts back what it found.**  Behind any past of a session, at any point of the run
of a source without mistakes: the chain of every frame reaches the globals; when what the machine is
about to do has ended, in whatever way, it has the frame, the table and the depth that it had before,
every frame has its parent and its names, every function and youth is what it was, and only the frame
that the execution started in has got names, by declarations of its own that were executed in it; and if
the run ends, then what the machine is about to do ends too.  Behind a past that has ended, a run that
ends leaves the machine at the globals, with no call active, and has given the globals no name but those
of the declarations at the top level of its source. -/
theorem frame_discipline (hs : s = (fresh file node clock).after past) :
    (∀ source, (analyse s.node s.file source).diagnostics = [] →
      ∀ steps m, m = s.machineAt source steps →
        (∀ f < m.heap.frames.size, ∃ d, m.heap.ancestor? f d = some Machine.globals)
        ∧ (∀ n, m.EndsAfter n → m.Restores (m.run n) ∧ m.AddsOnly n m.undertaking)
        ∧ (∀ n, (m.run n).hasEnded → ∃ k ≤ n, m.EndsAfter k))
    ∧ ((fresh file node clock).Returned past → ∀ fuel source,
        (s.run fuel source).2.outcome ≠ .unfinished →
          ((s.run fuel source).1.machine.frame = Machine.globals
            ∧ (s.run fuel source).1.machine.depth = 0)
          ∧ ∀ name, ((s.run fuel source).1.machine.heap.bound? Machine.globals name).isSome →
            (s.machine.heap.bound? Machine.globals name).isSome
              ∨ ∃ t ∈ (analyse s.node s.file source).statements.filterMap Stmt.declared?,
                  t.lexeme = name) := by
  subst hs
  obtain ⟨hheap, hrooted⟩ := sound_rooted file node clock past
  refine ⟨fun source hclean steps m hm => ?_, fun hreturned fuel source hended => ?_⟩
  · have hsound : m.Sound anywhere := hm ▸ sound_anywhere hheap hclean steps
    have hr : m.heap.Rooted := hm ▸ (sound_anywhere hheap hclean 0).rooted_run hrooted steps
    exact ⟨hr.reaches, fun n hends => hsound.restores hends, fun n hend => hsound.exists_endsAfter hend⟩
  · exact ends_run hheap (idle_after hreturned) hended

/-- A session in which a function was declared. -/
def declaring : Session := (fresh [] 0 ⟨0, []⟩).after [(9, "listen f() ( give; )")]

/-- A block that calls a function of an earlier source. -/
def callingBlock : Text := "( is a; f(); )"

/-- The block ends, and has put back what it found. -/
theorem frame_discipline_block :
    (∃ k ≤ 16, (declaring.machineAt callingBlock 1).EndsAfter k
      ∧ (declaring.machineAt callingBlock 1).Restores ((declaring.machineAt callingBlock 1).run k))
    ∧ (declaring.run 17 callingBlock).1.machine.frame = Machine.globals
    ∧ (declaring.run 17 callingBlock).1.machine.depth = 0 := by
  have hclean : (analyse declaring.node declaring.file callingBlock).diagnostics = [] := by
    decide +kernel
  have hended : (declaring.machineAt callingBlock 17).hasEnded := by cbv
  have hreturned : (fresh [] 0 ⟨0, []⟩).Returned [(9, "listen f() ( give; )")] :=
    ⟨mt (outcome_eq_unfinished_iff (by decide +kernel)).mp (by decide +kernel), trivial⟩
  obtain ⟨hexecutions, hruns⟩ :=
    @frame_discipline declaring [] 0 ⟨0, []⟩ [(9, "listen f() ( give; )")] rfl
  obtain ⟨-, hrestores, hends⟩ := hexecutions callingBlock hclean 1 _ rfl
  have hend : ((declaring.machineAt callingBlock 1).run 16).hasEnded := by
    rwa [machineAt, ← Machine.run_add]
  obtain ⟨k, hk, hback⟩ := hends 16 hend
  have hstops : (declaring.run 17 callingBlock).2.outcome ≠ .unfinished :=
    mt (outcome_eq_unfinished_iff hclean).mp (by simp [hended])
  exact ⟨⟨k, hk, hback, (hrestores k hback).1⟩, (hruns hreturned 17 callingBlock hstops).1⟩

end Session

end YouthLang

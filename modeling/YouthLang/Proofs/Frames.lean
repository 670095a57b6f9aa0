import YouthLang.Machine
import YouthLang.Proofs.Visits

/-!
# Proofs/Frames — the scopes of a walk and the frames of a run

A frame *realizes* a stack of scopes when the chain of frames from it to the globals has one frame for
each scope, and each frame binds what its scope has completely declared.  A heap only grows: frames
keep their parents and their names (`Heap.Grows`), so what a frame realizes it realizes for good.
-/

namespace YouthLang

namespace Heap

variable {h h' : Heap} {f g p current : Nat} {name : Text} {v : Value} {bindings : Bindings}

/-! ## Look-up after each change of a heap -/

/-- Only frames that exist have a parent. -/
theorem parent?_eq_some_lt (hp : h.parent? f = some p) : f < h.frames.size := by
  rcases Nat.lt_or_ge f h.frames.size with hlt | hge
  · exact hlt
  · simp [parent?, Array.getElem?_eq_none hge] at hp

/-- Only frames that exist bind a name. -/
theorem bound?_isSome_lt (hb : (h.bound? f name).isSome) : f < h.frames.size := by
  rcases Nat.lt_or_ge f h.frames.size with hlt | hge
  · exact hlt
  · simp [bound?, Array.getElem?_eq_none hge] at hb

/-- A new frame does not change the parents of the others. -/
theorem parent?_newFrame_of_lt (hf : f < h.frames.size) (parent : Option Nat) :
    (h.newFrame parent bindings).parent? f = h.parent? f := by
  simp [parent?, newFrame, Array.getElem?_push, Nat.ne_of_lt hf]

@[simp] theorem parent?_newFrame_self (parent : Option Nat) :
    (h.newFrame parent bindings).parent? h.frames.size = parent := by
  simp [parent?, newFrame]

/-- Nor what they bind. -/
theorem bound?_newFrame_of_lt (hf : f < h.frames.size) (parent : Option Nat) :
    (h.newFrame parent bindings).bound? f name = h.bound? f name := by
  simp [bound?, newFrame, Array.getElem?_push, Nat.ne_of_lt hf]

@[simp] theorem bound?_newFrame_self (parent : Option Nat) :
    (h.newFrame parent bindings).bound? h.frames.size name = bindings.lookup name := by
  simp [bound?, newFrame]

@[simp] theorem size_frames_newFrame (parent : Option Nat) :
    (h.newFrame parent bindings).frames.size = h.frames.size + 1 := by
  simp [newFrame]

@[simp] theorem size_frames_define : (h.define f name v).frames.size = h.frames.size := by
  simp [define]

@[simp] theorem parent?_define : (h.define f name v).parent? g = h.parent? g := by
  simp only [parent?, define, Array.getElem?_modify]
  split
  · cases h.frames[g]? <;> rfl
  · rfl

@[simp] theorem bound?_define_self (hf : f < h.frames.size) :
    (h.define f name v).bound? f name = some v := by
  simp only [bound?, define, Array.getElem?_modify, if_true, Array.getElem?_eq_getElem hf]
  exact Bindings.lookup_put_self name v _

/-- A name bound in one frame leaves the other frames alone. -/
theorem bound?_define_of_ne (hg : g ≠ f) (other : Text) :
    (h.define f name v).bound? g other = h.bound? g other := by
  simp [bound?, define, Array.getElem?_modify, hg.symm]

/-- It leaves the other names alone as well. -/
theorem bound?_define_of_name_ne {other : Text} (hne : other ≠ name) :
    (h.define f name v).bound? g other = h.bound? g other := by
  by_cases hg : g = f
  · subst hg
    simp only [bound?, define, Array.getElem?_modify, if_true]
    cases h.frames[g]? with
    | none => rfl
    | some frame => simpa using Bindings.lookup_put_of_ne v frame.bindings hne
  · exact bound?_define_of_ne hg other

/-- The chain of a frame is a matter of the frames' parents alone. -/
theorem chain_eq_of_parent? (hp : ∀ f, h'.parent? f = h.parent? f) (f : Nat) :
    h'.chain f = h.chain f := by
  have hfrom : ∀ n f, h'.chainFrom n f = h.chainFrom n f := by
    intro n
    induction n with
    | zero => exact fun _ => rfl
    | succ n ih => exact fun f => by rw [chainFrom, chainFrom, hp, funext ih]
  exact hfrom (f + 1) f

/-- The frame that is found for a name binds it. -/
theorem bound?_of_binder? (hg : h.binder? f name = some g) : (h.bound? g name).isSome := by
  have := List.find?_some hg
  simpa using this

/-- A frame that is found for a name binds it. -/
theorem bound?_of_binderAt? {d : Nat} (hg : h.binderAt? f d name = some g) :
    (h.bound? g name).isSome := (Option.filter_eq_some_iff.mp hg).2

/-- The value of a name in the frame a number of steps out. -/
theorem getAt?_of_ancestor? {d : Nat} (ha : h.ancestor? f d = some g) :
    h.getAt? f d name = h.bound? g name := by
  rw [getAt?, binderAt?, ha, Option.filter_some]
  cases hb : h.bound? g name <;> simp [hb]

/-- The frame at a distance is none for a name exactly where it does not bind it. -/
theorem binderAt?_eq_none_of_ancestor? {d : Nat} (ha : h.ancestor? f d = some g) :
    h.binderAt? f d name = none ↔ h.bound? g name = none := by
  rw [binderAt?, ha, Option.filter_some]
  cases hb : h.bound? g name <;> simp

/-! ## Growth -/

/-- A heap that came from another one: frames keep their parents and their names, and only one of
them, the current one, may have got new names. -/
structure Grows (current : Nat) (h h' : Heap) : Prop where
  size : h.frames.size ≤ h'.frames.size
  parent : ∀ f < h.frames.size, h'.parent? f = h.parent? f
  bound : ∀ f name, (h.bound? f name).isSome → (h'.bound? f name).isSome
  fixed : ∀ f < h.frames.size, f ≠ current → ∀ name, (h'.bound? f name).isSome →
    (h.bound? f name).isSome

/-- A heap with the same frames has grown from the other. -/
theorem Grows.of_frames_eq (heq : h'.frames = h.frames) : Grows current h h' where
  size := Nat.le_of_eq (by rw [heq])
  parent f _ := by simp [parent?, heq]
  bound f name hb := by simpa [bound?, heq] using hb
  fixed f _ _ name hb := by simpa [bound?, heq] using hb

/-- A heap grows step by step. -/
theorem Grows.trans {h'' : Heap} (hg : Grows current h h') (hg' : Grows current h' h'') :
    Grows current h h'' where
  size := Nat.le_trans hg.size hg'.size
  parent f hf := (hg'.parent f (Nat.lt_of_lt_of_le hf hg.size)).trans (hg.parent f hf)
  bound f name hb := hg'.bound f name (hg.bound f name hb)
  fixed f hf hne name hb :=
    hg.fixed f hf hne name (hg'.fixed f (Nat.lt_of_lt_of_le hf hg.size) hne name hb)

/-- It grows by a frame. -/
theorem Grows.newFrame (parent : Option Nat) : Grows current h (h.newFrame parent bindings) where
  size := by simp
  parent f hf := parent?_newFrame_of_lt hf parent
  bound f name hb := by rwa [bound?_newFrame_of_lt (bound?_isSome_lt hb) parent]
  fixed f hf _ name hb := by rwa [bound?_newFrame_of_lt hf parent] at hb

/-- A name is bound after it is defined, and every name that was bound before. -/
theorem bound?_define_isSome {other : Text} (hb : (h.bound? g other).isSome) :
    ((h.define f name v).bound? g other).isSome := by
  by_cases hg : g = f
  · subst hg
    by_cases hn : other = name
    · subst hn
      simp [bound?_isSome_lt hb]
    · rwa [bound?_define_of_name_ne hn]
  · rwa [bound?_define_of_ne hg]

/-- It grows by a name in the current frame. -/
theorem Grows.define : Grows f h (h.define f name v) where
  size := by simp
  parent g _ := parent?_define
  bound g other hb := bound?_define_isSome hb
  fixed g _ hg other hb := by rwa [bound?_define_of_ne hg] at hb

/-- A name that is bound already is new to no frame. -/
theorem Grows.redefine (hb : (h.bound? f name).isSome) : Grows current h (h.define f name v) where
  size := by simp
  parent g _ := parent?_define
  bound g other hb := bound?_define_isSome hb
  fixed g _ _ other ho := by
    by_cases hg : g = f
    · by_cases hn : other = name
      · rwa [hg, hn]
      · rwa [bound?_define_of_name_ne hn] at ho
    · rwa [bound?_define_of_ne hg] at ho

/-! ## Frames that realize scopes -/

/-- A frame binds every name that a scope has completely declared. -/
def Covers (h : Heap) (f : Nat) (scope : Scope) : Prop :=
  ∀ name, scope.lookup name = some true → (h.bound? f name).isSome

/-- The chain of frames from a frame to the globals matches a stack of scopes, innermost first. -/
inductive Realizes (h : Heap) : Nat → List Scope → Prop
  | globals {scope : Scope} (hsize : Machine.globals < h.frames.size)
      (hparent : h.parent? Machine.globals = none) (hcovers : h.Covers Machine.globals scope) :
      h.Realizes Machine.globals [scope]
  | inner {f p : Nat} {scope : Scope} {outer : List Scope} (hparent : h.parent? f = some p)
      (hlt : p < f) (hcovers : h.Covers f scope) (houter : h.Realizes p outer) :
      h.Realizes f (scope :: outer)

/-- A frame that covers a scope covers it later. -/
theorem Covers.grows (hg : Grows current h h') {scope : Scope} (hc : h.Covers f scope) :
    h'.Covers f scope := fun name hl => hg.bound f name (hc name hl)

namespace Realizes

variable {scope scope' : Scope} {scopes outer : List Scope}

/-- A frame that realizes scopes exists. -/
theorem lt_size (hr : h.Realizes f scopes) : f < h.frames.size := by
  cases hr with
  | globals hsize _ _ => exact hsize
  | inner hparent _ _ _ => exact parent?_eq_some_lt hparent

/-- There is at least one scope, that of the frame itself. -/
theorem ne_nil (hr : h.Realizes f scopes) : scopes ≠ [] := by
  cases hr <;> simp

/-- **What a frame realizes, it realizes for good.** -/
theorem grows (hg : Grows current h h') (hr : h.Realizes f scopes) : h'.Realizes f scopes := by
  induction hr with
  | globals hsize hparent hcovers =>
    exact .globals (Nat.lt_of_lt_of_le hsize hg.size) ((hg.parent _ hsize).trans hparent)
      (hcovers.grows hg)
  | inner hparent hlt hcovers _ ih =>
    exact .inner ((hg.parent _ (parent?_eq_some_lt hparent)).trans hparent) hlt (hcovers.grows hg) ih

/-- The frame covers the innermost of them. -/
theorem covers (hr : h.Realizes f (scope :: outer)) : h.Covers f scope := by
  cases hr with
  | globals _ _ hcovers => exact hcovers
  | inner _ _ hcovers _ => exact hcovers

/-- The innermost scope may be exchanged for any other that the frame covers. -/
theorem exchange (hr : h.Realizes f (scope :: outer)) (hc : h.Covers f scope') :
    h.Realizes f (scope' :: outer) := by
  cases hr with
  | globals hsize hparent _ => exact .globals hsize hparent hc
  | inner hparent hlt _ houter => exact .inner hparent hlt hc houter

/-- A new frame realizes one more scope. -/
theorem newFrame (hr : h.Realizes f outer)
    (hc : ∀ name, scope.lookup name = some true → (bindings.lookup name).isSome) :
    (h.newFrame (some f) bindings).Realizes h.frames.size (scope :: outer) := by
  refine .inner (parent?_newFrame_self _) hr.lt_size (fun name hl => ?_)
    (hr.grows (@Grows.newFrame h f bindings _))
  rw [bound?_newFrame_self]
  exact hc name hl

/-- The first frames of the chain, as many as there are scopes. -/
theorem chainFrom (hr : h.Realizes f scopes) : ∀ n, f < n →
    (h.chainFrom n f).length = scopes.length
      ∧ (h.chainFrom n f).getLast? = some Machine.globals := by
  induction hr with
  | globals _ hparent _ =>
    intro n hn
    obtain ⟨n, rfl⟩ := Nat.exists_eq_succ_of_ne_zero (Nat.ne_of_gt hn)
    simp [Heap.chainFrom, hparent]
  | @inner f p _ outer hparent hlt _ _ ih =>
    intro n hn
    obtain ⟨n, rfl⟩ := Nat.exists_eq_succ_of_ne_zero (Nat.ne_zero_of_lt hn)
    obtain ⟨hlen, hlast⟩ := ih n (by omega)
    simp only [Heap.chainFrom, hparent, Option.elim_some, List.length_cons]
    refine ⟨by rw [hlen], ?_⟩
    rw [List.getLast?_cons, hlast]
    rfl

/-- **The chain of frames is as long as the stack of scopes**, and ends at the globals. -/
theorem length_chain (hr : h.Realizes f scopes) : (h.chain f).length = scopes.length :=
  (hr.chainFrom (f + 1) (Nat.lt_succ_self f)).1

/-- The chain ends with the globals. -/
theorem getLast?_chain (hr : h.Realizes f scopes) : (h.chain f).getLast? = some Machine.globals :=
  (hr.chainFrom (f + 1) (Nat.lt_succ_self f)).2

/-- The frame a number of steps out covers the scope as many places out. -/
theorem ancestor? (hr : h.Realizes f scopes) : ∀ {d : Nat} {scope : Scope},
    scopes[d]? = some scope → ∃ g, h.ancestor? f d = some g ∧ h.Covers g scope := by
  induction hr with
  | globals _ _ hcovers =>
    intro d scope hd
    cases d with
    | zero => exact ⟨_, rfl, by simpa using (Option.some.inj hd) ▸ hcovers⟩
    | succ d => simp at hd
  | inner hparent _ hcovers _ ih =>
    intro d scope hd
    cases d with
    | zero => exact ⟨_, rfl, by simpa using (Option.some.inj hd) ▸ hcovers⟩
    | succ d =>
      obtain ⟨g, hg, hc⟩ := ih (by simpa using hd)
      exact ⟨g, by simpa [Heap.ancestor?, hparent] using hg, hc⟩

/-- The frame of the outermost scope is that of the globals. -/
theorem ancestor?_outermost (hr : h.Realizes f scopes) :
    h.ancestor? f (scopes.length - 1) = some Machine.globals := by
  induction hr with
  | globals _ _ _ => rfl
  | @inner f p scope outer hparent _ _ houter ih =>
    obtain ⟨n, hn⟩ : ∃ n, outer.length = n + 1 :=
      Nat.exists_eq_succ_of_ne_zero fun h0 => houter.ne_nil (List.length_eq_zero_iff.mp h0)
    simp only [hn, List.length_cons, Nat.add_sub_cancel] at ih ⊢
    simpa [Heap.ancestor?, hparent] using ih

end Realizes

end Heap

end YouthLang

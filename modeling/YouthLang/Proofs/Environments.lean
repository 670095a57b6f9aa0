import YouthLang.Environment
import YouthLang.Proofs.Frames

/-!
# Proofs/Environments — two ways to a name

Frames are made inside older ones and never moved (`Heap.Built`, `Heap.Nested`), so the chain of a frame
is its ancestors, one after the other, and the walk along it ends at the nearest one that binds a name
(`Heap.Nearest`).  Hence walking to a name and going straight to the nearest frame that binds it are the
same, and a write is seen from just those frames for which that frame is the nearest
(`Heap.environments_agree`).
-/

namespace YouthLang

namespace Heap

variable {h h' : Heap} {f g p : Nat} {d k : Nat} {name other : Text} {v : Value}

/-! ## Heaps made of environments -/

/-- The heaps that come of making environments, each on its own or inside an older one, of defining
names in them, and of writing names from them, whether that succeeds or not. -/
inductive Built : Heap → Prop
  | empty : Built Heap.empty
  | new {h : Heap} {parent : Option Nat} (hb : Built h) (hparent : ∀ p ∈ parent, p < h.frames.size) :
      Built (h.newFrame parent [])
  | define {h : Heap} {f : Nat} (name : Text) (v : Value) (hb : Built h) (hf : f < h.frames.size) :
      Built (h.define f name v)
  | write {h : Heap} (f : Nat) (name : Token) (v : Value) (hb : Built h) :
      Built (h.write f name v).1
  | writeAt {h : Heap} (f : Nat) (distance : Int) (name : Token) (v : Value) (hb : Built h) :
      Built (h.writeAt f distance name v).1

/-- Every frame was made inside an older one, or inside none. -/
def Nested (h : Heap) : Prop := ∀ f p, h.parent? f = some p → p < f

theorem Nested.define (hn : h.Nested) : (h.define f name v).Nested := by
  intro g p hp
  rw [parent?_define] at hp
  exact hn g p hp

theorem Nested.newFrame {parent : Option Nat} {bindings : Bindings} (hn : h.Nested)
    (hparent : ∀ p ∈ parent, p < h.frames.size) : (h.newFrame parent bindings).Nested := by
  intro f p hp
  have hlt := parent?_eq_some_lt hp
  rw [size_frames_newFrame] at hlt
  rcases Nat.lt_succ_iff_lt_or_eq.mp hlt with hold | rfl
  · rw [parent?_newFrame_of_lt hold] at hp
    exact hn f p hp
  · rw [parent?_newFrame_self] at hp
    exact hparent p hp

/-- A write changes nothing or defines a name anew. -/
theorem write_cases (h : Heap) (f : Nat) (name : Token) (v : Value) :
    (h.write f name v).1 = h ∨ ∃ g, (h.write f name v).1 = h.define g name.lexeme v := by
  unfold write assign?
  cases h.binder? f name.lexeme with
  | none => exact .inl rfl
  | some g => exact .inr ⟨g, rfl⟩

theorem writeAt_cases (h : Heap) (f : Nat) (distance : Int) (name : Token) (v : Value) :
    (h.writeAt f distance name v).1 = h
      ∨ ∃ g, (h.writeAt f distance name v).1 = h.define g name.lexeme v := by
  unfold writeAt assignAt?
  cases h.binderAt? f distance.toNat name.lexeme with
  | none => exact .inl rfl
  | some g => exact .inr ⟨g, rfl⟩

theorem Built.nested (hb : h.Built) : h.Nested := by
  induction hb with
  | empty => exact fun f p hp => by simp [parent?, Heap.empty] at hp
  | new _ hparent ih => exact ih.newFrame hparent
  | define _ _ _ _ ih => exact ih.define
  | write f name v _ ih =>
    obtain heq | ⟨g, heq⟩ := write_cases _ f name v
    · rwa [heq]
    · rw [heq]
      exact ih.define
  | writeAt f distance name v _ ih =>
    obtain heq | ⟨g, heq⟩ := writeAt_cases _ f distance name v
    · rwa [heq]
    · rw [heq]
      exact ih.define

/-! ## The chain of a frame -/

@[simp] theorem ancestor?_zero : h.ancestor? f 0 = some f := rfl

theorem ancestor?_succ : h.ancestor? f (d + 1) = (h.parent? f).bind fun p => h.ancestor? p d := rfl

/-- Each step outwards leads to an older frame. -/
theorem Nested.ancestor?_le (hn : h.Nested) (ha : h.ancestor? f d = some g) : g + d ≤ f := by
  induction d generalizing f with
  | zero => exact Nat.le_of_eq (Option.some.inj ha).symm
  | succ d ih =>
    obtain ⟨p, hp, ha⟩ := Option.bind_eq_some_iff.mp ha
    have hlt := hn f p hp
    have hle := ih ha
    omega

theorem getElem?_chainFrom : ∀ (n f d : Nat), (h.chainFrom n f)[d]? =
    if d < n then h.ancestor? f d else none
  | 0, f, d => by simp [chainFrom]
  | n + 1, f, 0 => by simp [chainFrom]
  | n + 1, f, d + 1 => by
      rw [chainFrom, List.getElem?_cons_succ, ancestor?_succ]
      cases h.parent? f with
      | none => simp
      | some p => simpa using getElem?_chainFrom n p d

/-- **The chain of a frame is its ancestors, in order.** -/
theorem Nested.getElem?_chain (hn : h.Nested) (f d : Nat) : (h.chain f)[d]? = h.ancestor? f d := by
  rw [chain, getElem?_chainFrom]
  split
  · rfl
  · next hd =>
    refine (Option.eq_none_iff_forall_ne_some.mpr fun g ha => ?_).symm
    have hle := hn.ancestor?_le ha
    omega

/-! ## The nearest frame -/

/-- A frame is the first one from another one outwards that binds a name, and this is its distance. -/
structure Nearest (h : Heap) (f : Nat) (name : Text) (k g : Nat) : Prop where
  ancestor : h.ancestor? f k = some g
  bound : (h.bound? g name).isSome
  least : ∀ j < k, ∀ g', h.ancestor? f j = some g' → h.bound? g' name = none

/-- There is one nearest frame at most. -/
theorem Nearest.unique {k' g' : Nat} (hnear : h.Nearest f name k g) (hnear' : h.Nearest f name k' g') :
    k = k' ∧ g = g' := by
  rcases Nat.lt_trichotomy k k' with hlt | rfl | hlt
  · exact absurd (hnear'.least k hlt g hnear.ancestor) (Option.isSome_iff_ne_none.mp hnear.bound)
  · exact ⟨rfl, Option.some.inj (hnear.ancestor.symm.trans hnear'.ancestor)⟩
  · exact absurd (hnear.least k' hlt g' hnear'.ancestor) (Option.isSome_iff_ne_none.mp hnear'.bound)

/-- No frame from this one outwards binds a name. -/
def Unbound (h : Heap) (f : Nat) (name : Text) : Prop :=
  ∀ k g, h.ancestor? f k = some g → h.bound? g name = none

/-- **The walk outwards ends at the nearest frame that binds the name.** -/
theorem Nested.binder?_eq_some_iff (hn : h.Nested) :
    h.binder? f name = some g ↔ ∃ k, h.Nearest f name k g := by
  rw [binder?, List.find?_eq_some_iff_getElem]
  constructor
  · rintro ⟨hbound, k, hk, hget, hleast⟩
    refine ⟨k, ?_, hbound, fun j hj g' hg' => ?_⟩
    · rw [← hn.getElem?_chain, List.getElem?_eq_getElem hk, hget]
    · rw [← hn.getElem?_chain, List.getElem?_eq_getElem (Nat.lt_trans hj hk)] at hg'
      obtain rfl := Option.some.inj hg'
      simpa using hleast j hj
  · rintro ⟨k, hancestor, hbound, hleast⟩
    rw [← hn.getElem?_chain] at hancestor
    obtain ⟨hk, hget⟩ := List.getElem?_eq_some_iff.mp hancestor
    refine ⟨hbound, k, hk, hget, fun j hj => ?_⟩
    have hancestor' := hn.getElem?_chain f j
    rw [List.getElem?_eq_getElem (Nat.lt_trans hj hk)] at hancestor'
    simp [hleast j hj _ hancestor'.symm]

theorem Nested.binder?_eq_none_iff (hn : h.Nested) :
    h.binder? f name = none ↔ h.Unbound f name := by
  rw [binder?, List.find?_eq_none]
  constructor
  · intro hnone k g ha
    rw [← hn.getElem?_chain] at ha
    simpa using hnone g (List.mem_of_getElem? ha)
  · intro hnone g hg
    obtain ⟨k, hk⟩ := List.getElem?_of_mem hg
    rw [hn.getElem?_chain] at hk
    simp [hnone k g hk]

/-- Going straight to the nearest frame that binds a name finds it. -/
theorem Nearest.binderAt? (hnear : h.Nearest f name k g) : h.binderAt? f k name = some g := by
  simp [Heap.binderAt?, hnear.ancestor, hnear.bound]

/-! ## A write -/

/-- One binding of one frame is changed, and nothing else. -/
structure Rebinds (h : Heap) (g : Nat) (name : Text) (v : Value) (h' : Heap) : Prop where
  size : h'.frames.size = h.frames.size
  parent : ∀ f, h'.parent? f = h.parent? f
  bound : ∀ f other, h'.bound? f other
    = if f = g ∧ other = name then some v else h.bound? f other
  rest : h' = { h with frames := h'.frames }

theorem Rebinds.define (hg : g < h.frames.size) : h.Rebinds g name v (h.define g name v) where
  size := size_frames_define
  parent _ := parent?_define
  bound f other := by
    split
    · next heq =>
      obtain ⟨rfl, rfl⟩ := heq
      exact bound?_define_self hg
    · next hne =>
      by_cases hf : f = g
      · exact bound?_define_of_name_ne fun hname => hne ⟨hf, hname⟩
      · exact bound?_define_of_ne hf other
  rest := rfl

namespace Rebinds

variable (hr : h.Rebinds g name v h')

include hr

theorem chain (f : Nat) : h'.chain f = h.chain f := chain_eq_of_parent? hr.parent f

/-- A name that was bound already is found where it was found before. -/
theorem binder? (hbound : (h.bound? g name).isSome) (f : Nat) (other : Text) :
    h'.binder? f other = h.binder? f other := by
  have hsame : ∀ f', (h'.bound? f' other).isSome = (h.bound? f' other).isSome := by
    intro f'
    rw [hr.bound]
    split
    · next heq =>
      obtain ⟨rfl, rfl⟩ := heq
      exact hbound.symm
    · rfl
  rw [Heap.binder?, Heap.binder?, hr.chain]
  exact congrArg (List.find? · _) (funext hsame)

/-- **A write is seen from just those frames for which the frame written in is the nearest one.** -/
theorem read (hn : h.Nested) (hbound : (h.bound? g name).isSome) (f : Nat) (other : Token) :
    (other.lexeme = name → (∃ k, h.Nearest f name k g) → h'.read f other = .ok v)
    ∧ (¬ (other.lexeme = name ∧ ∃ k, h.Nearest f name k g) → h'.read f other = h.read f other) := by
  constructor
  · rintro rfl hnear
    have hbinder := hn.binder?_eq_some_iff.mpr hnear
    simp [Heap.read, get?, hr.binder? hbound, hbinder, hr.bound]
  · intro hne
    have hget : h'.get? f other.lexeme = h.get? f other.lexeme := by
      rw [get?, get?, hr.binder? hbound]
      cases hbinder : h.binder? f other.lexeme with
      | none => rfl
      | some g' =>
        have hother : ¬ (g' = g ∧ other.lexeme = name) := by
          rintro ⟨rfl, rfl⟩
          exact hne ⟨rfl, hn.binder?_eq_some_iff.mp hbinder⟩
        rw [Option.bind_some, Option.bind_some, hr.bound, if_neg hother]
    rw [Heap.read, Heap.read, hget]

end Rebinds

/-- **Walking and jumping to a name agree.**  Either no frame from a frame outwards binds the name, and
then reading and writing it from there is a mistake and changes nothing; or reading and writing it is
the same as at the distance of the nearest frame that binds it, and a write changes that one binding of
that one frame, which is then seen from just those frames for which it is the nearest.  At a distance
where no frame is or where it does not bind the name, reading and writing is a mistake and changes
nothing. -/
theorem environments_agree (hb : h.Built) (f : Nat) (name : Token) (v : Value) :
    ((h.Unbound f name.lexeme
        ∧ h.read f name = .error ((RuntimeCause.undefinedVariable name.lexeme).raisedAt name)
        ∧ h.write f name v
          = (h, .error ((RuntimeCause.undefinedVariable name.lexeme).raisedAt name)))
      ∨ ∃ k g w h', h.Nearest f name.lexeme k g
        ∧ h.bound? g name.lexeme = some w
        ∧ h.read f name = .ok w ∧ h.readAt f k name = .ok w
        ∧ h.write f name v = (h', .ok ()) ∧ h.writeAt f k name v = (h', .ok ())
        ∧ h.Rebinds g name.lexeme v h'
        ∧ ∀ f' other,
          (other.lexeme = name.lexeme → (∃ k', h.Nearest f' name.lexeme k' g) →
            h'.read f' other = .ok v)
          ∧ (¬ (other.lexeme = name.lexeme ∧ ∃ k', h.Nearest f' name.lexeme k' g) →
            h'.read f' other = h.read f' other))
    ∧ ∀ d : Int, (∀ g, h.ancestor? f d.toNat = some g → h.bound? g name.lexeme = none) →
      h.readAt f d name = .error ((RuntimeCause.unboundAt name.lexeme d).raisedAt name)
      ∧ h.writeAt f d name v
        = (h, .error ((RuntimeCause.unboundAt name.lexeme d).raisedAt name)) := by
  have hn := hb.nested
  refine ⟨?_, fun d hnone => ?_⟩
  · cases hbinder : h.binder? f name.lexeme with
    | none =>
      exact .inl ⟨hn.binder?_eq_none_iff.mp hbinder, by simp [read, get?, hbinder],
        by simp [write, assign?, hbinder]⟩
    | some g =>
      obtain ⟨k, hnear⟩ := hn.binder?_eq_some_iff.mp hbinder
      obtain ⟨w, hw⟩ := Option.isSome_iff_exists.mp hnear.bound
      have hrebinds := @Rebinds.define h g name.lexeme v (bound?_isSome_lt hnear.bound)
      exact .inr ⟨k, g, w, _, hnear, hw, by simp [read, get?, hbinder, hw],
        by simp [readAt, getAt?, hnear.binderAt?, hw], by simp [write, assign?, hbinder],
        by simp [writeAt, assignAt?, hnear.binderAt?], hrebinds, hrebinds.read hn hnear.bound⟩
  · have hbinder : h.binderAt? f d.toNat name.lexeme = none := by
      rw [binderAt?, Option.filter_eq_none_iff]
      intro g hg
      simp [hnone g hg]
    exact ⟨by simp [readAt, getAt?, hbinder], by simp [writeAt, assignAt?, hbinder]⟩

/-- A name is bound among the globals and in the innermost of three environments.  Written from the one
between them it changes among the globals, the innermost one still has its own, and beyond the globals
there is nothing to write to. -/
theorem environments_agree_shadowed :
    let x : Token := ⟨.identifier, "x", ⟨1, 1⟩⟩
    let h := ((((Heap.empty.newFrame none []).define 0 "x" (.truth true)).newFrame (some 0)
      []).newFrame (some 1) []).define 2 "x" .emptiness
    h.Built ∧ h.Nearest 1 "x" 1 0 ∧ h.ancestor? 1 7 = none
      ∧ h.read 1 x = h.readAt 1 1 x
      ∧ (∃ h', h.write 1 x (.truth false) = (h', .ok ()) ∧ h.writeAt 1 1 x (.truth false) = (h', .ok ())
        ∧ h'.read 0 x = .ok (.truth false) ∧ h'.read 2 x = h.read 2 x)
      ∧ h.writeAt 1 7 x (.truth false)
        = (h, .error ((RuntimeCause.unboundAt "x" 7).raisedAt x)) := by
  intro x h
  have hb : h.Built := .define _ _ (.new (.new (.define _ _ (.new .empty (by simp)) (by decide))
    (by decide)) (by decide)) (by decide)
  have hnear : h.Nearest 1 "x" 1 0 := ⟨rfl, by decide, by decide⟩
  have hbeyond : h.ancestor? 1 7 = none := rfl
  obtain ⟨hcases, hmissing⟩ := environments_agree hb 1 x (.truth false)
  refine ⟨hb, hnear, hbeyond, ?_⟩
  rcases hcases with ⟨hunbound, -⟩ | ⟨k, g, w, h', hnear', -, hread, hreadAt, hwrite, hwriteAt, -, hseen⟩
  · exact absurd (hunbound 1 0 hnear.ancestor) (Option.isSome_iff_ne_none.mp hnear.bound)
  · obtain ⟨rfl, rfl⟩ := hnear.unique hnear'
    have hglobal : h.Nearest 0 "x" 0 0 := ⟨rfl, by decide, by simp⟩
    have hinner : h.Nearest 2 "x" 0 2 := ⟨rfl, by decide, by simp⟩
    refine ⟨hread.trans hreadAt.symm, ⟨h', hwrite, hwriteAt, (hseen 0 x).1 rfl ⟨0, hglobal⟩,
      (hseen 2 x).2 ?_⟩, (hmissing 7 (by simp [hbeyond])).2⟩
    rintro ⟨-, k, hk⟩
    exact absurd (hk.unique hinner).2 (by decide)

end Heap

/-! ## What the machine does -/

namespace Machine

variable (m : Machine) (node : Nat) (name : Token)

/-- The machine reads a name at the distance of its node, or else among the globals. -/
theorem lookUp_eq_read : m.lookUp node name = m.turn
    (match m.distances[node]?.elim (m.heap.read globals name) (m.heap.readAt m.frame · name) with
    | .ok v => .value v
    | .error d => .failing d) := by
  unfold lookUp
  cases m.distances[node]? with
  | none =>
    simp only [Option.elim_none, Heap.read]
    cases m.heap.get? globals name.lexeme <;> rfl
  | some d =>
    simp only [Option.elim_some, Heap.readAt, Int.toNat_natCast]
    cases m.heap.getAt? m.frame d name.lexeme <;> rfl

/-- The machine writes a name at the distance of its node, or else among the globals. -/
theorem assign_eq_write (v : Value) : m.assign node name v =
    let written := m.distances[node]?.elim (m.heap.write globals name v)
      (m.heap.writeAt m.frame · name v)
    { m with
      heap := written.1
      control := match written.2 with
        | .ok _ => .value v
        | .error d => .failing d } := by
  unfold assign
  cases m.distances[node]? with
  | none =>
    simp only [Option.elim_none, Heap.write, Heap.assign?]
    cases m.heap.binder? globals name.lexeme <;> rfl
  | some d =>
    simp only [Option.elim_some, Heap.writeAt, Heap.assignAt?, Int.toNat_natCast]
    cases m.heap.binderAt? m.frame d name.lexeme <;> rfl

end Machine

end YouthLang

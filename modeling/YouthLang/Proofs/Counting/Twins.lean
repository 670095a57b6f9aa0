import YouthLang.Proofs.Counting.Walk
import YouthLang.Proofs.Discipline
import YouthLang.Proofs.Simulation

/-!
# Proofs/Counting/Twins — a heap beside that of what a program stands for

A run of a program with counting loops and a run of what it stands for make almost the same
frames.  A frame for a scope of both has a *twin* on the other side, which binds the same names to
the same values; a frame for a scope of one side only stands alone, and nothing is ever bound in
it.  Everything else in the two heaps is the same, but for the trees of functions (`World.Twin`).

Code and what it stands for run in frames whose chains lead from twin to twin, past those that stand
alone, as the scopes around the code are aligned (`Standing`).  So a node finds its name in twins,
however many frames there are on either way (`World.Twin.binding`).
-/

namespace YouthLang

/-! ## What a heap that keeps its frames still realizes -/

namespace Heap

variable {h h' : Heap} {f : Nat} {scopes : List Scope}

/-- Scopes that a frame realizes are realized in every heap that keeps the frames. -/
theorem Realizes.keeps (hr : h.Realizes f scopes) (hk : h.Keeps h') : h'.Realizes f scopes := by
  induction hr with
  | globals hsize hparent hcovers =>
    exact .globals (Nat.lt_of_lt_of_le hsize hk.size) ((hk.parent _ hsize).trans hparent)
      fun name hl => hk.bound _ name (hcovers name hl)
  | inner hparent hlt hcovers _ ih =>
    exact .inner ((hk.parent _ (parent?_eq_some_lt hparent)).trans hparent) hlt
      (fun name hl => hk.bound _ name (hcovers name hl)) ih

/-- A parent stays a parent. -/
theorem Keeps.parent_eq_some {p : Nat} (hk : h.Keeps h') (hp : h.parent? f = some p) :
    h'.parent? f = some p := (hk.parent f (parent?_eq_some_lt hp)).trans hp

/-- Among the globals a name is found if they bind it, and nowhere else. -/
theorem binder?_globals_eq (h : Heap) (name : Text) : h.binder? Machine.globals name
    = if (h.bound? Machine.globals name).isSome then some Machine.globals else none := by
  have hchain : h.chain Machine.globals = [Machine.globals] := by
    rw [chain, Machine.globals, chainFrom]
    cases h.parent? 0 <;> rfl
  rw [binder?, hchain, List.find?_singleton]

end Heap

namespace Counting

/-! ## Twins

Which frames are twins is told by a relation that only grows.  It is one-to-one, so a name that is
bound in a frame is bound in its twin alone. -/

/-- Which frames of the one heap have which twins in the other. -/
abbrev Pairs := Nat → Nat → Prop

/-- One more pair of twins. -/
def Pairs.insert (T : Pairs) (a b : Nat) : Pairs := fun f f' => T f f' ∨ f = a ∧ f' = b

/-- **The chains of two frames**, scope by scope: twins where the scope belongs to both sides, and a
frame of one side where it does not. -/
inductive Along (T : Pairs) (h h' : Heap) : List Mark → Nat → Nat → Prop
  | globals (htwins : T Machine.globals Machine.globals) :
      Along T h h' [.both] Machine.globals Machine.globals
  | both {ms f f' p p'} (htwins : T f f') (hparent : h.parent? f = some p)
      (hparent' : h'.parent? f' = some p') (houter : Along T h h' ms p p') :
      Along T h h' (.both :: ms) f f'
  | first {ms f f' p} (hparent : h.parent? f = some p) (houter : Along T h h' ms p f') :
      Along T h h' (.first :: ms) f f'
  | second {ms f f' p'} (hparent' : h'.parent? f' = some p') (houter : Along T h h' ms f p') :
      Along T h h' (.second :: ms) f f'

/-- Two heaps that have come from two others, with more twins. -/
structure Onward (T T₁ : Pairs) (h h₁ h' h₁' : Heap) : Prop where
  pairs : ∀ f f', T f f' → T₁ f f'
  first : h.Keeps h₁
  second : h'.Keeps h₁'

/-- Code with some scopes around it stands in a frame, and what it stands for in another. -/
structure Standing (T : Pairs) (h h' : Heap) (ms : List Mark) (scopes scopes' : List Scope)
    (f f' : Nat) : Prop where
  along : Along T h h' ms f f'
  aligned : Aligned ms scopes scopes'
  realizes : h'.Realizes f' scopes'

/-- A function beside what it stands for; `between` are the scopes that a call finds between the
frame of the function and its body. -/
structure Closure.Twin (D D' : Distances) (T : Pairs) (h h' : Heap) (between : List Scope)
    (c : Closure) (c' : YouthLang.Closure) : Prop where
  declaration : c'.declaration = c.declaration.desugar
  distances : c'.distances = D'
  settled : ∃ ms scopes scopes', Standing T h h' ms scopes scopes' c.frame c'.frame
    ∧ c.declaration.scaffold.Settled (Answers D) (between ++ scopes)
    ∧ c.declaration.desugar.Settled (Answers D') (between ++ scopes')

/-- A youth beside what it stands for.  A method waits for its receiver. -/
structure Youth.Twin (D D' : Distances) (T : Pairs) (h h' : Heap) (y : Youth)
    (y' : YouthLang.Youth) : Prop where
  name : y.name = y'.name
  methods : List.Forall₂
    (fun m m' => m.1 = m'.1 ∧ Closure.Twin D D' T h h' [[(receiver, true)]] m.2 m'.2)
    y.methods y'.methods

/-- **What a run has made, beside the heap of a run of what its program stands for.** -/
structure World.Twin (D D' : Distances) (T : Pairs) (w : World) (h' : Heap) : Prop where
  globals : T Machine.globals Machine.globals
  functional : ∀ {f g g'}, T f g → T f g' → g = g'
  injective : ∀ {f f' g}, T f g → T f' g → f = f'
  range : ∀ {f f'}, T f f' → f < w.heap.frames.size ∧ f' < h'.frames.size
  bound : ∀ {f f'}, T f f' → ∀ name, w.heap.bound? f name = h'.bound? f' name
  natives : w.heap.natives = h'.natives
  objects : w.heap.objects = h'.objects
  closures : List.Forall₂ (Closure.Twin D D' T w.heap h' []) w.closures.toList h'.closures.toList
  youths : List.Forall₂ (Youth.Twin D D' T w.heap h') w.youths.toList h'.youths.toList

section Onward

variable {T T₁ T₂ : Pairs} {h h₁ h₂ h' h₁' h₂' : Heap}

/-- Nothing happened is a way onward. -/
theorem Onward.refl (T : Pairs) (h h' : Heap) : Onward T T h h h' h' :=
  ⟨fun _ _ ht => ht, .refl h, .refl h'⟩

/-- One way onward behind another is one. -/
theorem Onward.trans (ho : Onward T T₁ h h₁ h' h₁') (ho' : Onward T₁ T₂ h₁ h₂ h₁' h₂') :
    Onward T T₂ h h₂ h' h₂' :=
  ⟨fun f f' ht => ho'.pairs f f' (ho.pairs f f' ht), ho.first.trans ho'.first,
    ho.second.trans ho'.second⟩

/-- Two chains of frames that go along one another still do later. -/
theorem Along.onward {ms : List Mark} {f f' : Nat} (ha : Along T h h' ms f f')
    (ho : Onward T T₁ h h₁ h' h₁') : Along T₁ h₁ h₁' ms f f' := by
  induction ha with
  | globals htwins => exact .globals (ho.pairs _ _ htwins)
  | both htwins hparent hparent' _ ih =>
    exact .both (ho.pairs _ _ htwins) (ho.first.parent_eq_some hparent)
      (ho.second.parent_eq_some hparent') ih
  | first hparent _ ih => exact .first (ho.first.parent_eq_some hparent) ih
  | second hparent' _ ih => exact .second (ho.second.parent_eq_some hparent') ih

/-- So code that stands in both keeps its place. -/
theorem Standing.onward {ms : List Mark} {scopes scopes' : List Scope} {f f' : Nat}
    (hs : Standing T h h' ms scopes scopes' f f') (ho : Onward T T₁ h h₁ h' h₁') :
    Standing T₁ h₁ h₁' ms scopes scopes' f f' :=
  ⟨hs.along.onward ho, hs.aligned, hs.realizes.keeps ho.second⟩

variable {D D' : Distances}

/-- Closures that are twins remain so. -/
theorem Closure.Twin.onward {between : List Scope} {c : Closure} {c' : YouthLang.Closure}
    (hc : c.Twin D D' T h h' between c') (ho : Onward T T₁ h h₁ h' h₁') :
    c.Twin D D' T₁ h₁ h₁' between c' := by
  obtain ⟨hdeclaration, hdistances, ms, scopes, scopes', hstanding, hsettled⟩ := hc
  exact ⟨hdeclaration, hdistances, ms, scopes, scopes', hstanding.onward ho, hsettled⟩

/-- So do classes. -/
theorem Youth.Twin.onward {y : Youth} {y' : YouthLang.Youth} (hy : y.Twin D D' T h h' y')
    (ho : Onward T T₁ h h₁ h' h₁') : y.Twin D D' T₁ h₁ h₁' y' :=
  ⟨hy.name, hy.methods.imp fun _ _ hm => ⟨hm.1, hm.2.onward ho⟩⟩

end Onward

/-! ## Where code stands -/

namespace Standing

variable {T : Pairs} {h h' : Heap} {ms : List Mark} {scopes scopes' : List Scope} {scope : Scope}
  {f f' : Nat}

/-- Where a scope is on both sides, the two frames are twins. -/
theorem twins (hs : Standing T h h' (.both :: ms) scopes scopes' f f') : T f f' := by
  cases hs.along with
  | globals htwins => exact htwins
  | both htwins _ _ _ => exact htwins

/-- A name declared in twins. -/
theorem declared (hs : Standing T h h' (.both :: ms) scopes scopes' f f') {name : Text}
    (hbound : (h'.bound? f' name).isSome) :
    Standing T h h' (.both :: ms) (declared name scopes) (declared name scopes') f f' := by
  obtain ⟨halong, haligned, hr⟩ := hs
  refine ⟨halong, haligned.declared name, ?_⟩
  cases scopes' with
  | nil => exact hr
  | cons scope outer =>
    refine hr.exchange fun other hl => ?_
    by_cases hother : other = name
    · rwa [hother]
    · have hne : (other == name) = false := by simpa using hother
      exact hr.covers other (by simpa [List.lookup_cons, hne] using hl)

/-- A declaration that has begun binds nothing yet. -/
theorem noted (hs : Standing T h h' (.both :: ms) scopes scopes' f f') {name : Text} :
    Standing T h h' (.both :: ms) (noted name false scopes) (noted name false scopes') f f' := by
  obtain ⟨halong, haligned, hr⟩ := hs
  refine ⟨halong, haligned.noted name false, ?_⟩
  cases scopes' with
  | nil => exact hr
  | cons scope outer =>
    refine hr.exchange fun other hl => ?_
    by_cases hother : other = name
    · rw [hother] at hl
      simp at hl
    · have hne : (other == name) = false := by simpa using hother
      exact hr.covers other (by simpa [List.lookup_cons, hne] using hl)

/-- New frames on both sides, twins with the same names. -/
theorem enter (hs : Standing T h h' ms scopes scopes' f f') {bindings : Bindings}
    (hb : ∀ name, scope.lookup name = some true → (bindings.lookup name).isSome) :
    Standing (T.insert h.frames.size h'.frames.size) (h.newFrame (some f) bindings)
      (h'.newFrame (some f') bindings) (.both :: ms) (scope :: scopes) (scope :: scopes')
      h.frames.size h'.frames.size where
  along := .both (.inr ⟨rfl, rfl⟩) (Heap.parent?_newFrame_self _) (Heap.parent?_newFrame_self _)
    (hs.along.onward ⟨fun _ _ ht => .inl ht, .newFrame, .newFrame⟩)
  aligned := .both scope hs.aligned
  realizes := hs.realizes.newFrame hb

/-- A new frame on the first side. -/
theorem enter_first (hs : Standing T h h' ms scopes scopes' f f') :
    Standing T (h.newFrame (some f) []) h' (.first :: ms) ([] :: scopes) scopes'
      h.frames.size f' where
  along := .first (Heap.parent?_newFrame_self _)
    (hs.along.onward ⟨fun _ _ ht => ht, .newFrame, .refl h'⟩)
  aligned := .first hs.aligned
  realizes := hs.realizes

/-- A new frame on the second side. -/
theorem enter_second (hs : Standing T h h' ms scopes scopes' f f') :
    Standing T h (h'.newFrame (some f') []) (.second :: ms) scopes ([] :: scopes')
      f h'.frames.size where
  along := .second (Heap.parent?_newFrame_self _)
    (hs.along.onward ⟨fun _ _ ht => ht, .refl h, .newFrame⟩)
  aligned := .second hs.aligned
  realizes := hs.realizes.newFrame (by simp)

end Standing

/-! ## Where a node finds its name

A distance counts scopes on one side.  Along aligned chains it is translated to the other side by
leaving out the frames that stand alone. -/

section Names

variable {T : Pairs} {h h' : Heap} {ms : List Mark} {scopes scopes' : List Scope} {f f' : Nat}

/-- **A name leads to twins**, or no scope declares it on either side. -/
theorem Along.distance? (ha : Along T h h' ms f f') (hs : Aligned ms scopes scopes')
    (ref : Reference) :
    (Visit.distance? ⟨ref, scopes⟩ = none ∧ Visit.distance? ⟨ref, scopes'⟩ = none)
      ∨ ∃ d d' g g' scope, Visit.distance? ⟨ref, scopes⟩ = some d
        ∧ Visit.distance? ⟨ref, scopes'⟩ = some d' ∧ scopes[d]? = some scope
        ∧ scopes'[d']? = some scope ∧ h.ancestor? f d = some g ∧ h'.ancestor? f' d' = some g'
        ∧ T g g' := by
  simp only [Visit.distance?, Visit.name]
  induction ha generalizing scopes scopes' with
  | globals htwins =>
    cases hs with
    | both scope houter =>
      cases houter
      cases hl : (scope.lookup ref.token.lexeme).isSome with
      | false => exact .inl (by simp [List.findIdx?_cons, hl])
      | true =>
        exact .inr ⟨0, 0, _, _, scope, by simp [List.findIdx?_cons, hl],
          by simp [List.findIdx?_cons, hl], rfl, rfl, rfl, rfl, htwins⟩
  | both htwins hparent hparent' _ ih =>
    cases hs with
    | both scope houter =>
      cases hl : (scope.lookup ref.token.lexeme).isSome with
      | true =>
        exact .inr ⟨0, 0, _, _, scope, by simp [List.findIdx?_cons, hl],
          by simp [List.findIdx?_cons, hl], rfl, rfl, rfl, rfl, htwins⟩
      | false =>
        obtain ⟨hd, hd'⟩ | ⟨d, d', g, g', _, hd, hd', hscope, hscope', hg, hg', ht⟩ := ih houter
        · exact .inl (by simp [List.findIdx?_cons, hl, hd, hd'])
        · exact .inr ⟨d + 1, d' + 1, g, g', _, by simp [List.findIdx?_cons, hl, hd],
            by simp [List.findIdx?_cons, hl, hd'], hscope, hscope',
            by simp [Heap.ancestor?, hparent, hg], by simp [Heap.ancestor?, hparent', hg'], ht⟩
  | first hparent _ ih =>
    cases hs with
    | first houter =>
      obtain ⟨hd, hd'⟩ | ⟨d, d', g, g', _, hd, hd', hscope, hscope', hg, hg', ht⟩ := ih houter
      · exact .inl (by simp [List.findIdx?_cons, hd, hd'])
      · exact .inr ⟨d + 1, d', g, g', _, by simp [List.findIdx?_cons, hd], hd', hscope, hscope',
          by simp [Heap.ancestor?, hparent, hg], hg', ht⟩
  | second hparent' _ ih =>
    cases hs with
    | second houter =>
      obtain ⟨hd, hd'⟩ | ⟨d, d', g, g', _, hd, hd', hscope, hscope', hg, hg', ht⟩ := ih houter
      · exact .inl (by simp [List.findIdx?_cons, hd, hd'])
      · exact .inr ⟨d, d' + 1, g, g', _, hd, by simp [List.findIdx?_cons, hd'], hscope, hscope', hg,
          by simp [Heap.ancestor?, hparent', hg'], ht⟩

/-- A visit that is legible in both scopes finds a complete declaration on both sides, or a
declaration that is under way in the innermost scope of both. -/
theorem distance_eq_or_complete {ref : Reference} {d d' : Nat} {scope : Scope}
    (hd : Visit.distance? ⟨ref, scopes⟩ = some d) (hd' : Visit.distance? ⟨ref, scopes'⟩ = some d')
    (hscope : scopes[d]? = some scope) (hscope' : scopes'[d']? = some scope)
    (hlegible : Visit.Legible ⟨ref, scopes⟩) (hlegible' : Visit.Legible ⟨ref, scopes'⟩) :
    d = d' ∨ scope.lookup ref.token.lexeme = some true := by
  rcases hlegible with hfirm | ⟨-, hown⟩
  · exact .inr (hfirm d scope hd hscope)
  · rcases hlegible' with hfirm' | ⟨-, hown'⟩
    · exact .inr (hfirm' d' scope hd' hscope')
    · rw [Visit.distance?_of_inOwnInitializer hown] at hd
      rw [Visit.distance?_of_inOwnInitializer hown'] at hd'
      exact .inl (Option.some.inj (hd.symm.trans hd'))

variable {D D' : Distances} {w : World} {m : Machine}

/-- **A node finds its name in twins**, or it is missed on both sides for the same reason. -/
theorem World.Twin.binding (ht : w.Twin D D' T m.heap) {ref : Reference}
    (hs : Standing T w.heap m.heap ms scopes scopes' f m.frame) (hD : m.distances = D')
    (ha : Answers D ⟨ref, scopes⟩) (ha' : Answers D' ⟨ref, scopes'⟩) :
    Both T (w.binding D f ref.node ref.token.lexeme).1 (m.binding ref.node ref.token.lexeme).1
      ∧ ((m.binding ref.node ref.token.lexeme).1 = none →
        (w.binding D f ref.node ref.token.lexeme).2 = (m.binding ref.node ref.token.lexeme).2) := by
  obtain ⟨hdistance, hlegible⟩ := ha
  obtain ⟨hdistance', hlegible'⟩ := ha'
  simp only [Visit.node] at hdistance hdistance'
  simp only [World.binding, Machine.binding, hD, hdistance, hdistance']
  obtain ⟨hd, hd'⟩ | ⟨d, d', g, g', scope, hd, hd', hscope, hscope', hg, hg', htwins⟩ :=
    hs.along.distance? hs.aligned ref
  · simp only [hd, hd', Heap.binder?_globals_eq, ht.bound ht.globals]
    refine ⟨?_, fun _ => trivial⟩
    split
    · exact .inr ⟨_, _, rfl, rfl, ht.globals⟩
    · exact .inl ⟨rfl, rfl⟩
  · simp only [hd, hd', Heap.binderAt?, hg, hg', Option.filter_some, ht.bound htwins]
    split
    · exact ⟨.inr ⟨g, g', rfl, rfl, htwins⟩, fun h => absurd h (by simp)⟩
    · next hunbound =>
      refine ⟨.inl ⟨rfl, rfl⟩, fun _ => ?_⟩
      rcases distance_eq_or_complete hd hd' hscope hscope' hlegible hlegible' with heq | hcomplete
      · rw [heq]
      · obtain ⟨k, hk, hcovers⟩ := hs.realizes.ancestor? hscope'
        obtain rfl : g' = k := Option.some.inj (hg'.symm.trans hk)
        exact absurd (hcovers _ hcomplete) hunbound

end Names

/-! ## What keeps a world beside a heap -/

namespace World.Twin

variable {D D' : Distances} {T T₁ : Pairs} {w : World} {h' : Heap} {f f' : Nat} {name : Text}
  {v : Value} {bindings : Bindings}

/-- A change of the frames only, with more twins. -/
theorem of_frames (ht : w.Twin D D' T h') {h₁ h₁' : Heap} (ho : Onward T T₁ w.heap h₁ h' h₁')
    (hfunctional : ∀ {f g g'}, T₁ f g → T₁ f g' → g = g')
    (hinjective : ∀ {f f' g}, T₁ f g → T₁ f' g → f = f')
    (hrange : ∀ {f f'}, T₁ f f' → f < h₁.frames.size ∧ f' < h₁'.frames.size)
    (hbound : ∀ {f f'}, T₁ f f' → ∀ name, h₁.bound? f name = h₁'.bound? f' name)
    (hobjects : h₁.objects = w.heap.objects) (hobjects' : h₁'.objects = h'.objects)
    (hclosures' : h₁'.closures = h'.closures) (hyouths' : h₁'.youths = h'.youths) :
    World.Twin D D' T₁ { w with heap := h₁ } h₁' where
  globals := ho.pairs _ _ ht.globals
  functional := hfunctional
  injective := hinjective
  range := hrange
  bound := hbound
  natives := ho.first.natives.trans (ht.natives.trans ho.second.natives.symm)
  objects := hobjects.trans (ht.objects.trans hobjects'.symm)
  closures := by
    rw [hclosures']
    exact ht.closures.imp fun _ _ hc => hc.onward ho
  youths := by
    rw [hyouths']
    exact ht.youths.imp fun _ _ hy => hy.onward ho

/-- A name bound on both sides makes no new pair of frames. -/
theorem onward_define (T : Pairs) (w : World) (h' : Heap) :
    Onward T T w.heap (w.define f name v).heap h' (h'.define f' name v) :=
  ⟨fun _ _ ht => ht, .define, .define⟩

/-- A name bound in twins. -/
theorem define (ht : w.Twin D D' T h') (htwins : T f f') :
    (w.define f name v).Twin D D' T (h'.define f' name v) := by
  refine ht.of_frames (onward_define T w h') ht.functional ht.injective (fun h => ?_)
    (fun {g g'} h other => ?_) rfl rfl rfl rfl
  · simpa using ht.range h
  · by_cases hg : g = f
    · subst hg
      obtain rfl := ht.functional htwins h
      by_cases hother : other = name
      · obtain ⟨hlt, hlt'⟩ := ht.range h
        rw [hother, Heap.bound?_define_self hlt, Heap.bound?_define_self hlt']
      · rw [Heap.bound?_define_of_name_ne hother, Heap.bound?_define_of_name_ne hother,
          ht.bound h other]
    · have hg' : g' ≠ f' := fun he => hg (ht.injective h (he ▸ htwins))
      rw [Heap.bound?_define_of_ne hg, Heap.bound?_define_of_ne hg', ht.bound h other]

/-- A scope entered on both sides makes one. -/
theorem onward_enter (T : Pairs) (w : World) (h' : Heap) :
    Onward T (T.insert w.heap.frames.size h'.frames.size) w.heap (w.newFrame f bindings).heap h'
      (h'.newFrame (some f') bindings) :=
  ⟨fun _ _ ht => .inl ht, .newFrame, .newFrame⟩

/-- New frames on both sides, twins with the same names. -/
theorem enter (ht : w.Twin D D' T h') :
    (w.newFrame f bindings).Twin D D' (T.insert w.heap.frames.size h'.frames.size)
      (h'.newFrame (some f') bindings) := by
  refine ht.of_frames (onward_enter T w h') ?_ ?_ ?_ ?_ rfl rfl rfl rfl
  · rintro g k k' (h | ⟨rfl, rfl⟩) (h' | ⟨hg, rfl⟩)
    · exact ht.functional h h'
    · exact absurd (ht.range h).1 (hg ▸ Nat.lt_irrefl _)
    · exact absurd (ht.range h').1 (Nat.lt_irrefl _)
    · rfl
  · rintro g g' k (h | ⟨rfl, rfl⟩) (h' | ⟨rfl, hk⟩)
    · exact ht.injective h h'
    · exact absurd (ht.range h).2 (hk ▸ Nat.lt_irrefl _)
    · exact absurd (ht.range h').2 (Nat.lt_irrefl _)
    · rfl
  · rintro g g' (h | ⟨rfl, rfl⟩)
    · obtain ⟨hlt, hlt'⟩ := ht.range h
      simp only [Heap.size_frames_newFrame]
      omega
    · simp
  · rintro g g' (h | ⟨rfl, rfl⟩) other
    · obtain ⟨hlt, hlt'⟩ := ht.range h
      rw [Heap.bound?_newFrame_of_lt hlt, Heap.bound?_newFrame_of_lt hlt', ht.bound h other]
    · rw [Heap.bound?_newFrame_self, Heap.bound?_newFrame_self]

/-- A scope entered on the first side alone makes none. -/
theorem onward_first (T : Pairs) (w : World) (h' : Heap) :
    Onward T T w.heap (w.newFrame f bindings).heap h' h' :=
  ⟨fun _ _ ht => ht, .newFrame, .refl h'⟩

/-- A new frame on the first side. -/
theorem enter_first (ht : w.Twin D D' T h') : (w.newFrame f bindings).Twin D D' T h' := by
  refine ht.of_frames (onward_first T w h') ht.functional ht.injective (fun h => ?_)
    (fun h other => ?_) rfl rfl rfl rfl
  · obtain ⟨hlt, hlt'⟩ := ht.range h
    exact ⟨by simp only [Heap.size_frames_newFrame]; omega, hlt'⟩
  · rw [Heap.bound?_newFrame_of_lt (ht.range h).1, ht.bound h other]

/-- Nor does one entered on the second side alone. -/
theorem onward_second (T : Pairs) (w : World) (h' : Heap) :
    Onward T T w.heap w.heap h' (h'.newFrame (some f') bindings) :=
  ⟨fun _ _ ht => ht, .refl w.heap, .newFrame⟩

/-- A new frame on the second side. -/
theorem enter_second (ht : w.Twin D D' T h') : w.Twin D D' T (h'.newFrame (some f') bindings) := by
  refine ht.of_frames (onward_second T w h') ht.functional ht.injective (fun h => ?_)
    (fun h other => ?_) rfl rfl rfl rfl
  · obtain ⟨hlt, hlt'⟩ := ht.range h
    exact ⟨hlt, by simp only [Heap.size_frames_newFrame]; omega⟩
  · rw [Heap.bound?_newFrame_of_lt (ht.range h).2, ht.bound h other]

/-! Functions, youths and objects are made under the same numbers. -/

/-- Both sides have made as many functions. -/
theorem size_closures (ht : w.Twin D D' T h') : w.closures.size = h'.closures.size :=
  ht.closures.length_eq

/-- Both sides have made as many classes. -/
theorem size_youths (ht : w.Twin D D' T h') : w.youths.size = h'.youths.size :=
  ht.youths.length_eq

/-- The same number is that of twins, or of nothing on either side. -/
theorem closure? (ht : w.Twin D D' T h') (id : Nat) :
    Both (Closure.Twin D D' T w.heap h' []) w.closures[id]? h'.closures[id]? := by
  simpa using getElem?_of_forall₂ ht.closures id

/-- The same for classes. -/
theorem youth? (ht : w.Twin D D' T h') (id : Nat) :
    Both (Youth.Twin D D' T w.heap h') w.youths[id]? h'.youths[id]? := by
  simpa using getElem?_of_forall₂ ht.youths id

/-- The methods of an object are beside what they stand for. -/
theorem method? (ht : w.Twin D D' T h') (object : Nat) (name : Text) :
    Both (Closure.Twin D D' T w.heap h' [[(receiver, true)]])
      ((w.youthOf? object).bind fun y => y.methods.lookup name)
      ((h'.youthOf? object).bind fun y => y.methods.lookup name) := by
  simp only [World.youthOf?, Heap.youthOf?, ht.objects]
  cases h'.objects[object]? with
  | none => exact .inl ⟨rfl, rfl⟩
  | some o =>
    simp only [Option.bind_some]
    obtain ⟨hy, hy'⟩ | ⟨y, y', hy, hy', htwin⟩ := ht.youth? o.youth
    · rw [hy, hy']
      exact .inl ⟨rfl, rfl⟩
    · rw [hy, hy']
      exact lookup_of_forall₂ htwin.methods name

/-- A function made on both sides leaves all frames as they are. -/
theorem onward_newClosure (T : Pairs) (w : World) (h' : Heap) (c : Closure)
    (c' : YouthLang.Closure) :
    Onward T T w.heap (w.newClosure c).heap h' (h'.newClosure c') :=
  ⟨fun _ _ ht => ht, .refl w.heap, .newClosure⟩

/-- Twins may be made on both sides. -/
theorem newClosure (ht : w.Twin D D' T h') {c : Closure} {c' : YouthLang.Closure}
    (hc : c.Twin D D' T w.heap h' [] c') : (w.newClosure c).Twin D D' T (h'.newClosure c') := by
  have ho := onward_newClosure T w h' c c'
  refine ⟨ht.globals, ht.functional, ht.injective, ht.range, ht.bound, ht.natives, ht.objects, ?_,
    ht.youths.imp fun _ _ hy => hy.onward ho⟩
  simpa [World.newClosure, Heap.newClosure] using
    List.rel_append (ht.closures.imp fun _ _ hc => hc.onward ho) (.cons (hc.onward ho) .nil)

/-- So does a class. -/
theorem onward_newYouth (T : Pairs) (w : World) (h' : Heap) (y : Youth) (y' : YouthLang.Youth) :
    Onward T T w.heap (w.newYouth y).heap h' (h'.newYouth y') :=
  ⟨fun _ _ ht => ht, .refl w.heap, .newYouth⟩

/-- Twins among classes may be made as well. -/
theorem newYouth (ht : w.Twin D D' T h') {y : Youth} {y' : YouthLang.Youth}
    (hy : y.Twin D D' T w.heap h' y') : (w.newYouth y).Twin D D' T (h'.newYouth y') := by
  have ho := onward_newYouth T w h' y y'
  refine ⟨ht.globals, ht.functional, ht.injective, ht.range, ht.bound, ht.natives, ht.objects,
    ht.closures.imp fun _ _ hc => hc.onward ho, ?_⟩
  simpa [World.newYouth, Heap.newYouth] using
    List.rel_append (ht.youths.imp fun _ _ hy => hy.onward ho) (.cons (hy.onward ho) .nil)

/-- And an object. -/
theorem onward_newObject (T : Pairs) (w : World) (h' : Heap) (o : Object) :
    Onward T T w.heap (w.heap.newObject o) h' (h'.newObject o) :=
  ⟨fun _ _ ht => ht, .newObject, .newObject⟩

/-- An object is the same on both sides, as it holds only values. -/
theorem newObject (ht : w.Twin D D' T h') (o : Object) :
    World.Twin D D' T { w with heap := w.heap.newObject o } (h'.newObject o) := by
  have ho := onward_newObject T w h' o
  exact ⟨ht.globals, ht.functional, ht.injective, ht.range, ht.bound, ht.natives,
    congrArg (Array.push · o) ht.objects, ht.closures.imp fun _ _ hc => hc.onward ho,
    ht.youths.imp fun _ _ hy => hy.onward ho⟩

/-- A field written leaves all frames as they are. -/
theorem onward_setField (T : Pairs) (w : World) (h' : Heap) (object : Nat) (name : Text)
    (v : Value) :
    Onward T T w.heap (w.heap.setField object name v) h' (h'.setField object name v) :=
  ⟨fun _ _ ht => ht, .setField, .setField⟩

/-- A field written on both sides is the same afterwards. -/
theorem setField (ht : w.Twin D D' T h') (object : Nat) (name : Text) (v : Value) :
    World.Twin D D' T { w with heap := w.heap.setField object name v }
      (h'.setField object name v) := by
  have ho := onward_setField T w h' object name v
  exact ⟨ht.globals, ht.functional, ht.injective, ht.range, ht.bound, ht.natives,
    congrArg (fun objects : Array Object =>
      objects.modify object fun o => { o with fields := o.fields.put name v }) ht.objects,
    ht.closures.imp fun _ _ hc => hc.onward ho, ht.youths.imp fun _ _ hy => hy.onward ho⟩

/-- What is printed and what the clock tells is not in the heap. -/
theorem aside (ht : w.Twin D D' T h') (clock : Clock) (output : List Text) :
    World.Twin D D' T { w with clock := clock, output := output } h' :=
  ⟨ht.globals, ht.functional, ht.injective, ht.range, ht.bound, ht.natives, ht.objects, ht.closures,
    ht.youths⟩

/-! Values are printed and called alike. -/

/-- A class has the same name on both sides. -/
theorem youthName (ht : w.Twin D D' T h') (id : Nat) : w.youthName id = h'.youthName id := by
  obtain ⟨hy, hy'⟩ | ⟨y, y', hy, hy', htwin⟩ := ht.youth? id
  · rw [World.youthName, Heap.youthName, hy, hy']
    rfl
  · simp [World.youthName, Heap.youthName, hy, hy', htwin.name]

/-- A value is printed alike. -/
theorem describe (ht : w.Twin D D' T h') (v : Value) : w.describe v = h'.describe v := by
  cases v with
  | function id =>
    obtain ⟨hc, hc'⟩ | ⟨c, c', hc, hc', htwin⟩ := ht.closure? id
    · rw [World.describe, Heap.describe, hc, hc']
      rfl
    · obtain ⟨⟨name, parameters, body⟩, frame⟩ := c
      simp [World.describe, Heap.describe, hc, hc', htwin.declaration, Function.desugar,
        Function.name, YouthLang.Function.name]
  | youth id => exact ht.youthName id
  | object id => simp only [World.describe, Heap.describe, ht.objects, ht.youthName]
  | truth b => cases b <;> rfl
  | _ => rfl

/-- What is called takes as many arguments. -/
theorem arity? (ht : w.Twin D D' T h') {m : Machine} (hm : m.heap = h') (v : Value) :
    w.arity? v = m.arity? v := by
  subst hm
  cases v with
  | native id => simp only [World.arity?, Machine.arity?, ht.natives]
  | function id =>
    obtain ⟨hc, hc'⟩ | ⟨c, c', hc, hc', htwin⟩ := ht.closure? id
    · rw [World.arity?, Machine.arity?, hc, hc']
      rfl
    · obtain ⟨⟨name, parameters, body⟩, frame⟩ := c
      simp [World.arity?, Machine.arity?, hc, hc', htwin.declaration, Function.desugar,
        Function.parameters, YouthLang.Function.parameters]
  | youth id =>
    obtain ⟨hy, hy'⟩ | ⟨y, y', hy, hy', -⟩ := ht.youth? id
    · rw [World.arity?, Machine.arity?, hy, hy']
      rfl
    · simp [World.arity?, Machine.arity?, hy, hy']
  | _ => rfl

end World.Twin

end Counting

end YouthLang

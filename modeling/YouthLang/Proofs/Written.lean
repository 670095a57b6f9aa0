import YouthLang.Proofs.Built

/-!
# Proofs/Written — trees are written with the tokens of a source

A parser keeps tokens in the tree that it makes (`Stmt.Written`), and it reports a mistake at a token
in front of it.  The walk over the scopes reports at tokens of the tree, and so does a run.  So
whatever is found out about a source behind its pieces is found at one of its tokens
(`parse_written`, `isAt_of_mem_resolved`, `Session.isAt_of_failing`).
-/

namespace YouthLang

/-! ## The tokens of a tree -/

section

variable (A : Token → Prop)

mutual

/-- Every token that an expression keeps is allowed. -/
def Expr.Written : Expr → Prop
  | .literal _ => True
  | .variable _ t => A t
  | .me _ t => A t
  | .group e => e.Written
  | .unary _ t e => A t ∧ e.Written
  | .binary _ t left right => A t ∧ left.Written ∧ right.Written
  | .logical _ t left right => A t ∧ left.Written ∧ right.Written
  | .assign _ t e => A t ∧ e.Written
  | .get e t => A t ∧ e.Written
  | .set object t value => A t ∧ object.Written ∧ value.Written
  | .call callee t arguments => A t ∧ callee.Written ∧ ArgumentsWritten arguments

/-- The same for a list of expressions. -/
def ArgumentsWritten : List Expr → Prop
  | [] => True
  | e :: rest => e.Written ∧ ArgumentsWritten rest

end

mutual

/-- Every token that a statement keeps is allowed. -/
def Stmt.Written : Stmt → Prop
  | .failed => True
  | .expression e => e.Written A
  | .tell e => e.Written A
  | .declare t none => A t
  | .declare t (some e) => A t ∧ e.Written A
  | .give t none => A t
  | .give t (some e) => A t ∧ e.Written A
  | .block body => BodyWritten body
  | .branch e yes none => e.Written A ∧ yes.Written
  | .branch e yes (some no) => e.Written A ∧ yes.Written ∧ no.Written
  | .loop e body => e.Written A ∧ body.Written
  | .function f => f.Written
  | .youth t methods => A t ∧ MethodsWritten methods

/-- The same for a function. -/
def Function.Written : Function → Prop
  | .mk name parameters body => A name ∧ (∀ p ∈ parameters, A p) ∧ BodyWritten body

/-- The same for a list of statements. -/
def BodyWritten : List Stmt → Prop
  | [] => True
  | s :: rest => s.Written ∧ BodyWritten rest

/-- The same for a list of methods. -/
def MethodsWritten : List Function → Prop
  | [] => True
  | m :: rest => m.Written ∧ MethodsWritten rest

end

end

variable {A : Token → Prop}

theorem argumentsWritten_iff {es : List Expr} : ArgumentsWritten A es ↔ ∀ e ∈ es, e.Written A := by
  induction es with
  | nil => simp [ArgumentsWritten]
  | cons e es ih => simp [ArgumentsWritten, ih]

theorem bodyWritten_iff {body : List Stmt} : BodyWritten A body ↔ ∀ s ∈ body, s.Written A := by
  induction body with
  | nil => simp [BodyWritten]
  | cons s body ih => simp [BodyWritten, ih]

theorem methodsWritten_iff {ms : List Function} :
    MethodsWritten A ms ↔ ∀ m ∈ ms, m.Written A := by
  induction ms with
  | nil => simp [MethodsWritten]
  | cons m ms ih => simp [MethodsWritten, ih]

/-! ## Parsed trees -/

/-- The rules of the language keep tokens that were read. -/
def written : Building A where
  expr := Expr.Written A
  stmt := Stmt.Written A
  routine := Function.Written A
  literal _ _ := trivial
  endless := trivial
  mention ht := ht.2
  me ht := ht.2
  group he := he
  unary ht he := ⟨ht.2, he⟩
  binary ht hleft hright := ⟨ht.2, hleft, hright⟩
  logical ht hleft hright := ⟨ht.2, hleft, hright⟩
  assign ht he := ⟨ht, he⟩
  get he ht := ⟨ht.2, he⟩
  set hget hvalue := ⟨hget.1, hget.2, hvalue⟩
  call he ht hes := ⟨ht.2, he, argumentsWritten_iff.mpr hes⟩
  failed := trivial
  expression he := he
  tell he := he
  declare {_ e?} ht he := by
    cases e? with
    | none => exact ht.2
    | some e => exact ⟨ht.2, he e rfl⟩
  give {_ e?} ht he := by
    cases e? with
    | none => exact ht.2
    | some e => exact ⟨ht.2, he e rfl⟩
  block hbody := bodyWritten_iff.mpr hbody
  branch {_ _ no?} he hyes hno := by
    cases no? with
    | none => exact ⟨he, hyes⟩
    | some no => exact ⟨he, hyes, hno no rfl⟩
  loop he hbody := ⟨he, hbody⟩
  function hf := hf
  youth ht hms := ⟨ht.2, methodsWritten_iff.mpr hms⟩
  define ht hps hbody := ⟨ht.2, fun p hp => (hps p hp).2, bodyWritten_iff.mpr hbody⟩

/-- **A parsed program keeps tokens that it was parsed from**, and every mistake is at one of
them. -/
theorem parse_written (node : Nat) {tokens : List Token} (h : ∀ t ∈ tokens, A t) :
    BodyWritten A (parse node tokens).statements
      ∧ ∀ d ∈ (parse node tokens).diagnostics, ∃ t, A t ∧ d.IsAt t :=
  ⟨bodyWritten_iff.mpr (written.parse node h).1, (written.parse node h).2⟩

/-! ## The walk over the scopes -/

/-- Every mistake found on a walk so far is at an allowed token. -/
def Resolution.Blames (A : Token → Prop) (r : Resolution) : Prop :=
  ∀ d ∈ r.mistakes, ∃ t, A t ∧ d.IsAt t

namespace Resolution.Blames

variable {r : Resolution} {t : Token}

theorem report (hr : r.Blames A) (ht : A t) (cause : ScopeCause) : (r.report t cause).Blames A :=
  List.forall_mem_cons.mpr ⟨⟨t, ht, rfl, rfl, rfl, nofun, rfl, nofun⟩, hr⟩

theorem note (hr : r.Blames A) (name : Text) (complete : Bool) :
    (r.note name complete).Blames A := by
  unfold Resolution.note
  split <;> exact hr

theorem declare (hr : r.Blames A) (ht : A t) : (r.declare t).Blames A := by
  unfold Resolution.declare
  split
  · exact (hr.report ht _).note _ _
  · exact hr.note _ _

theorem define (hr : r.Blames A) (t : Token) : (r.define t).Blames A := hr.note _ _

theorem resolve (hr : r.Blames A) (node : Nat) (name : Text) : (r.resolve node name).Blames A := by
  unfold Resolution.resolve
  split <;> exact hr

theorem parameters : ∀ {ps : List Token} {r : Resolution}, r.Blames A → (∀ p ∈ ps, A p) →
    (ps.foldl (fun r p => (r.declare p).define p) r).Blames A
  | [], _, hr, _ => hr
  | p :: ps, r, hr, h => by
      obtain ⟨hp, hps⟩ := List.forall_mem_cons.mp h
      rw [List.foldl_cons]
      exact parameters ((hr.declare hp).define p) hps

end Resolution.Blames

mutual

theorem Expr.blames_resolve {r : Resolution} (hr : r.Blames A) :
    ∀ {e : Expr}, e.Written A → (e.resolve r).Blames A
  | .literal _, _ => hr
  | .variable node t, h => by
      simp only [Expr.resolve]
      split
      · exact (hr.report h _).resolve node t.lexeme
      · exact hr.resolve node t.lexeme
  | .me node t, h => by
      simp only [Expr.resolve]
      split
      · exact hr.resolve node t.lexeme
      · exact hr.report h _
  | .group e, h => e.blames_resolve hr h
  | .unary _ _ e, h => e.blames_resolve hr h.2
  | .binary _ _ left right, h => right.blames_resolve (left.blames_resolve hr h.2.1) h.2.2
  | .logical _ _ left right, h => right.blames_resolve (left.blames_resolve hr h.2.1) h.2.2
  | .assign node t e, h => (e.blames_resolve hr h.2).resolve node t.lexeme
  | .get e _, h => e.blames_resolve hr h.2
  | .set object _ value, h => object.blames_resolve (value.blames_resolve hr h.2.2) h.2.1
  | .call callee _ arguments, h => blames_resolveArguments (callee.blames_resolve hr h.2.1) h.2.2

theorem blames_resolveArguments {r : Resolution} (hr : r.Blames A) :
    ∀ {es : List Expr}, ArgumentsWritten A es → (resolveArguments r es).Blames A
  | [], _ => hr
  | e :: _, h => blames_resolveArguments (e.blames_resolve hr h.1) h.2

end

mutual

theorem Stmt.blames_resolve {r : Resolution} (hr : r.Blames A) :
    ∀ {s : Stmt}, s.Written A → (s.resolve r).Blames A
  | .failed, _ => hr
  | .expression _, h => Expr.blames_resolve hr h
  | .tell _, h => Expr.blames_resolve hr h
  | .declare t none, h => (hr.declare h).define t
  | .declare t (some _), h => (Expr.blames_resolve (hr.declare h.1) h.2).define t
  | .give t none, h => by
      simp only [Stmt.resolve]
      split
      · exact hr
      · exact hr.report h _
  | .give t (some e), h => by
      simp only [Stmt.resolve]
      split
      · exact Expr.blames_resolve hr h.2
      · exact Expr.blames_resolve (hr.report h.1 _) h.2
  | .block body, h => blames_resolveBody (r := r.enter []) hr h
  | .branch _ _ none, h => Stmt.blames_resolve (Expr.blames_resolve hr h.1) h.2
  | .branch _ _ (some _), h =>
    Stmt.blames_resolve (Stmt.blames_resolve (Expr.blames_resolve hr h.1) h.2.1) h.2.2
  | .loop _ _, h => Stmt.blames_resolve (Expr.blames_resolve hr h.1) h.2
  | .function f, h => by
      obtain ⟨name, parameters, body⟩ := f
      exact Function.blames_resolve ((hr.declare h.1).define name) h
  | .youth t methods, h =>
    blames_resolveMethods
      (r := { (((r.declare t).define t).enter [(receiver, true)]) with inYouth := true })
      ((hr.declare h.1).define t) h.2

theorem Function.blames_resolve {r : Resolution} (hr : r.Blames A) :
    ∀ {f : Function}, f.Written A → (f.resolve r).Blames A
  | .mk _ parameters body, h => by
      have hparameters := Resolution.Blames.parameters (r := r.enter []) hr h.2.1
      rw [Function.resolve]
      exact blames_resolveBody (r := { (parameters.foldl (fun r p => (r.declare p).define p)
        (r.enter [])) with inFunction := true }) hparameters h.2.2

theorem blames_resolveBody {r : Resolution} (hr : r.Blames A) :
    ∀ {body : List Stmt}, BodyWritten A body → (resolveBody r body).Blames A
  | [], _ => hr
  | _ :: _, h => blames_resolveBody (Stmt.blames_resolve hr h.1) h.2

theorem blames_resolveMethods {r : Resolution} (hr : r.Blames A) :
    ∀ {ms : List Function}, MethodsWritten A ms → (resolveMethods r ms).Blames A
  | [], _ => hr
  | _ :: _, h => blames_resolveMethods (Function.blames_resolve hr h.1) h.2

end

/-- **Every mistake that the walk finds is at a token of the tree.** -/
theorem isAt_of_mem_resolved {body : List Stmt} (h : BodyWritten A body) :
    ∀ d ∈ (resolve body).diagnostics, ∃ t, A t ∧ d.IsAt t := fun d hd =>
  blames_resolveBody (r := ⟨[[]], false, false, ∅, []⟩) (fun _ hnone => absurd hnone (by simp)) h d
    (List.mem_reverse.mp hd)

/-! ## Runs -/

/-- Every token of a piece of code is allowed. -/
def Code.Written (A : Token → Prop) : Code → Prop
  | .expr e => e.Written A
  | .stmt s => s.Written A
  | .function f => f.Written A
  | .method f => f.Written A

theorem Code.written_parts {c : Code} (h : c.Written A) : ∀ p ∈ c.parts, p.Written A := by
  cases c with
  | expr e =>
    cases e <;>
      simp_all [Code.parts, Expr.parts, Code.Written, Expr.Written, argumentsWritten_iff]
  | stmt s =>
    cases s with
    | declare t value =>
      cases value <;> simp_all [Code.parts, Stmt.parts, Code.Written, Stmt.Written]
    | give t value =>
      cases value <;> simp_all [Code.parts, Stmt.parts, Code.Written, Stmt.Written]
    | branch e yes no =>
      cases no <;> simp_all [Code.parts, Stmt.parts, Code.Written, Stmt.Written]
    | _ => simp_all [Code.parts, Stmt.parts, Code.Written, Stmt.Written, methodsWritten_iff]
  | function f => simp [Code.parts]
  | method f => simp [Code.parts]

theorem Code.written_tokens {c : Code} (h : c.Written A) : ∀ t ∈ c.tokens, A t := by
  cases c with
  | expr e => cases e <;> simp_all [Code.tokens, Code.Written, Expr.Written]
  | _ => simp [Code.tokens]

/-- Code hands its tokens on, whatever the heap does. -/
theorem Code.heritable_written :
    Heritable (fun _ _ => True) A (fun _ => True) fun _ _ _ c => c.Written A where
  keeps _ h := h
  parts h := Code.written_parts h
  tokens h := Code.written_tokens h
  names _ _ _ := trivial
  block h := bodyWritten_iff.mp h
  call {_ _ _ F _} h _ := by
    obtain ⟨name, parameters, body⟩ := F
    exact bodyWritten_iff.mp h.2.2
  bind h _ := h

namespace Machine

variable {m : Machine} {ok : Distances → Visit → Prop}

/-- What is heritable whatever the heap does is kept by a run. -/
theorem Carries.run {T N : Token → Prop} {J : Heap → Nat → Distances → Code → Prop}
    (hJ : Heritable (fun _ _ => True) T N J) (hm : m.Carries T N J) (hs : m.Sound ok) :
    ∀ n, (m.run n).Carries T N J
  | 0 => hm
  | n + 1 => by
      rw [run_succ]
      exact (Carries.run hJ hm hs n).step hJ (hs.run n).ready trivial

end Machine

/-- **A run fails at a token of the program**, if the session has run nothing before. -/
theorem Session.isAt_of_failing {file source : Text} {node : Nat} {clock : Clock}
    (hclean : (analyse node file source).diagnostics = [])
    (hwritten : BodyWritten A (analyse node file source).statements) (n : Nat) {d : Diagnostic}
    (hd : ((fresh file node clock).machineAt source n).failure? = some d) :
    ∃ t, A t ∧ d.IsAt t := by
  have hsound := sound_anywhere (s := fresh file node clock) (Machine.sound_ofClock clock) hclean
  have hstart : ((fresh file node clock).machineAt source 0).Carries A (fun _ => True)
      fun _ _ _ c => c.Written A :=
    .load (Machine.carries_ofClock clock) fun s hs => bodyWritten_iff.mp hwritten s hs
  have hcontrol := (hstart.run Code.heritable_written (hsound 0) n).control
  unfold Machine.failure? at hd
  split at hd
  · next d' hfailing =>
    obtain rfl := Option.some.inj hd
    rw [show Machine.run n ((fresh file node clock).machineAt source 0)
      = (fresh file node clock).machineAt source n from rfl, hfailing] at hcontrol
    exact hcontrol
  · simp at hd

end YouthLang

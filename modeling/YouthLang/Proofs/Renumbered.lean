import YouthLang.Analysis
import YouthLang.Proofs.Grammar.Exact
import YouthLang.Proofs.Scanning.Joined

/-!
# Proofs/Renumbered — the numbers of the nodes do not matter to the analysis

A walk over two trees that differ in the numbers of their nodes only opens the same scopes and finds the
same mistakes (`BodyAlike.resolve`).  So whether a source has a mistake does not depend on the number
that its nodes are counted from (`analyse_clean_iff`).
-/

namespace YouthLang

/-! ## Walks -/

/-- Two walks that are at the same point, whatever the nodes on their way were, and have found only
wrong uses of names. -/
structure Resolution.Agrees (r r' : Resolution) : Prop where
  scopes : r.scopes = r'.scopes
  inFunction : r.inFunction = r'.inFunction
  inYouth : r.inYouth = r'.inYouth
  mistakes : r.mistakes = r'.mistakes
  stage : ∀ d ∈ r.mistakes, d.cause.stage = .resolution

namespace Resolution.Agrees

variable {r r' : Resolution} (h : r.Agrees r')

include h

theorem innermost : r.innermost = r'.innermost := by rw [Resolution.innermost, h.scopes]; rfl

theorem report (t : Token) (cause : ScopeCause) : (r.report t cause).Agrees (r'.report t cause) :=
  ⟨h.scopes, h.inFunction, h.inYouth, by simp only [Resolution.report, h.mistakes],
    List.forall_mem_cons.mpr ⟨rfl, h.stage⟩⟩

theorem note (name : Text) (b : Bool) : (r.note name b).Agrees (r'.note name b) :=
  ⟨by simp [h.scopes], by simp [h.inFunction], by simp [h.inYouth], by simp [h.mistakes],
    by simpa using h.stage⟩

theorem declare (t : Token) : (r.declare t).Agrees (r'.declare t) := by
  unfold Resolution.declare
  rw [h.innermost]
  split
  · exact (h.report t _).note _ _
  · exact h.note _ _

theorem define (t : Token) : (r.define t).Agrees (r'.define t) := h.note _ _

theorem resolve (n n' : Nat) (name : Text) : (r.resolve n name).Agrees (r'.resolve n' name) :=
  ⟨by simp [h.scopes], by simp [h.inFunction], by simp [h.inYouth], by simp [h.mistakes],
    by simpa using h.stage⟩

theorem enter (scope : Scope) : (r.enter scope).Agrees (r'.enter scope) :=
  ⟨congrArg (scope :: ·) h.scopes, h.inFunction, h.inYouth, h.mistakes, h.stage⟩

theorem leave : r.leave.Agrees r'.leave :=
  ⟨congrArg List.tail h.scopes, h.inFunction, h.inYouth, h.mistakes, h.stage⟩

theorem withFunction (b : Bool) : Agrees { r with inFunction := b } { r' with inFunction := b } :=
  ⟨h.scopes, rfl, h.inYouth, h.mistakes, h.stage⟩

theorem withYouth (b : Bool) : Agrees { r with inYouth := b } { r' with inYouth := b } :=
  ⟨h.scopes, h.inFunction, rfl, h.mistakes, h.stage⟩

/-- A value given back is a mistake in both walks or in none. -/
theorem give (t : Token) :
    Agrees (if r.inFunction then r else r.report t .giveOutside)
      (if r'.inFunction then r' else r'.report t .giveOutside) := by
  rw [h.inFunction]
  split
  · exact h
  · exact h.report t _

theorem parameters (ps : List Token) :
    (ps.foldl (fun r p => (r.declare p).define p) r).Agrees
      (ps.foldl (fun r p => (r.declare p).define p) r') := by
  induction ps generalizing r r' with
  | nil => exact h
  | cons p ps ih => exact ih ((h.declare p).define p)

end Resolution.Agrees

section Walks

variable {N : Nat → Nat → Prop}

mutual

theorem Expr.Alike.resolve {r r' : Resolution} {e e' : Expr} (h : Expr.Alike Eq N e e')
    (hr : r.Agrees r') : (e.resolve r).Agrees (e'.resolve r') := by
  match h with
  | .literal _ => exact hr
  | .variable _ hname =>
    subst hname
    simp only [Expr.resolve, hr.innermost]
    split
    · exact (hr.report _ _).resolve _ _ _
    · exact hr.resolve _ _ _
  | .me _ ht =>
    subst ht
    simp only [Expr.resolve, hr.inYouth]
    split
    · exact hr.resolve _ _ _
    · exact hr.report _ _
  | .group h => exact h.resolve hr
  | .unary _ h => exact h.resolve hr
  | .binary _ hl hright => exact hright.resolve (hl.resolve hr)
  | .logical _ hl hright => exact hright.resolve (hl.resolve hr)
  | .assign _ hname h =>
    subst hname
    exact (h.resolve hr).resolve _ _ _
  | .get h _ => exact h.resolve hr
  | .set ho _ h => exact ho.resolve (h.resolve hr)
  | .call h _ hes => exact hes.resolve (h.resolve hr)

theorem ArgumentsAlike.resolve {r r' : Resolution} {es es' : List Expr}
    (h : ArgumentsAlike Eq N es es') (hr : r.Agrees r') :
    (resolveArguments r es).Agrees (resolveArguments r' es') := by
  match h with
  | .nil => exact hr
  | .cons h hes => exact hes.resolve (h.resolve hr)

end

mutual

theorem Stmt.Alike.resolve {r r' : Resolution} {s s' : Stmt} (h : Stmt.Alike Eq N s s')
    (hr : r.Agrees r') : (s.resolve r).Agrees (s'.resolve r') := by
  match h with
  | .failed => exact hr
  | .expression h => exact h.resolve hr
  | .tell h => exact h.resolve hr
  | .bare hname =>
    subst hname
    exact (hr.declare _).define _
  | .declare hname h =>
    subst hname
    exact (h.resolve (hr.declare _)).define _
  | .giveNothing ht =>
    subst ht
    exact hr.give _
  | .give ht h =>
    subst ht
    exact h.resolve (hr.give _)
  | .block h => exact (h.resolve (hr.enter [])).leave
  | .branch hc hyes => exact hyes.resolve (hc.resolve hr)
  | .branches hc hyes hno => exact hno.resolve (hyes.resolve (hc.resolve hr))
  | .loop hc h => exact h.resolve (hc.resolve hr)
  | .function h =>
    have hname : _ = _ := h.name
    simp only [Stmt.resolve, hname]
    exact h.resolve ((hr.declare _).define _)
  | @Stmt.Alike.youth _ _ name _ _ _ hname h =>
    subst hname
    have hentered := ((hr.declare name).define name).enter [(receiver, true)]
    simp only [Stmt.resolve, hr.inYouth]
    exact ((h.resolve (hentered.withYouth true)).leave).withYouth _

theorem Function.Alike.resolve {r r' : Resolution} {f f' : Function} (h : Function.Alike Eq N f f')
    (hr : r.Agrees r') : (f.resolve r).Agrees (f'.resolve r') := by
  match h with
  | @Function.Alike.mk _ _ _ _ ps _ _ _ _ hps h =>
    obtain rfl := List.forall₂_eq_eq_eq ▸ hps
    have hentered := (hr.enter []).parameters ps
    simp only [Function.resolve, hr.inFunction]
    exact ((h.resolve (hentered.withFunction true)).leave).withFunction _

theorem BodyAlike.resolve {r r' : Resolution} {body body' : List Stmt}
    (h : BodyAlike Eq N body body') (hr : r.Agrees r') :
    (resolveBody r body).Agrees (resolveBody r' body') := by
  match h with
  | .nil => exact hr
  | .cons h hbody => exact hbody.resolve (h.resolve hr)

theorem MethodsAlike.resolve {r r' : Resolution} {ms ms' : List Function}
    (h : MethodsAlike Eq N ms ms') (hr : r.Agrees r') :
    (resolveMethods r ms).Agrees (resolveMethods r' ms') := by
  match h with
  | .nil => exact hr
  | .cons h hms => exact hms.resolve (h.resolve hr)

end

end Walks

/-! ## Sources -/

open Grammar

section Programs

variable {program program' : List Stmt} (h : BodyAlike Eq AnyNode program program')

include h

/-- The walks over two programs that differ in the numbers of their nodes only. -/
theorem agrees_resolveBody_of_alike :
    (resolveBody ⟨[[]], false, false, ∅, []⟩ program).Agrees
      (resolveBody ⟨[[]], false, false, ∅, []⟩ program') :=
  h.resolve ⟨rfl, rfl, rfl, rfl, by simp⟩

/-- Trees that differ in the numbers of their nodes only have the same mistakes. -/
theorem diagnostics_resolve_of_alike :
    (resolve program).diagnostics = (resolve program').diagnostics :=
  congrArg List.reverse (agrees_resolveBody_of_alike h).mistakes

/-- The walk over a program finds only wrong uses of names. -/
theorem stage_resolve_of_alike :
    ∀ d ∈ (resolve program).diagnostics, d.cause.stage = .resolution := fun d hd =>
  (agrees_resolveBody_of_alike h).stage d (List.mem_reverse.mp hd)

end Programs

/-- **A source without mistakes** has none in its characters, its tokens are a program, and the program
uses its names rightly. -/
theorem analyse_clean_iff {node : Nat} {file source : Text} :
    (analyse node file source).diagnostics = [] ↔ (scan source).diagnostics = []
      ∧ ∃ program, Program true (wordsOf source) program ∧ (resolve program).diagnostics = [] := by
  have hwords : ∀ t ∈ wordsOf source, t.kind ≠ .endOfSource := fun t ht => (of_mem_wordsOf t ht).1
  simp only [analyse, programOf, parseFrom, List.append_eq_nil_iff, List.map_eq_nil_iff, and_assoc]
  refine and_congr_right fun _ => ?_
  rw [tokens_eq_wordsOf]
  constructor
  · rintro ⟨hparse, hresolve⟩
    exact ⟨_, program_of_parse rfl hwords hparse, hresolve⟩
  · rintro ⟨program, hprogram, hresolve⟩
    obtain ⟨hparse, halike⟩ := @parse_of_program node (wordsOf source)
      ⟨.endOfSource, [], Position.start.after source.glyphs⟩ rfl program hprogram
    exact ⟨hparse, diagnostics_resolve_of_alike halike ▸ hresolve⟩

end YouthLang

import Mathlib.Data.List.Forall2
import YouthLang.Tree

/-!
# Proofs/Alike — trees up to their tokens and nodes

Two trees are alike when they have the same shape, and their tokens and the numbers of their nodes are
related one by one.
-/

namespace YouthLang

/-- Any two nodes. -/
def AnyNode (_ _ : Nat) : Prop := True

section Alike

variable (T : Token → Token → Prop) (N : Nat → Nat → Prop)

mutual

/-- Two expressions that differ in their tokens and nodes only, as relations allow. -/
inductive Expr.Alike : Expr → Expr → Prop
  | literal (v : Literal) : Expr.Alike (.literal v) (.literal v)
  | variable {n n' name name'} (hnode : N n n') (hname : T name name') :
      Expr.Alike (.variable n name) (.variable n' name')
  | me {n n' t t'} (hnode : N n n') (ht : T t t') : Expr.Alike (.me n t) (.me n' t')
  | group {e e'} (h : Expr.Alike e e') : Expr.Alike (.group e) (.group e')
  | unary {op t t' e e'} (ht : T t t') (h : Expr.Alike e e') :
      Expr.Alike (.unary op t e) (.unary op t' e')
  | binary {op t t' l l' r r'} (ht : T t t') (hl : Expr.Alike l l') (hr : Expr.Alike r r') :
      Expr.Alike (.binary op t l r) (.binary op t' l' r')
  | logical {op t t' l l' r r'} (ht : T t t') (hl : Expr.Alike l l') (hr : Expr.Alike r r') :
      Expr.Alike (.logical op t l r) (.logical op t' l' r')
  | assign {n n' name name' e e'} (hnode : N n n') (hname : T name name') (h : Expr.Alike e e') :
      Expr.Alike (.assign n name e) (.assign n' name' e')
  | get {e e' name name'} (h : Expr.Alike e e') (hname : T name name') :
      Expr.Alike (.get e name) (.get e' name')
  | set {o o' name name' e e'} (ho : Expr.Alike o o') (hname : T name name') (h : Expr.Alike e e') :
      Expr.Alike (.set o name e) (.set o' name' e')
  | call {e e' paren paren' es es'} (h : Expr.Alike e e') (hparen : T paren paren')
      (hes : ArgumentsAlike es es') : Expr.Alike (.call e paren es) (.call e' paren' es')

/-- The same for lists of expressions. -/
inductive ArgumentsAlike : List Expr → List Expr → Prop
  | nil : ArgumentsAlike [] []
  | cons {e e' es es'} (h : Expr.Alike e e') (hes : ArgumentsAlike es es') :
      ArgumentsAlike (e :: es) (e' :: es')

end

mutual

/-- Two statements that differ in their tokens and nodes only, as relations allow. -/
inductive Stmt.Alike : Stmt → Stmt → Prop
  | failed : Stmt.Alike .failed .failed
  | expression {e e'} (h : Expr.Alike T N e e') : Stmt.Alike (.expression e) (.expression e')
  | tell {e e'} (h : Expr.Alike T N e e') : Stmt.Alike (.tell e) (.tell e')
  | bare {name name'} (hname : T name name') : Stmt.Alike (.declare name none) (.declare name' none)
  | declare {name name' e e'} (hname : T name name') (h : Expr.Alike T N e e') :
      Stmt.Alike (.declare name (some e)) (.declare name' (some e'))
  | giveNothing {t t'} (ht : T t t') : Stmt.Alike (.give t none) (.give t' none)
  | give {t t' e e'} (ht : T t t') (h : Expr.Alike T N e e') :
      Stmt.Alike (.give t (some e)) (.give t' (some e'))
  | block {body body'} (h : BodyAlike body body') : Stmt.Alike (.block body) (.block body')
  | branch {c c' yes yes'} (hc : Expr.Alike T N c c') (hyes : Stmt.Alike yes yes') :
      Stmt.Alike (.branch c yes none) (.branch c' yes' none)
  | branches {c c' yes yes' no no'} (hc : Expr.Alike T N c c') (hyes : Stmt.Alike yes yes')
      (hno : Stmt.Alike no no') : Stmt.Alike (.branch c yes (some no)) (.branch c' yes' (some no'))
  | loop {c c' body body'} (hc : Expr.Alike T N c c') (h : Stmt.Alike body body') :
      Stmt.Alike (.loop c body) (.loop c' body')
  | function {f f'} (h : Function.Alike f f') : Stmt.Alike (.function f) (.function f')
  | youth {name name' ms ms'} (hname : T name name') (h : MethodsAlike ms ms') :
      Stmt.Alike (.youth name ms) (.youth name' ms')

/-- The same for functions. -/
inductive Function.Alike : Function → Function → Prop
  | mk {name name' ps ps' body body'} (hname : T name name') (hps : List.Forall₂ T ps ps')
      (h : BodyAlike body body') : Function.Alike (.mk name ps body) (.mk name' ps' body')

/-- The same for lists of statements. -/
inductive BodyAlike : List Stmt → List Stmt → Prop
  | nil : BodyAlike [] []
  | cons {s s' body body'} (h : Stmt.Alike s s') (hbody : BodyAlike body body') :
      BodyAlike (s :: body) (s' :: body')

/-- The same for lists of methods. -/
inductive MethodsAlike : List Function → List Function → Prop
  | nil : MethodsAlike [] []
  | cons {f f' ms ms'} (h : Function.Alike f f') (hms : MethodsAlike ms ms') :
      MethodsAlike (f :: ms) (f' :: ms')

end

end Alike

variable {T : Token → Token → Prop} {N : Nat → Nat → Prop}

theorem Function.Alike.name {f f' : Function} (h : Function.Alike T N f f') : T f.name f'.name := by
  obtain ⟨hname, -, -⟩ := h
  exact hname

theorem MethodsAlike.forall₂ {ms ms' : List Function} (h : MethodsAlike T N ms ms') :
    List.Forall₂ (Function.Alike T N) ms ms' := by
  match ms, ms', h with
  | _, _, .nil => exact .nil
  | _, _, .cons h hms => exact .cons h hms.forall₂

end YouthLang

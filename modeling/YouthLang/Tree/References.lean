import YouthLang.Tree

/-!
# Tree/References — the places that name a variable

Every node of a program that reads or writes a name, in the order of the source.
-/

namespace YouthLang

/-- How a node uses a name. -/
inductive Use where
  | read
  | write
  | receiver
deriving DecidableEq, Repr

/-- A node that uses a name. -/
structure Reference where
  use : Use
  token : Token
  node : Nat

mutual

/-- The references of an expression. -/
def Expr.references : Expr → List Reference
  | .literal _ => []
  | .variable node name => [⟨.read, name, node⟩]
  | .me node keyword => [⟨.receiver, keyword, node⟩]
  | .group inner => inner.references
  | .unary _ _ operand => operand.references
  | .binary _ _ left right => left.references ++ right.references
  | .logical _ _ left right => left.references ++ right.references
  | .assign node name value => ⟨.write, name, node⟩ :: value.references
  | .get object _ => object.references
  | .set object _ value => object.references ++ value.references
  | .call callee _ arguments => callee.references ++ argumentReferences arguments

/-- The references of a list of expressions. -/
def argumentReferences : List Expr → List Reference
  | [] => []
  | e :: rest => e.references ++ argumentReferences rest

end

mutual

/-- The references of a statement. -/
def Stmt.references : Stmt → List Reference
  | .failed => []
  | .expression value => value.references
  | .tell value => value.references
  | .declare _ none => []
  | .declare _ (some value) => value.references
  | .give _ none => []
  | .give _ (some value) => value.references
  | .block body => bodyReferences body
  | .branch condition yes none => condition.references ++ yes.references
  | .branch condition yes (some no) => condition.references ++ yes.references ++ no.references
  | .loop condition body => condition.references ++ body.references
  | .function declaration => declaration.references
  | .youth _ methods => methodReferences methods

/-- The references of a function. -/
def Function.references : Function → List Reference
  | .mk _ _ body => bodyReferences body

/-- The references of a list of statements. -/
def bodyReferences : List Stmt → List Reference
  | [] => []
  | s :: rest => s.references ++ bodyReferences rest

/-- The references of a list of methods. -/
def methodReferences : List Function → List Reference
  | [] => []
  | m :: rest => m.references ++ methodReferences rest

end

/-- The references of a program by line and column. -/
def references (statements : List Stmt) : List Reference :=
  (bodyReferences statements).mergeSort fun a b =>
    a.token.place.line < b.token.place.line
      || (a.token.place.line = b.token.place.line && a.token.place.column ≤ b.token.place.column)

end YouthLang

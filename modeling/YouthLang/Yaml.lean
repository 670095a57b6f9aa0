import YouthLang.Text

/-!
# Yaml — settings as a tree

A document is a tree of scalars, mappings and sequences.  A node may be anchored under a name, and an
alias stands for the node that is anchored under its name.  Every node knows the line it starts on.
-/

namespace YouthLang

/-- How a scalar is written. -/
inductive ScalarStyle where
  | plain
  | single
  | double
  | literal
  | folded
deriving DecidableEq, Repr

/-- A node of a document.  The tag is empty unless the document gives one. -/
inductive Yaml where
  | scalar (line : Nat) (tag : Text) (style : ScalarStyle) (value : Text)
  | mapping (line : Nat) (tag : Text) (entries : List (Yaml × Yaml))
  | sequence (line : Nat) (tag : Text) (items : List Yaml)
  /-- `number` tells the aliases of a document apart; `target` is the number of the anchored node. -/
  | alias (line : Nat) (name : Text) (target number : Nat)

namespace Yaml

/-- The line that a node starts on. -/
def line : Yaml → Nat
  | .scalar n _ _ _ => n
  | .mapping n _ _ => n
  | .sequence n _ _ => n
  | .alias n _ _ _ => n

/-- The text of a scalar or the name in an alias. -/
def value : Yaml → Text
  | .scalar _ _ _ v => v
  | .alias _ name _ _ => name
  | _ => []

/-- Whether two keys of a mapping count as the same: they are of one kind and have one text. -/
def isSameKey : Yaml → Yaml → Bool
  | .scalar _ _ _ v, .scalar _ _ _ w => v = w
  | .mapping _ _ _, .mapping _ _ _ => true
  | .sequence _ _ _, .sequence _ _ _ => true
  | .alias _ v _ _, .alias _ w _ _ => v = w
  | _, _ => false

/-- A document: its root and its anchored nodes by number. -/
structure Document where
  root : Yaml
  anchored : List (Nat × Yaml)

/-- The node that an alias stands for, any other node itself. -/
def Document.find? (d : Document) (target : Nat) : Option Yaml := d.anchored.lookup target

end Yaml

end YouthLang

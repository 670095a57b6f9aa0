import YouthLang.Yaml.Failure

/-!
# Yaml/Token — the words of a document

A document is a run of tokens: signs, names, tags and scalars.  Where a block of lines opens or closes
there is a token for that too, though no character stands for it.
-/

namespace YouthLang.Yaml

/-- What a token is. -/
inductive Sign where
  | fileStart
  | fileEnd
  | version (major minor : Nat)
  | tagDirective (handle head : Text)
  | documentStart
  | documentEnd
  | blockSequence
  | blockMapping
  | blockEnd
  | openBracket
  | closeBracket
  | openBrace
  | closeBrace
  | dash
  | comma
  | key
  | value
  | alias (name : Text)
  | anchor (name : Text)
  | tag (handle suffix : Text)
  | scalar (style : ScalarStyle) (value : Text)
deriving DecidableEq, Repr

/-- Whether an entry of a block has no node. -/
def Sign.endsEntry : Sign → Bool
  | .key | .value | .blockEnd => true
  | _ => false

/-- Whether an entry between brackets or braces has no node. -/
def Sign.endsFlowEntry (s close : Sign) : Bool := s = .comma || s = close

/-- A token and the line it starts on. -/
structure Token where
  line : Nat
  sign : Sign
deriving DecidableEq, Repr

end YouthLang.Yaml

import YouthLang.Yaml

/-!
# Yaml/Failure — why a text is no document

A text can fail to be characters, its characters can fail to be tokens, and its tokens can fail to be a
document.  A failure names a line, except when that is the first one.
-/

namespace YouthLang.Yaml

/-- Why bytes are no characters. -/
inductive EncodingCause where
  | leadingOctet
  | incompleteSequence
  | trailingOctet
  | sequenceLength
  | noScalarValue
  | incompleteUnit
  | lowSurrogate
  | incompletePair
  | noLowSurrogate
  | controlCharacter
deriving DecidableEq, Repr

def EncodingCause.message : EncodingCause → Text
  | .leadingOctet => "invalid leading UTF-8 octet"
  | .incompleteSequence => "incomplete UTF-8 octet sequence"
  | .trailingOctet => "invalid trailing UTF-8 octet"
  | .sequenceLength => "invalid length of a UTF-8 sequence"
  | .noScalarValue => "invalid Unicode character"
  | .incompleteUnit => "incomplete UTF-16 character"
  | .lowSurrogate => "unexpected low surrogate area"
  | .incompletePair => "incomplete UTF-16 surrogate pair"
  | .noLowSurrogate => "expected low surrogate area"
  | .controlCharacter => "control characters are not allowed"

/-- Why characters are no tokens. -/
inductive TokenCause where
  | colonExpected
  | tooDeep
  | entryNotAllowed
  | keyNotAllowed
  | valueNotAllowed
  | cannotStart
  | directiveName
  | directiveNameEnd
  | unknownDirective
  | directiveEnd
  | versionDot
  | versionLong
  | versionMissing
  | tagDirectiveBlank
  | blankExpected
  | anchorName
  | tagClose
  | tagMark
  | tagUri
  | uriEscape
  | uriLead
  | uriTrail
  | zeroIndent
  | blockHeaderEnd
  | blockTab
  | documentMarker
  | quoteEnd
  | unknownEscape
  | hexDigit
  | escapeCode
  | plainTab
deriving DecidableEq, Repr

/-- The deepest nesting. -/
def maxDepth : Nat := 10000

def TokenCause.message : TokenCause → Text
  | .colonExpected => "could not find expected ':'"
  | .tooDeep => "exceeded max depth of " ++ Text.ofNat maxDepth
  | .entryNotAllowed => "block sequence entries are not allowed in this context"
  | .keyNotAllowed => "mapping keys are not allowed in this context"
  | .valueNotAllowed => "mapping values are not allowed in this context"
  | .cannotStart => "found character that cannot start any token"
  | .directiveName => "could not find expected directive name"
  | .directiveNameEnd => "found unexpected non-alphabetical character"
  | .unknownDirective => "found unknown directive name"
  | .directiveEnd => "did not find expected comment or line break"
  | .versionDot => "did not find expected digit or '.' character"
  | .versionLong => "found extremely long version number"
  | .versionMissing => "did not find expected version number"
  | .tagDirectiveBlank => "did not find expected whitespace"
  | .blankExpected => "did not find expected whitespace or line break"
  | .anchorName => "did not find expected alphabetic or numeric character"
  | .tagClose => "did not find the expected '>'"
  | .tagMark => "did not find expected '!'"
  | .tagUri => "did not find expected tag URI"
  | .uriEscape => "did not find URI escaped octet"
  | .uriLead => "found an incorrect leading UTF-8 octet"
  | .uriTrail => "found an incorrect trailing UTF-8 octet"
  | .zeroIndent => "found an indentation indicator equal to 0"
  | .blockHeaderEnd => "did not find expected comment or line break"
  | .blockTab => "found a tab character where an indentation space is expected"
  | .documentMarker => "found unexpected document indicator"
  | .quoteEnd => "found unexpected end of stream"
  | .unknownEscape => "found unknown escape character"
  | .hexDigit => "did not find expected hexdecimal number"
  | .escapeCode => "found invalid Unicode character escape code"
  | .plainTab => "found a tab character that violates indentation"

/-- Why tokens are no document. -/
inductive GrammarCause where
  | documentStart
  | duplicateVersion
  | incompatibleVersion
  | duplicateTagDirective
  | undefinedHandle
  | nodeContent
  | dash
  | key
  | commaOrBracket
  | commaOrBrace
deriving DecidableEq, Repr

def GrammarCause.message : GrammarCause → Text
  | .documentStart => "did not find expected <document start>"
  | .duplicateVersion => "found duplicate %YAML directive"
  | .incompatibleVersion => "found incompatible YAML document"
  | .duplicateTagDirective => "found duplicate %TAG directive"
  | .undefinedHandle => "found undefined tag handle"
  | .nodeContent => "did not find expected node content"
  | .dash => "did not find expected '-' indicator"
  | .key => "did not find expected key"
  | .commaOrBracket => "did not find expected ',' or ']'"
  | .commaOrBrace => "did not find expected ',' or '\x7d'"

/-- Why a text is no document, or a document cannot be read.  Lines count from zero; the context of a
cause is where the token or node in question starts. -/
inductive Failure where
  | encoding (cause : EncodingCause)
  | token (context place : Nat) (cause : TokenCause)
  | grammar (context place : Nat) (cause : GrammarCause)
  | unknownAnchor (name : Text)
  | selfContained (name : Text)
  | mergeWithoutMapping
  | undecodable (found value tag : Text)
  | brokenBinary
  | excessiveAliasing
deriving DecidableEq, Repr

namespace Failure

/-- A problem behind the line of its context, or of its place if the context is on the first line. -/
def located (shift context place : Nat) (problem : Text) : Text :=
  let line := if context = 0 then place else context
  if line = 0 then problem else "line " ++ Text.ofNat (line + shift) ++ ": " ++ problem

/-- The sentence that tells what is wrong.  Lines of tokens are counted from one there, those of nodes
from zero. -/
def message : Failure → Text
  | .encoding cause => cause.message
  | .token context place cause => located 1 context place cause.message
  | .grammar context place cause => located 0 context place cause.message
  | .unknownAnchor name => "unknown anchor '" ++ name ++ "' referenced"
  | .selfContained name => "anchor '" ++ name ++ "' value contains itself"
  | .mergeWithoutMapping => "map merge requires map or sequence of maps as the value"
  | .undecodable found value tag =>
    "cannot decode " ++ found ++ " `" ++ value ++ "` as a " ++ tag
  | .brokenBinary => "!!binary value contains invalid base64 data"
  | .excessiveAliasing => "document contains excessive aliasing"

end Failure

end YouthLang.Yaml

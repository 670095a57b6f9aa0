import YouthLang.Text

/-!
# Cause — why a program is refused or stops

One constructor per reason, grouped by the stage that finds it; `Cause.message` has the wording of all
of them.
-/

namespace YouthLang

/-- The stage that finds a mistake. -/
inductive Stage where
  | lexical
  | grammatical
  | resolution
  | runtime
deriving DecidableEq, Repr

/-- The name a report gives the stage. -/
def Stage.label : Stage → Text
  | .lexical => "LexError"
  | .grammatical => "SyntaxError"
  | .resolution => "ResolutionError"
  | .runtime => "RuntimeError"

/-- The reasons to refuse a piece of a source before it is a token. -/
inductive LexicalCause where
  | unterminatedString
  | unrepresentable (numeral : Text)
  | malformedEncoding
  | unexpected (character : Char)
deriving DecidableEq, Repr

/-- The two kinds of declarations with parameters and a body. -/
inductive Routine where
  | function
  | method
deriving DecidableEq, Repr

/-- What carries a name. -/
inductive Named where
  | youth
  | routine (kind : Routine)
  | parameter
  | variable
  | property
deriving DecidableEq, Repr

/-- The places where a parenthesis opens. -/
inductive Opening where
  | youthBody
  | parameters (kind : Routine)
  | routineBody (kind : Routine)
  | loopClauses
  | branchCondition
  | loopCondition
deriving DecidableEq, Repr

/-- The places where a parenthesis closes. -/
inductive Closing where
  | youthBody
  | parameters
  | loopClauses
  | branchCondition
  | loopCondition
  | block
  | arguments
  | group
deriving DecidableEq, Repr

/-- What a semicolon ends. -/
inductive Ending where
  | declaration
  | told
  | given
  | expression
  | loopInitializer
  | loopCondition
deriving DecidableEq, Repr

/-- What the grammar asks for at a place. -/
inductive Wanted where
  | expression
  | listen
  | name (of : Named)
  | opening (place : Opening)
  | closing (place : Closing)
  | semicolon (after : Ending)
deriving DecidableEq, Repr

/-- The reasons to refuse a sequence of tokens. -/
inductive GrammarCause where
  | missing (what : Wanted)
  | tooManyParameters
  | tooManyArguments
  | invalidTarget
deriving DecidableEq, Repr

/-- The reasons to refuse a well-formed program. -/
inductive ScopeCause where
  | duplicate
  | ownInitializer
  | giveOutside
  | meOutside
deriving DecidableEq, Repr

/-- The reasons for a run to stop. -/
inductive RuntimeCause where
  | operandNotNumber
  | operandsNotNumbers
  | operandsNotAddable
  | notCallable
  | arity (expected : Int) (got : Nat)
  | stackOverflow
  | noProperties
  | noFields
  | undefinedProperty (name : Text)
  | undefinedVariable (name : Text)
  | unboundAt (name : Text) (distance : Int)
  | reported (message : Text)
deriving DecidableEq, Repr

/-- Why a program is refused or stops. -/
inductive Cause where
  | lexical (cause : LexicalCause)
  | grammatical (cause : GrammarCause)
  | resolution (cause : ScopeCause)
  | runtime (cause : RuntimeCause)
  | worded (stage : Stage) (message : Text)
deriving DecidableEq, Repr

namespace Cause

/-- The stage that finds the mistake. -/
def stage : Cause → Stage
  | .lexical _ => .lexical
  | .grammatical _ => .grammatical
  | .resolution _ => .resolution
  | .runtime _ => .runtime
  | .worded stage _ => stage

end Cause

/-- The most parameters of a function and arguments of a call. -/
def maxArguments : Nat := 255

/-- The sentence for a refused piece of a source. -/
def LexicalCause.message : LexicalCause → Text
  | .unterminatedString => "Unterminated string."
  | .unrepresentable numeral => "Invalid number '" ++ numeral ++ "'."
  | .malformedEncoding => "Invalid UTF-8 encoding."
  | .unexpected c => "Unexpected character '" ++ String.utf8EncodeChar c ++ "'."

/-- The word for a kind of declaration. -/
def Routine.word : Routine → Text
  | .function => "function"
  | .method => "method"

/-- The words for what the grammar asks for. -/
def Wanted.phrase : Wanted → Text
  | .expression => "expression"
  | .listen => "'listen' before method"
  | .name .youth => "youth name"
  | .name (.routine kind) => kind.word ++ " name"
  | .name .parameter => "parameter name"
  | .name .variable => "variable name"
  | .name .property => "property name after '.'"
  | .opening .youthBody => "'(' before youth body"
  | .opening (.parameters kind) => "'(' after " ++ kind.word ++ " name"
  | .opening (.routineBody kind) => "'(' before " ++ kind.word ++ " body"
  | .opening .loopClauses => "'(' after 'for'"
  | .opening .branchCondition => "'(' after 'if'"
  | .opening .loopCondition => "'(' after 'while'"
  | .closing .youthBody => "')' after youth body"
  | .closing .parameters => "')' after parameters"
  | .closing .loopClauses => "')' after for clauses"
  | .closing .branchCondition => "')' after if condition"
  | .closing .loopCondition => "')' after condition"
  | .closing .block => "')' after block"
  | .closing .arguments => "')' after arguments"
  | .closing .group => "')' after expression"
  | .semicolon .declaration => "';' after variable declaration"
  | .semicolon .told => "';' after value"
  | .semicolon .given => "';' after give value"
  | .semicolon .expression => "';' after expression"
  | .semicolon .loopInitializer => "';' after loop initializer"
  | .semicolon .loopCondition => "';' after loop condition"

/-- The sentence for a refused sequence of tokens. -/
def GrammarCause.message : GrammarCause → Text
  | .missing what => "Expect " ++ what.phrase ++ "."
  | .tooManyParameters => "Can't have more than " ++ Text.ofNat maxArguments ++ " parameters."
  | .tooManyArguments => "Can't have more than " ++ Text.ofNat maxArguments ++ " arguments."
  | .invalidTarget => "Invalid assignment target."

/-- The sentence for a refused program. -/
def ScopeCause.message : ScopeCause → Text
  | .duplicate => "Already a variable with this name in this scope."
  | .ownInitializer => "Can't read local variable in its own initializer."
  | .giveOutside => "Can't return from top-level code."
  | .meOutside => "Can't use 'me' outside of a youth."

/-- The sentence for a stopped run. -/
def RuntimeCause.message : RuntimeCause → Text
  | .operandNotNumber => "Operand must be a number."
  | .operandsNotNumbers => "Operands must be numbers."
  | .operandsNotAddable => "Operands must be two numbers or two strings."
  | .notCallable => "Can only call functions and youths."
  | .arity expected got =>
    "Expected " ++ Text.ofInt expected ++ " arguments but got " ++ Text.ofNat got ++ "."
  | .stackOverflow => "Stack overflow."
  | .noProperties => "Only instances have properties."
  | .noFields => "Only instances have fields."
  | .undefinedProperty name => "Undefined property '" ++ name ++ "'."
  | .undefinedVariable name => "Undefined variable '" ++ name ++ "'."
  | .unboundAt name distance =>
    "Internal error: '" ++ name ++ "' is not bound " ++ Text.ofInt distance ++ " scope(s) up."
  | .reported message => message

/-- The sentence that tells a cause. -/
def Cause.message : Cause → Text
  | .lexical cause => cause.message
  | .grammatical cause => cause.message
  | .resolution cause => cause.message
  | .runtime cause => cause.message
  | .worded _ message => message

end YouthLang

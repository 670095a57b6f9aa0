import YouthLang.Text.Quoted

/-!
# CommandLine/Flags — the flags in front of a command

A flag starts with one or two dashes and may have its value behind an equals sign.  Flags end at the
first word that is none, and at a word of two dashes, which is dropped.
-/

namespace YouthLang

/-- What the flags ask for. -/
structure Flags where
  /-- The path of the settings; empty if none is given. -/
  settings : Text := []
  debug : Bool := false
deriving DecidableEq, Repr

/-- Why flags are not taken. -/
inductive FlagError where
  /-- Help is asked for. -/
  | help
  | malformed (word : Text)
  | unknown (name : Text)
  | missingValue (name : Text)
  | noTruthValue (value name : Text)
deriving DecidableEq, Repr

/-- The sentence that tells what is wrong, if anything is. -/
def FlagError.message : FlagError → Text
  | .help => []
  | .malformed word => Text.line ("bad flag syntax: " ++ word)
  | .unknown name => Text.line ("flag provided but not defined: -" ++ name)
  | .missingValue name => Text.line ("flag needs an argument: -" ++ name)
  | .noTruthValue value name =>
    Text.line ("invalid boolean value " ++ value.quoted ++ " for -" ++ name ++ ": parse error")

namespace Flags

/-- The byte that starts a flag. -/
def dash : UInt8 := 0x2D

/-- The byte before the value of a flag. -/
def equals : UInt8 := 0x3D

/-- The words for a truth value. -/
def truthWords : List (Text × Bool) :=
  [("1", true), ("t", true), ("T", true), ("true", true), ("TRUE", true), ("True", true),
    ("0", false), ("f", false), ("F", false), ("false", false), ("FALSE", false), ("False", false)]

/-- What a word is among flags. -/
inductive Word where
  | flag (name : Text) (value : Option Text)
  /-- The end of the flags. -/
  | separator
  | malformed
  /-- The first word behind the flags. -/
  | other
deriving DecidableEq, Repr

/-- A flag without its dashes: its name, and its value behind the first equals sign that does not start
it. -/
def Word.ofBody (body : Text) : Word :=
  match body with
  | [] => .malformed
  | b :: rest =>
    if b = dash || b = equals then .malformed
    else match Text.cut [equals] rest with
      | some (name, value) => .flag (b :: name) (some value)
      | none => .flag body none

/-- What a word is among flags. -/
def Word.ofText : Text → Word
  | a :: b :: rest =>
    if a = dash then
      if b = dash then
        if rest = [] then .separator else ofBody rest
      else ofBody (b :: rest)
    else .other
  | _ => .other

/-- The flags at the head of words, over those read so far, and the words behind them. -/
def read (flags : Flags) : List Text → Except FlagError (Flags × List Text)
  | [] => .ok (flags, [])
  | word :: rest =>
    match Word.ofText word with
    | .other => .ok (flags, word :: rest)
    | .separator => .ok (flags, rest)
    | .malformed => .error (.malformed word)
    | .flag name value =>
      if name = "config" then
        match value with
        | some path => read { flags with settings := path } rest
        | none =>
          match rest with
          | [] => .error (.missingValue name)
          | path :: others => read { flags with settings := path } others
      else if name = "debug" then
        match value with
        | none => read { flags with debug := true } rest
        | some value =>
          match truthWords.lookup value with
          | some b => read { flags with debug := b } rest
          | none => .error (.noTruthValue value name)
      else if name = "help" || name = "h" then .error .help
      else .error (.unknown name)

end Flags

end YouthLang

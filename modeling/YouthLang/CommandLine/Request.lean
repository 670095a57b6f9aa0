import YouthLang.Text.Quoted

/-!
# CommandLine/Request — what the program is asked to do

The words behind the flags name a command and what it works on.  A single word that names no command is
a program to run, and no words at all ask for the prompt.
-/

namespace YouthLang

/-- What the program is asked to do. -/
inductive Request where
  | help
  | version
  | prompt
  | run (file : Text)
  | check (file : Text)
  | tree (file : Text)
  | tokens (file : Text)
  | test (paths : List Text)
  | serve
  /-- The number of entries is read only when the history is open. -/
  | history (count : Option Text)
deriving DecidableEq, Repr

/-- Why words are no request. -/
inductive UsageError where
  | notOneFile (command : Text)
  | serveWithWords
  | historyWithWords
  | unknownCommand (name : Text)
  | invalidCount (count : Text)
deriving DecidableEq, Repr

/-- The sentence that tells what is wrong with a request. -/
def UsageError.message : UsageError → Text
  | .notOneFile command => command ++ " takes exactly one file"
  | .serveWithWords => "serve takes no arguments"
  | .historyWithWords => "history takes at most one argument"
  | .unknownCommand name => "unknown command " ++ name.quoted
  | .invalidCount count => "invalid count " ++ count.quoted

namespace Request

/-- The commands that work on one file. -/
def ofFile : List (Text × (Text → Request)) :=
  [("run", .run), ("check", .check), ("ast", .tree), ("tokens", .tokens)]

/-- The commands that take no words into account. -/
def ofName : List (Text × Request) :=
  [("help", .help), ("-h", .help), ("--help", .help), ("version", .version),
    ("--version", .version), ("repl", .prompt)]

/-- The request that words make. -/
def ofWords : List Text → Except UsageError Request
  | [] => .ok .prompt
  | command :: rest =>
    match ofName.lookup command, ofFile.lookup command with
    | some request, _ => .ok request
    | none, some request =>
      match rest with
      | [file] => .ok (request file)
      | _ => .error (.notOneFile command)
    | none, none =>
      if command = "test" then .ok (.test rest)
      else if command = "serve" then
        if rest = [] then .ok .serve else .error .serveWithWords
      else if command = "history" then
        match rest with
        | [] => .ok (.history none)
        | [count] => .ok (.history (some count))
        | _ => .error .historyWithWords
      else if rest = [] then .ok (.run command)
      else .error (.unknownCommand command)

end Request

end YouthLang

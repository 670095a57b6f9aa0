import YouthLang.Settings
import YouthLang.Yaml.Read
import YouthLang.Files

/-!
# Settings/Load — settings read from a file

A file is read over the usual settings: what it leaves out, or leaves empty, stays as it was.  Every
setting that does not exist, is given twice or has a value of the wrong kind is reported, all at once.
A section may take over entries of other mappings; its own entries go before those.
-/

namespace YouthLang.Settings

open Yaml (Failure Meaning Document)

/-! ## Mismatches -/

/-- What is wrong with an entry of a settings file. -/
inductive Mismatch where
  | duplicate (line : Nat) (key : Text) (first : Nat)
  | unknown (line : Nat) (field type : Text)
  | alreadySet (line : Nat) (field type : Text)
  | wrongKind (line : Nat) (tag value type : Text)
deriving DecidableEq, Repr

/-- A value as a mismatch shows it: cut short if it is long. -/
def shownValue (value : Text) : Text :=
  if 10 < value.length then value.take 7 ++ "..." else value

/-- The sentence that tells a mismatch. -/
def Mismatch.message : Mismatch → Text
  | .duplicate line key first =>
    "line " ++ Text.ofNat line ++ ": mapping key " ++ key.quoted ++ " already defined at line "
      ++ Text.ofNat first
  | .unknown line field type =>
    "line " ++ Text.ofNat line ++ ": field " ++ field ++ " not found in type " ++ type
  | .alreadySet line field type =>
    "line " ++ Text.ofNat line ++ ": field " ++ field ++ " already set in type " ++ type
  | .wrongKind line tag value type =>
    let shown : Text :=
      if tag = "!!map" || tag = "!!seq" then [] else " `" ++ shownValue value ++ "`"
    "line " ++ Text.ofNat line ++ ": cannot unmarshal " ++ tag ++ shown ++ " into " ++ type

/-- That a node is of the wrong kind for a type. -/
def wrongKind (node : Yaml) (type : Text) : Mismatch :=
  .wrongKind node.line node.tag node.value type

/-- Later entries with the same key as an entry. -/
def duplicatesOf (key : Yaml) (later : List (Yaml × Yaml)) : List Mismatch :=
  later.filterMap fun (k, _) =>
    if key.isSameKey k then some (.duplicate k.line k.value key.line) else none

/-- The keys that are given twice. -/
def duplicates : List (Yaml × Yaml) → List Mismatch
  | [] => []
  | (key, _) :: rest => duplicatesOf key rest ++ duplicates rest

/-! ## Visits -/

/-- What has happened while a document is read. -/
structure Progress where
  /-- The mismatches so far, the latest first. -/
  mismatches : List Mismatch := []
  /-- The aliases that are being followed, by number. -/
  followed : List Nat := []
  /-- How many nodes were visited. -/
  visits : Nat := 0
  /-- How many of them by way of an alias. -/
  repeats : Nat := 0

/-- Steps of reading a document. -/
abbrev Decode := StateT Progress (Except Failure)

namespace Decode

def report (found : List Mismatch) : Decode Unit :=
  modify fun p => { p with mismatches := found.reverse ++ p.mismatches }

/-- Whether too many of the visits were repeats: 99 of a hundred are allowed, and of more than 400 000
visits ever fewer, down to ten of a hundred. -/
def isExcessive (visits repeats : Nat) : Bool :=
  let excess := min (visits - 400000) 3600000
  100 < repeats && 1000 < visits && visits * (99 * 3600000 - 89 * excess) < repeats * 100 * 3600000

/-- Counts the visit of a node. -/
def visit : Decode Unit := do
  modify fun p => { p with
    visits := p.visits + 1
    repeats := if p.followed.isEmpty then p.repeats else p.repeats + 1 }
  let p ← get
  if isExcessive p.visits p.repeats then throw .excessiveAliasing

/-- Visits a node, or the one that an alias stands for.  A node cannot be followed into itself. -/
def follow {α : Type} (d : Document) (node : Yaml) (read : Yaml → Decode α) : Decode α := do
  visit
  match node with
  | .alias _ name target number =>
    if (← get).followed.contains number then throw (.selfContained name)
    modify fun p => { p with followed := number :: p.followed }
    visit
    let a ← read ((d.find? target).getD node)
    modify fun p => { p with followed := p.followed.drop 1 }
    return a
  | _ => read node

end Decode

open Decode

/-! ## Values -/

/-- What comes of reading a value into a place of a type: a new value, the old one, or a mismatch. -/
inductive Reading (α : Type) where
  | put (a : α)
  | keep
  | mismatched

/-- A text: any scalar is taken as it is written. -/
def readText (value : Text) : Meaning → Reading Text
  | .null => .keep
  | .text t => .put t
  | _ => .put value

/-- The least integer of 64 bits. -/
def leastInt : Int := -0x8000000000000000

/-- A number cut to an integer of 64 bits; one that is too small, or larger by one than the largest,
becomes the least. -/
def cutToInt (x : Float) : Reading Int :=
  let i := Number.truncate x
  if !Number.isFinite x then
    if Number.fractionBits x = 0 && Number.isNegative x then .put leastInt else .mismatched
  else if -leastInt < i then .mismatched
  else if i = -leastInt then .put leastInt
  else .put (max leastInt i)

/-- An integer: a number with a fraction loses it. -/
def readInt : Meaning → Reading Int
  | .null => .keep
  | .int i => if i < -leastInt then .put i else .mismatched
  | .float x => cutToInt x
  | _ => .mismatched

/-- The words for a truth value besides the usual ones. -/
def truthWords : List (Text × Bool) :=
  [("y", true), ("Y", true), ("yes", true), ("Yes", true), ("YES", true), ("on", true), ("On", true),
    ("ON", true), ("n", false), ("N", false), ("no", false), ("No", false), ("NO", false),
    ("off", false), ("Off", false), ("OFF", false)]

/-- A truth value. -/
def readFlag : Meaning → Reading Bool
  | .null => .keep
  | .truth b => .put b
  | .text t =>
    match truthWords.lookup t with
    | some b => .put b
    | none => .mismatched
  | _ => .mismatched

/-- A node read into a place of a type, if it has a value for it. -/
def readValue? {α : Type} (d : Document) (type : Text) (read : Text → Meaning → Reading α)
    (node : Yaml) : Decode (Option α) :=
  follow d node fun node => do
    let reading ← match node with
      | .scalar _ tag style value => do pure (read value (← Yaml.scalarMeaning tag style value))
      | _ => pure .mismatched
    match reading with
    | .put a => return some a
    | .keep => return none
    | .mismatched =>
      report [wrongKind node type]
      return none

/-- A node as the name of a field. -/
def readName? (d : Document) (node : Yaml) : Decode (Option Text) :=
  readValue? d "string" readText node

/-! ## Mappings -/

/-- The places of a type by name. -/
abbrev Places (σ : Type) := Text → Option (Yaml → σ → Decode σ)

/-- Whether a key takes over the entries of other mappings. -/
def isMerge : Yaml → Bool
  | .scalar _ [] .plain value => value = Yaml.mergeKey
  | .scalar _ tag _ value => value = Yaml.mergeKey && tag = Meaning.merge.tag
  | _ => false

/-- What has come of the entries of a mapping so far. -/
structure Entries (σ : Type) where
  value : σ
  /-- The names that further mappings cannot set, once there are any. -/
  names : Option (List Text)
  /-- The names that this mapping has set. -/
  done : List Text := []
  /-- The node whose entries are taken over. -/
  source : Option Yaml := none

/-- One entry of a mapping read into a type. -/
def readEntry {σ : Type} (d : Document) (type : Text) (places : Places σ) (e : Entries σ)
    (key node : Yaml) : Decode (Entries σ) := do
  if isMerge key then return { e with source := some node }
  match ← readName? d key with
  | none => return e
  | some name =>
    if e.names.any (·.contains name) then return e
    let e := { e with names := e.names.map (name :: ·) }
    match places name with
    | none =>
      report [.unknown key.line name type]
      return e
    | some put =>
      if e.done.contains name then
        report [.alreadySet key.line name type]
        return e
      else return { e with value := ← put node e.value, done := name :: e.done }

/-- The keys of a mapping that are texts. -/
def textKeys (d : Document) (entries : List (Yaml × Yaml)) : Decode (List Text) :=
  entries.foldlM (fun names (key, _) => follow d key fun key => do
    match key with
    | .scalar _ tag style value =>
      match ← Yaml.scalarMeaning tag style value with
      | .text t => return t :: names
      | .merge => return Yaml.mergeKey :: names
      | _ => return names
    | _ => return names) []

/-- The entries of a mapping, or of the one that an alias stands for. -/
def entriesOf? (d : Document) : Yaml → Option (List (Yaml × Yaml))
  | .mapping _ _ entries => some entries
  | .alias _ _ target _ =>
    match d.find? target with
    | some (.mapping _ _ entries) => some entries
    | _ => none
  | _ => none

/-- The nodes that a mapping takes over one after the other. -/
def sources : Yaml → List Yaml
  | .sequence _ _ items => items
  | node => [node]

/-- The entries of a mapping read into a type.  A mapping with a key that is given twice leaves
everything as it is.  With the value come the names that further mappings cannot set. -/
def readMapping {σ : Type} (d : Document) (type : Text) (places : Places σ) :
    Nat → List (Yaml × Yaml) → Option (List Text) → σ → Decode (σ × Option (List Text))
  | 0, _, names, s => pure (s, names)
  | fuel + 1, entries, names, s =>
    match duplicates entries with
    | [] => do
      let e ← entries.foldlM (fun e (key, node) => readEntry d type places e key node)
        ⟨s, names, [], none⟩
      match e.source with
      | none => return (e.value, e.names)
      | some source =>
        let taken ← match e.names with
          | some taken => pure taken
          | none => textKeys d entries
        let (s, taken) ← (sources source).foldlM (fun (s, taken) node =>
          match entriesOf? d node with
          | none => throw .mergeWithoutMapping
          | some entries => follow d node fun _ => do
            let (s, taken') ← readMapping d type places fuel entries (some taken) s
            return (s, taken'.getD taken)) (e.value, taken)
        return (s, e.names.map fun _ => taken)
    | found => do
      report found
      return (s, names)

/-- A node read into a type with places.  A null leaves everything as it is. -/
def readNode {σ : Type} (d : Document) (fuel : Nat) (type : Text) (places : Places σ) (node : Yaml)
    (s : σ) : Decode σ :=
  follow d node fun node => do
    match node with
    | .mapping _ _ entries => return (← readMapping d type places fuel entries none s).1
    | .scalar _ tag style value =>
      match ← Yaml.scalarMeaning tag style value with
      | .null => return s
      | _ =>
        report [wrongKind node type]
        return s
    | _ =>
      report [wrongKind node type]
      return s

/-! ## Sections -/

/-- A place for a value in a section. -/
inductive Field (σ : Type) where
  | text (put : Text → σ → σ)
  | int (put : Int → σ → σ)
  | flag (put : Bool → σ → σ)

/-- A section with a value read into a field. -/
def Field.read {σ : Type} (d : Document) (node : Yaml) (s : σ) : Field σ → Decode σ
  | .text put => do return (← readValue? d "string" readText node).elim s (put · s)
  | .int put => do return (← readValue? d "int" (fun _ => readInt) node).elim s (put · s)
  | .flag put => do return (← readValue? d "bool" (fun _ => readFlag) node).elim s (put · s)

def logFields : List (Text × Field LogSettings) :=
  [("level", .text fun v s => { s with level := v }),
    ("format", .text fun v s => { s with format := v })]

def promptFields : List (Text × Field PromptSettings) :=
  [("prompt", .text fun v s => { s with prompt := v }),
    ("continue_prompt", .text fun v s => { s with continuation := v }),
    ("history_file", .text fun v s => { s with historyFile := v })]

def historyFields : List (Text × Field HistorySettings) :=
  [("enabled", .flag fun v s => { s with enabled := v }),
    ("driver", .text fun v s => { s with driver := v }),
    ("dsn", .text fun v s => { s with dsn := v })]

def serveFields : List (Text × Field ServeSettings) :=
  [("addr", .text fun v s => { s with address := v }),
    ("max_source_bytes", .int fun v s => { s with maxSourceBytes := v })]

def testFields : List (Text × Field TestSettings) :=
  [("parallel", .int fun v s => { s with parallel := v }),
    ("format", .text fun v s => { s with format := v }),
    ("fail_fast", .flag fun v s => { s with failFast := v })]

/-- A part of the settings: how it is taken out and put back, and its fields. -/
structure Part where
  {σ : Type}
  type : Text
  get : Settings → σ
  put : σ → Settings → Settings
  fields : List (Text × Field σ)

/-- The sections by name. -/
def parts : List (Text × Part) :=
  [("log", ⟨"config.LogConfig", Settings.log, fun p s => { s with log := p }, logFields⟩),
    ("repl", ⟨"config.REPLConfig", Settings.prompt, fun p s => { s with prompt := p }, promptFields⟩),
    ("history",
      ⟨"config.HistoryConfig", Settings.history, fun p s => { s with history := p }, historyFields⟩),
    ("serve", ⟨"config.ServeConfig", Settings.serve, fun p s => { s with serve := p }, serveFields⟩),
    ("test", ⟨"config.TestConfig", Settings.test, fun p s => { s with test := p }, testFields⟩)]

/-- The settings with a node read into one of their sections. -/
def Part.read (d : Document) (fuel : Nat) (part : Part) (node : Yaml) (s : Settings) :
    Decode Settings := do
  let places : Places part.σ := fun name =>
    (part.fields.lookup name).map fun f node s => f.read d node s
  return part.put (← readNode d fuel part.type places node (part.get s)) s

/-- A document read over settings; `fuel` bounds how deep mappings take over others. -/
def readDocument (d : Document) (fuel : Nat) (s : Settings) : Decode Settings :=
  readNode d fuel "config.Config" (fun name => (parts.lookup name).map (Part.read d fuel)) d.root s

/-! ## Loading -/

/-- The settings that a text asks for, with all that is wrong with its entries. -/
def decode (content : Text) : Except Failure (Settings × List Mismatch) := do
  match ← Yaml.read content with
  | none => return ({}, [])
  | some d =>
    let fuel := (content.length + 1) * (content.length + 1)
    let (s, p) ← (readDocument d fuel {}).run {}
    return (s, p.mismatches.reverse)

/-- The settings that a text asks for, or the sentence that tells why it is refused. -/
def ofText (path content : Text) : Except Text Settings :=
  let refuse (reason : Text) : Except Text Settings :=
    .error ("parse config " ++ path ++ ": yaml: " ++ reason)
  match decode content with
  | .error e => refuse e.message
  | .ok (s, found) =>
    if found.isEmpty then
      match s.problem? with
      | none => .ok s
      | some p => .error ("config " ++ path ++ ": " ++ p.message)
    else
      refuse (Text.join "\n  " ("unmarshal errors:" :: found.map Mismatch.message))

/-- The settings in the file that a path leads to; without a path or a file, the usual ones. -/
def load (fs : Files) (path : Text) : Except Text Settings :=
  if path = [] then .ok {}
  else match fs.find path with
    | .error .notFound => .ok {}
    | .error e => .error ("open config: open " ++ path ++ ": " ++ e.message)
    | .ok (.folder _) =>
      .error ("parse config " ++ path ++ ": yaml: input error: read " ++ path ++ ": "
        ++ FileError.isFolder.message)
    | .ok (.file content) => ofText path content

end YouthLang.Settings

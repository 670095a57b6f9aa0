import YouthLang.Yaml.Token.Scan

/-!
# Yaml/Read — from tokens to a document

Tokens are read by recursive descent.  A node may have an anchor and a tag in front of it, and where
nothing stands in the place of a node there is an empty scalar.  Only the first document of a file is
read.
-/

namespace YouthLang.Yaml

/-- What is known between two nodes. -/
structure Reader where
  scanner : Scanner
  /-- What the handles of tags stand for. -/
  handles : List (Text × Text) := []
  /-- The numbers of the anchored nodes by name, the latest first. -/
  names : List (Text × Nat) := []
  anchored : List (Nat × Yaml) := []
  /-- How many numbers are given to anchored nodes and aliases. -/
  count : Nat := 0

/-- Steps of a reader. -/
abbrev Read := StateT Reader (Except Failure)

namespace Read

/-- A step of the scanner as a step of the reader. -/
def scan {α : Type} (m : Scan α) : Read α := do
  let r ← get
  let (a, scanner) ← m.run r.scanner
  set { r with scanner := scanner }
  return a

/-- The next token. -/
def peek : Read Token := scan Scan.peek

/-- Leaves the next token behind. -/
def skip : Read Unit := scan Scan.advance

/-- Leaves the next token behind; gives the one behind it. -/
def advance : Read Token := do
  skip
  peek

def fail {α : Type} (context place : Nat) (cause : GrammarCause) : Read α :=
  throw (.grammar context place cause)

/-- A new number. -/
def number : Read Nat :=
  modifyGet fun r => (r.count, { r with count := r.count + 1 })

/-- The scalar in the place of a node on a line. -/
def empty (line : Nat) : Yaml := .scalar (line + 1) [] .plain []

/-! ## Tags -/

/-- What tags of the format's own start with. -/
def ownTags : Text := "tag:yaml.org,2002:"

/-- A tag as nodes have it: short if it is one of the format's own, and nothing if it is a single
exclamation mark. -/
def shortTag (t : Text) : Text :=
  match Text.after? ownTags t with
  | some rest => "!!" ++ rest
  | none => if t = Text.ofString "!" then [] else t

/-- The tag that a handle and a suffix stand for. -/
def tagOf (context line : Nat) (handle suffix : Text) : Read Text := do
  if handle.isEmpty then return shortTag suffix
  match (← get).handles.lookup handle with
  | some head => return shortTag (head ++ suffix)
  | none => fail context line .undefinedHandle

/-- Adds what a handle stands for; one that is known stays as it is. -/
def addHandle (handle head : Text) : Read Unit :=
  modify fun r => { r with handles := r.handles ++ [(handle, head)] }

/-! ## Properties -/

/-- What may stand in front of a node. -/
structure Properties where
  /-- The line of the first property, or of the node if it has none. -/
  line : Nat
  anchor : Option Text := none
  tag : Option Text := none

/-- The anchor and the tag in front of a node, in either order, and the token behind them. -/
def properties : Read (Properties × Token) := do
  let t ← peek
  match t.sign with
  | .anchor name =>
    let u ← advance
    match u.sign with
    | .tag handle suffix =>
      let next ← advance
      return (⟨t.line, some name, some (← tagOf t.line u.line handle suffix)⟩, next)
    | _ => return (⟨t.line, some name, none⟩, u)
  | .tag handle suffix =>
    let u ← advance
    match u.sign with
    | .anchor name =>
      let next ← advance
      return (⟨t.line, some name, some (← tagOf t.line t.line handle suffix)⟩, next)
    | _ => return (⟨t.line, none, some (← tagOf t.line t.line handle suffix)⟩, u)
  | _ => return (⟨t.line, none, none⟩, t)

/-- A node that its anchor, if it has one, names from its start on. -/
def anchoredAs (anchor : Option Text) (m : Read Yaml) : Read Yaml := do
  match anchor with
  | none => m
  | some name =>
    let n ← number
    modify fun r => { r with names := (name, n) :: r.names }
    let node ← m
    modify fun r => { r with anchored := (n, node) :: r.anchored }
    return node

/-- An alias for the node that is anchored under its name. -/
def aliasOf (line : Nat) (name : Text) : Read Yaml := do
  match (← get).names.lookup name with
  | none => throw (.unknownAnchor name)
  | some target =>
    skip
    return .alias (line + 1) name target (← number)

/-- The empty scalar that properties belong to if no node follows them. -/
def unfilled (p : Properties) (t : Token) : Read Yaml :=
  if p.anchor.isSome || p.tag.isSome then
    anchoredAs p.anchor (pure (.scalar (p.line + 1) (p.tag.getD []) .plain []))
  else fail p.line t.line .nodeContent

/-! ## Nodes -/

/-- Where a node stands.  Blocks may start anywhere but inside brackets, and dashes that are no further
in than the mapping around them only behind a colon or a question mark. -/
inductive Setting where
  | flow
  | block
  | entry
deriving DecidableEq, Repr

mutual

/-- A node; `fuel` bounds the number of steps. -/
def node (fuel : Nat) (setting : Setting) : Read Yaml :=
  match fuel with
  | 0 => fail 0 0 .nodeContent
  | fuel + 1 => do
    let t ← peek
    match t.sign with
    | .alias name => aliasOf t.line name
    | _ =>
      let (p, t) ← properties
      let line := p.line + 1
      let tag := p.tag.getD []
      match t.sign with
      | .scalar style value =>
        skip
        anchoredAs p.anchor (pure (.scalar line tag style value))
      | .openBracket =>
        skip
        anchoredAs p.anchor do return .sequence line tag (← flowSequence fuel t.line true #[])
      | .openBrace =>
        skip
        anchoredAs p.anchor do return .mapping line tag (← flowMapping fuel t.line true #[])
      | .dash =>
        if setting = .entry then
          anchoredAs p.anchor do return .sequence line tag (← dashes fuel #[])
        else unfilled p t
      | .blockSequence =>
        if setting = .flow then unfilled p t
        else
          skip
          anchoredAs p.anchor do return .sequence line tag (← blockSequence fuel t.line #[])
      | .blockMapping =>
        if setting = .flow then unfilled p t
        else
          skip
          anchoredAs p.anchor do return .mapping line tag (← blockMapping fuel t.line #[])
      | _ => unfilled p t

/-- The entries of a block sequence behind those already read, up to its end. -/
def blockSequence (fuel : Nat) (start : Nat) (items : Array Yaml) : Read (List Yaml) :=
  match fuel with
  | 0 => fail 0 0 .dash
  | fuel + 1 => do
    let t ← peek
    match t.sign with
    | .dash =>
      let u ← advance
      let item ←
        if u.sign = .dash || u.sign = .blockEnd then pure (empty t.line) else node fuel .block
      blockSequence fuel start (items.push item)
    | .blockEnd =>
      skip
      return items.toList
    | _ => fail start t.line .dash

/-- The entries of a sequence that is no further in than the mapping around it. -/
def dashes (fuel : Nat) (items : Array Yaml) : Read (List Yaml) :=
  match fuel with
  | 0 => fail 0 0 .dash
  | fuel + 1 => do
    let t ← peek
    match t.sign with
    | .dash =>
      let u ← advance
      let item ←
        if u.sign = .dash || u.sign.endsEntry then pure (empty t.line) else node fuel .block
      dashes fuel (items.push item)
    | _ => return items.toList

/-- The entries of a block mapping behind those already read, up to its end. -/
def blockMapping (fuel : Nat) (start : Nat) (entries : Array (Yaml × Yaml)) :
    Read (List (Yaml × Yaml)) :=
  match fuel with
  | 0 => fail 0 0 .key
  | fuel + 1 => do
    let t ← peek
    match t.sign with
    | .key =>
      let u ← advance
      let key ← if u.sign.endsEntry then pure (empty t.line) else node fuel .entry
      let value ← blockValue fuel
      blockMapping fuel start (entries.push (key, value))
    | .blockEnd =>
      skip
      return entries.toList
    | _ => fail start t.line .key

/-- The value behind a key of a block mapping. -/
def blockValue (fuel : Nat) : Read Yaml :=
  match fuel with
  | 0 => fail 0 0 .key
  | fuel + 1 => do
    let t ← peek
    match t.sign with
    | .value =>
      let u ← advance
      if u.sign.endsEntry then return empty t.line else node fuel .entry
    | _ => return empty t.line

/-- The items between brackets behind those already read, up to the closing one. -/
def flowSequence (fuel : Nat) (start : Nat) (isFirst : Bool) (items : Array Yaml) :
    Read (List Yaml) :=
  match fuel with
  | 0 => fail 0 0 .commaOrBracket
  | fuel + 1 => do
    let t ← peek
    let t ←
      if isFirst || t.sign = .closeBracket then pure t
      else if t.sign = .comma then advance
      else fail start t.line .commaOrBracket
    match t.sign with
    | .closeBracket =>
      skip
      return items.toList
    | .key =>
      skip
      let entry ← flowPair fuel
      flowSequence fuel start false (items.push (.mapping (t.line + 1) [] [entry]))
    | _ =>
      let item ← node fuel .flow
      flowSequence fuel start false (items.push item)

/-- The one entry of a mapping that stands without braces between brackets.  If there is no key, the
token in its place is left out. -/
def flowPair (fuel : Nat) : Read (Yaml × Yaml) :=
  match fuel with
  | 0 => fail 0 0 .commaOrBracket
  | fuel + 1 => do
    let t ← peek
    let key ←
      if t.sign = .value || t.sign.endsFlowEntry .closeBracket then do
        skip
        pure (empty t.line)
      else node fuel .flow
    let t ← peek
    if t.sign = .value then
      let u ← advance
      if u.sign.endsFlowEntry .closeBracket then return (key, empty t.line)
      else return (key, ← node fuel .flow)
    else return (key, empty t.line)

/-- The entries between braces behind those already read, up to the closing one. -/
def flowMapping (fuel : Nat) (start : Nat) (isFirst : Bool) (entries : Array (Yaml × Yaml)) :
    Read (List (Yaml × Yaml)) :=
  match fuel with
  | 0 => fail 0 0 .commaOrBrace
  | fuel + 1 => do
    let t ← peek
    let t ←
      if isFirst || t.sign = .closeBrace then pure t
      else if t.sign = .comma then advance
      else fail start t.line .commaOrBrace
    match t.sign with
    | .closeBrace =>
      skip
      return entries.toList
    | .key =>
      let u ← advance
      let key ←
        if u.sign = .value || u.sign.endsFlowEntry .closeBrace then pure (empty u.line)
        else node fuel .flow
      let value ← flowValue fuel
      flowMapping fuel start false (entries.push (key, value))
    | _ =>
      let key ← node fuel .flow
      let u ← peek
      flowMapping fuel start false (entries.push (key, empty u.line))

/-- The value behind a key between braces. -/
def flowValue (fuel : Nat) : Read Yaml :=
  match fuel with
  | 0 => fail 0 0 .commaOrBrace
  | fuel + 1 => do
    let t ← peek
    if t.sign = .value then
      let u ← advance
      if u.sign.endsFlowEntry .closeBrace then return empty u.line else node fuel .flow
    else return empty t.line

end

/-! ## Documents -/

/-- The directives in front of a document; `hasVersion` tells whether the version is already given. -/
def directives : Nat → Bool → Read Unit
  | 0, _ => pure ()
  | fuel + 1, hasVersion => do
    let t ← peek
    match t.sign with
    | .version major minor =>
      if hasVersion then fail 0 t.line .duplicateVersion
      if major ≠ 1 || minor ≠ 1 then fail 0 t.line .incompatibleVersion
      skip
      directives fuel true
    | .tagDirective handle head =>
      if ((← get).handles.lookup handle).isSome then fail 0 t.line .duplicateTagDirective
      addHandle handle head
      skip
      directives fuel hasVersion
    | _ =>
      addHandle "!" "!"
      addHandle "!!" ownTags

/-- The node of a document whose start is marked. -/
def markedRoot (fuel : Nat) : Read Yaml := do
  let t ← advance
  match t.sign with
  | .version _ _ | .tagDirective _ _ | .documentStart | .documentEnd | .fileEnd =>
    return empty t.line
  | _ => node fuel .block

/-- The first node of a file, if there is one.  Directives need the mark of a start behind them. -/
def root? (fuel : Nat) : Read (Option Yaml) := do
  discard peek
  let t ← advance
  if t.sign = .fileEnd then return none
  directives fuel false
  let u ← peek
  let root ←
    if u.sign = .documentStart then markedRoot fuel
    else match t.sign with
      | .version _ _ | .tagDirective _ _ => fail 0 u.line .documentStart
      | _ => node fuel .block
  discard peek
  return some root

end Read

/-- The first document of a file, if there is one. -/
def read (t : Text) : Except Failure (Option Document) := do
  let (root, r) ← (Read.root? (8 * t.length + 32)).run { scanner := Scanner.ofText t }
  return root.map fun node => ⟨node, r.anchored⟩

end YouthLang.Yaml

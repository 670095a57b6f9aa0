import YouthLang.Path
import YouthLang.Text.Percent

/-!
# Playground/Target — what a visitor asks for

A visitor asks for a path and perhaps a query, or names the whole address that they belong to.  Bytes of
a path may be escaped.  The path is written as the visitor wrote it if that is well-formed, and otherwise
with every byte escaped that has to be.
-/

namespace YouthLang

/-- A path and a query. -/
structure Target where
  /-- The path as it is written. -/
  path : Text
  query : Text
deriving DecidableEq, Repr

namespace Target

/-- The byte between a path and a query. -/
def questionMark : UInt8 := 0x3F

/-- A letter or a digit. -/
def isAlphanumeric (b : UInt8) : Bool :=
  (0x30 ≤ b && b ≤ 0x39) || (0x41 ≤ b && b ≤ 0x5A) || (0x61 ≤ b && b ≤ 0x7A)

/-- A byte that stands for itself in a path that has to be written. -/
def isPlain (b : UInt8) : Bool := isAlphanumeric b || (Text.ofString "-_.~$&+,/:;=@").contains b

/-- A byte that may stand in a written path. -/
def isWellFormed (b : UInt8) : Bool :=
  isPlain b || (Text.ofString "!'()*[]%").contains b

/-- A written path, escaped anew if it is not well-formed; nothing if its escapes are broken. -/
def written? (path : Text) : Option Text :=
  match Percent.decode id path with
  | .error _ => none
  | .ok decoded => if path.all isWellFormed then some path else some (Percent.encode isPlain decoded)

/-- What stands behind the scheme of an address, if it has one. -/
def behindScheme? (t : Text) : Option Text :=
  let scheme := t.takeWhile (· ≠ 0x3A)
  let isLetter (b : UInt8) : Bool := (0x41 ≤ b && b ≤ 0x5A) || (0x61 ≤ b && b ≤ 0x7A)
  if scheme.head?.any isLetter
      && scheme.all (fun b => isAlphanumeric b || b = 0x2B || b = 0x2D || b = 0x2E) then
    (t.drop scheme.length).tail?
  else none

/-- The path in what stands behind a scheme: two slashes and a host come before it.  An address of
another form has no path. -/
def pathBehindScheme (t : Text) : Text :=
  match t with
  | 0x2F :: 0x2F :: rest => rest.dropWhile (· ≠ Path.slash)
  | 0x2F :: _ => t
  | _ => []

/-- Whether a target holds bytes that no target can hold. -/
def hasControl (t : Text) : Bool := t.any fun b => b ≤ 0x20 || b = 0x7F

/-- A target; nothing if a text is none. -/
def ofText? (t : Text) : Option Target :=
  let path := t.takeWhile (· ≠ questionMark)
  let query := (t.dropWhile (· ≠ questionMark)).drop 1
  if hasControl t then none
  else match behindScheme? path with
    | some rest => (written? (pathBehindScheme rest)).map (⟨·, query⟩)
    | none => if Path.isRooted path then (written? path).map (⟨·, query⟩) else none

/-- The shortest path that names the same page; a slash at the end is kept. -/
def cleanPath (path : Text) : Text :=
  let rooted := if Path.isRooted path then path else Path.slash :: path
  let short := Path.clean rooted
  if rooted.getLast? = some Path.slash && short ≠ [Path.slash] then short ++ [Path.slash] else short

/-- The name of the only folder or page on the way, with its escaped bytes in place. -/
def name? (t : Target) : Option Text :=
  match t.path with
  | 0x2F :: name =>
    if name.contains Path.slash then none else some ((Percent.decode id name).toOption.getD name)
  | _ => none

/-- The target with another path, as a text. -/
def withPath (path : Text) (t : Target) : Text :=
  if t.query = [] then path else path ++ [questionMark] ++ t.query

end Target

end YouthLang

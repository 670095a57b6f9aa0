import YouthLang.Text

/-!
# Path — names of files

A path is a text with slashes between its names.  The operations here only look at the text: a `.` is
dropped, a `..` takes the name before it away, and repeated slashes count as one.
-/

namespace YouthLang.Path

/-- The byte between two names. -/
def slash : UInt8 := 0x2F

/-- Whether a path starts at the root. -/
def isRooted (p : Text) : Bool := p.head? = some slash

/-- The names of a path in order, empty ones included. -/
def names (p : Text) : List Text := p.splitOn slash

/-- One more name behind the names kept so far (latest first). -/
def keep (rooted : Bool) (kept : List Text) (name : Text) : List Text :=
  if name = [] || name = "." then kept
  else if name = ".." then
    match kept with
    | [] => if rooted then [] else [".."]
    | last :: before => if last = ".." then ".." :: kept else before
  else name :: kept

/-- The shortest path that names the same file. -/
def clean (p : Text) : Text :=
  let kept := ((names p).foldl (keep (isRooted p)) []).reverse
  let body := Text.join [slash] kept
  if isRooted p then slash :: body else if body = [] then "." else body

/-- A path below another; an empty one adds nothing. -/
def join (p q : Text) : Text :=
  if p = [] && q = [] then []
  else if p = [] then clean q
  else if q = [] then clean p
  else clean (p ++ [slash] ++ q)

/-- The path of the folder that a path lies in. -/
def folder (p : Text) : Text := clean (p.reverse.dropWhile (· ≠ slash)).reverse

/-- The last name of a path. -/
def name (p : Text) : Text :=
  if p = [] then "."
  else
    let trimmed := p.dropTrailing slash
    if trimmed = [] then [slash] else (trimmed.reverse.takeWhile (· ≠ slash)).reverse

end YouthLang.Path

import YouthLang.Path

/-!
# Files — what is on the disk

The files and folders that the program can see, by the names on the way to them.  A path is followed
name by name from the working folder, so every folder on the way must be there.  One file is on every
disk: the null file, which has nothing in it.
-/

namespace YouthLang

/-- Why a path leads to no file. -/
inductive FileError where
  | notFound
  | notFolder
  | isFolder
  | tooLong
  | invalid
deriving DecidableEq, Repr

/-- The words for the reason. -/
def FileError.message : FileError → Text
  | .notFound => "no such file or directory"
  | .notFolder => "not a directory"
  | .isFolder => "is a directory"
  | .tooLong => "file name too long"
  | .invalid => "invalid argument"

/-- What a path leads to. -/
inductive Place where
  | file (content : Text)
  /-- The names from the working folder to the folder. -/
  | folder (names : List Text)
deriving DecidableEq, Repr

/-- The files with their contents and the folders that are named on their own, each with the names on
the way to it.  A folder on the way to a file need not be named. -/
structure Files where
  files : List (List Text × Text)
  folders : List (List Text)

namespace Files

variable (fs : Files)

/-- No files at all. -/
def none : Files := ⟨[], []⟩

/-- The way from the root to itself. -/
def root : List Text := [[Path.slash]]

/-- The way to the null file. -/
def nullFile : List Text := root ++ [Text.ofString "dev", Text.ofString "null"]

/-- The longest name of a file or folder, in bytes. -/
def maxName : Nat := 255

/-- The longest path, in bytes. -/
def maxPath : Nat := 4095

/-- The names on the way to a new file or folder. -/
def wayTo (path : Text) : List Text :=
  let names := Path.names (path.dropTrailing Path.slash)
  if Path.isRooted path then root ++ names.tail else names

/-- A file added. -/
def withFile (path content : Text) : Files := { fs with files := fs.files ++ [(wayTo path, content)] }

/-- An empty folder added. -/
def withFolder (path : Text) : Files := { fs with folders := fs.folders ++ [wayTo path] }

/-- Whether a way leads from the working folder upwards only. -/
def isUpward (way : List Text) : Bool := way.all (· = "..")

/-- The way to the folder above; the root is above itself. -/
def above (way : List Text) : List Text :=
  if isUpward way then ".." :: way else if way = root then way else way.dropLast

/-- Whether a way leads to a folder; the root and the folders above are always there. -/
def hasFolder (way : List Text) : Bool :=
  isUpward way || way = root || way = nullFile.dropLast || fs.folders.any (way.isPrefixOf ·)
    || fs.files.any (way.isPrefixOf ·.1)

/-- What is found at the end of a way. -/
def get? (way : List Text) : Option Place :=
  match fs.files.lookup way with
  | some content => some (.file content)
  | Option.none =>
    if way = nullFile then some (.file [])
    else if fs.hasFolder way then some (.folder way)
    else Option.none

/-- The names of a path followed from the end of a way. -/
def follow (way : List Text) : List Text → Except FileError Place
  | [] => (fs.get? way).elim (.error .notFound) .ok
  | name :: rest =>
    match fs.get? way with
    | Option.none => .error .notFound
    | some (.file _) => .error .notFolder
    | some (.folder _) =>
      if name = [] || name = "." then follow way rest
      else if name = ".." then follow (above way) rest
      else if maxName < name.length then .error .tooLong
      else follow (way ++ [name]) rest

/-- What a path leads to. -/
def find (path : Text) : Except FileError Place :=
  if path = [] then .error .notFound
  else if path.contains 0 then .error .invalid
  else if maxPath < path.length then .error .tooLong
  else if Path.isRooted path then fs.follow root (Path.names path)
  else fs.follow [] (Path.names path)

/-- The content of the file that a path leads to, or the sentence that tells why there is none. -/
def read (path : Text) : Except Text Text :=
  match fs.find path with
  | .ok (.file content) => .ok content
  | .ok (.folder _) => .error ("read " ++ path ++ ": " ++ FileError.isFolder.message)
  | .error e => .error ("open " ++ path ++ ": " ++ e.message)

end Files

end YouthLang

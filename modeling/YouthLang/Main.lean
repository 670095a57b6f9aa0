import Std.Time.DateTime.Timestamp
import YouthLang.CommandLine
import YouthLang.History.Identifier
import YouthLang.History.Saved
import YouthLang.Moment

/-!
# Main — the program in the world

Everything that the program needs is looked up first: its settings, the files that its words name, what
is typed, and the history.  Then `CommandLine.respond` gives the answer, which is written out.
-/

namespace YouthLang.World

/-- Bytes as a text. -/
def textOf (bytes : ByteArray) : Text := bytes.data.toList

/-- A text as bytes. -/
def bytesOf (t : Text) : ByteArray := ⟨t.toArray⟩

/-- A path as the system takes it. -/
def pathOf (t : Text) : String := (String.fromUTF8? (bytesOf t)).getD ""

/-- The bytes of a stream up to its end. -/
partial def readToEnd (input : IO.FS.Stream) (sofar : ByteArray) : IO ByteArray := do
  let more ← input.read 65536
  if more.isEmpty then return sofar else readToEnd input (sofar ++ more)

/-- The files with the one at a path added, if there is one; a folder is added without its content. -/
def withPath (fs : Files) (path : Text) : IO Files := do
  if path.isEmpty then return fs
  let place := (← IO.currentDir) / pathOf path
  if ← place.isDir then return fs.withFolder (Path.clean path)
  try return fs.withFile (Path.clean path) (textOf (← IO.FS.readBinFile place))
  catch _ => return fs

/-- The files with everything at and below a path added. -/
partial def withTree (fs : Files) (path : Text) : IO Files := do
  let place := (← IO.currentDir) / pathOf path
  if ← place.isDir then
    let names := (← place.readDir).toList.map fun entry => Text.ofString entry.fileName
    (Text.sorted names).foldlM (fun fs name => withTree fs (Path.join path name))
      (fs.withFolder (Path.clean path))
  else withPath fs path

/-- A number with 128 random bits. -/
def randomBits : IO Nat :=
  (List.range 8).foldlM (fun n _ => return n * 65536 + (← IO.rand 0 65535)) 0

/-- The value of an environment variable, empty if it is not set. -/
def variableText (name : String) : IO Text :=
  return Text.ofString ((← IO.getEnv name).getD "")

/-- What the program finds around it, apart from what only some requests need. -/
def look (words : List Text) : IO Surroundings := do
  let now := (← Std.Time.Timestamp.now).toNanosecondsSinceUnixEpoch.val
  let bits ← randomBits
  let settings ← variableText "YOUTH_CONFIG"
  let files ← (settings :: words).foldlM withPath Files.none
  return {
    home := ← variableText "HOME"
    settings := settings
    files := files
    now := now
    stamp := Moment.render now.toNat
    clock := .ofReadings [now]
    freshId := fun n => identifier (bits + n * 0x9E3779B97F4A7C15F39CC0605CEDC835)
    fuel := 1000000000000000 }

/-- The surroundings with the history of the settings. -/
def withHistory (around : Surroundings) (words : List Text) : IO Surroundings := do
  match CommandLine.keptAt? around words with
  | none => return around
  | some path =>
    let files ← withPath around.files (Path.folder path)
    match (← withPath Files.none path).read (Path.clean path) with
    | .error _ => return { around with files := ← withPath files path }
    | .ok content =>
      match History.restore? content with
      | some entries =>
        return { around with
          files := files, archive := [(Path.clean path, entries.map HistoryEntry.row)] }
      | none => return { around with files := ← withPath files path }

/-- Everything that the program finds around it. -/
def survey (words : List Text) : IO Surroundings := do
  let around ← look words
  let files ← (CommandLine.searched around words).foldlM withTree around.files
  let input ←
    if CommandLine.asksForPrompt around words then readToEnd (← IO.getStdin) .empty
    else pure .empty
  withHistory { around with files := files, input := textOf input } words

/-- The answer written out and the histories put away. -/
def deliver (a : Answer) : IO Unit := do
  let out ← IO.getStdout
  out.write (bytesOf a.out)
  out.flush
  let err ← IO.getStderr
  err.write (bytesOf a.err)
  err.flush
  for (path, rows) in a.archive do
    IO.FS.writeBinFile (pathOf path) (bytesOf (History.save (rows.filterMap HistoryEntry.ofRow?)))

end YouthLang.World

open YouthLang in
/-- The program. -/
def main (arguments : List String) : IO UInt32 := do
  let words := arguments.map Text.ofString
  let a := CommandLine.respond (← World.survey words) words
  World.deliver a
  return UInt32.ofNat a.status.code

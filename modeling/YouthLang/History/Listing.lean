import YouthLang.History.Entry
import YouthLang.Quantity
import YouthLang.Text.Blank

/-!
# History/Listing — entries for readers

An entry is shown on one line: the start of its id, where it came from, how it ended, how old it is and
the first line of its source.
-/

namespace YouthLang

/-- The start of an id: at most eight bytes. -/
def shortId (id : Text) : Text := id.take 8

/-- The first line of a source that is not blank, with dots behind it if there is more. -/
def firstLine (source : Text) : Text :=
  match Text.cut [Text.newline] source.trim with
  | some (first, _) => first ++ " ..."
  | none => source.trim

namespace HistoryEntry

/-- An entry on one line, seen at a moment. -/
def listing (now : Int) (e : HistoryEntry) : Text :=
  Text.line <| Text.join "  "
    [shortId e.id, Text.padTo 10 e.origin, Text.padTo 13 e.status, Quantity.age now e.time,
      firstLine e.source]

end HistoryEntry

end YouthLang

import YouthLang.History.Entry
import YouthLang.Text.Framed

/-!
# History/Saved — the entries of a history as one text

The text starts with a line that tells what it is; the fields of every entry follow, framed.
-/

namespace YouthLang

namespace HistoryEntry

/-- A truth value as a field. -/
def flagField (b : Bool) : Text := if b then [0x31] else []

/-- A time as a field: its sign and its digits; nothing if it is not known. -/
def timeField : Option Int64 → Text
  | none => []
  | some t =>
    match t.toInt with
    | .ofNat n => 0x2B :: Text.ofNat n
    | .negSucc n => 0x2D :: Text.ofNat n

/-- The time that a field stands for. -/
def timeOfField : Text → Option Int64
  | [] => none
  | sign :: digits =>
    let n := Number.digitsValue digits
    some (Int64.ofInt (if sign = 0x2D then .negSucc n else .ofNat n))

/-- The fields of an entry. -/
def savedFields (e : HistoryEntry) : List Text :=
  [e.id, e.origin, e.source, e.output, flagField e.hadStaticError, flagField e.hadRuntimeError,
    e.errorText, timeField e.createdAt]

/-- The entry at the head of a saved text, and what follows it. -/
def takeSaved? (t : Text) : Option (HistoryEntry × Text) := do
  let (id, t) ← Text.unframe? t
  let (origin, t) ← Text.unframe? t
  let (source, t) ← Text.unframe? t
  let (output, t) ← Text.unframe? t
  let (hadStaticError, t) ← Text.unframe? t
  let (hadRuntimeError, t) ← Text.unframe? t
  let (errorText, t) ← Text.unframe? t
  let (createdAt, t) ← Text.unframe? t
  return (⟨id, origin, source, output, !hadStaticError.isEmpty, !hadRuntimeError.isEmpty, errorText,
    timeOfField createdAt⟩, t)

end HistoryEntry

namespace History

/-- The line that a saved history starts with. -/
def savedMark : Text := "youth history\n"

/-- Entries as one text. -/
def save (entries : List HistoryEntry) : Text :=
  savedMark ++ entries.flatMap fun e => Text.frameAll e.savedFields

/-- The entries of a text that holds nothing else, at most as many as allowed. -/
def restoreFrom : Nat → Text → Option (List HistoryEntry)
  | _, [] => some []
  | 0, _ :: _ => none
  | n + 1, t => do
    let (e, rest) ← HistoryEntry.takeSaved? t
    let es ← restoreFrom n rest
    return e :: es

/-- The entries of a saved history. -/
def restore? (t : Text) : Option (List HistoryEntry) :=
  (Text.after? savedMark t).bind fun rest => restoreFrom rest.length rest

end History

end YouthLang

import YouthLang.History.Entry

/-!
# Recorder — where finished runs are recorded

A recorder is handed the entry of every finished run, one after the other.  What it makes of them is
its state, and it may refuse an entry; then it says why.  Nobody who runs a source waits for its answer.
-/

namespace YouthLang

/-- A recorder with states `σ`: what becomes of its state with one more entry, and why it refuses the
entry if it does. -/
abbrev Recorder (σ : Type) := σ → HistoryEntry → σ × Option Text

namespace Recorder

/-- Nothing is recorded. -/
def absent : Recorder Unit := fun _ _ => ((), none)

/-- Every entry is kept, the latest last. -/
def memory : Recorder (List HistoryEntry) := fun kept e => (kept ++ [e], none)

/-- Every entry is refused. -/
def failing (problem : Text) : Recorder Unit := fun _ _ => ((), some problem)

/-- The state of a recorder that has been handed some entries in order. -/
def after {σ : Type} (record : Recorder σ) (start : σ) (entries : List HistoryEntry) : σ :=
  entries.foldl (fun state e => (record state e).1) start

@[simp] theorem after_nil {σ : Type} (record : Recorder σ) (start : σ) :
    record.after start [] = start := rfl

@[simp] theorem after_cons {σ : Type} (record : Recorder σ) (start : σ) (e : HistoryEntry)
    (es : List HistoryEntry) : record.after start (e :: es) = record.after (record start e).1 es := rfl

theorem after_append {σ : Type} (record : Recorder σ) (start : σ) (es fs : List HistoryEntry) :
    record.after start (es ++ fs) = record.after (record.after start es) fs :=
  List.foldl_append

/-- **A memory holds what it was handed**, in that order. -/
theorem after_memory (kept es : List HistoryEntry) : memory.after kept es = kept ++ es := by
  induction es generalizing kept with
  | nil => simp
  | cons e es ih => simp [ih, memory]

end Recorder

end YouthLang

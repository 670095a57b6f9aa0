import YouthLang.Proofs.Entries
import YouthLang.Proofs.Numbering

/-!
# Proofs/Conversation — what typed lines come to

Every entry that is heard has its `reply`, told from the entries before it alone: a source runs in a
session of the sources since the last reset.  What is printed and recorded are the replies in order
(`transcript_answered`), so nobody who reads the printed texts can tell what becomes of the record.
-/

namespace YouthLang

/-! ## Replies -/

/-- Whether an entry is to be run: it is neither blank nor a command. -/
def isSource (entry : Text) : Bool := !entry.isBlank && !Command.isCommand entry

/-- Whether an entry is the command for a new session. -/
def resets (entry : Text) : Bool :=
  Command.isCommand entry && decide (Command.ofWords entry.trim = .reset)

/-- The sources among entries, behind the last command for a new session. -/
def sinceReset (entries : List Text) : List Text :=
  (entries.reverse.takeWhile fun e => !resets e).reverse.filter isSource

/-- The clock that the session at hand was started with, behind entries of which the latest comes first:
a command for a new session takes one more reading from the clock of the session before. -/
def startedBehind (fuel : Nat) (clock : Clock) : List Text → Clock
  | [] => clock
  | e :: earlier =>
    if resets e then
      ((Session.fresh [] 0 (startedBehind fuel clock earlier)).after
        (Session.pastOf fuel (sinceReset earlier.reverse))).machine.clock.restart
    else startedBehind fuel clock earlier

/-- The run of a source behind other entries: in the session that the last command for a new one has
started, or in the first. -/
def runBehind (fuel : Nat) (clock : Clock) (before : List Text) (source : Text) : Run :=
  (((Session.fresh [] 0 (startedBehind fuel clock before.reverse)).after
    (Session.pastOf fuel (sinceReset before))).run fuel source).2

/-- What an entry comes to: what is printed, and the runs to be recorded. -/
structure Reply where
  out : Text := []
  err : Text := []
  ran : List HistoryEntry := []

/-- What an entry comes to behind other entries. -/
def reply (fuel : Nat) (clock : Clock) (before : List Text) (entry : Text) : Reply :=
  if entry.isBlank then {}
  else if Command.isCommand entry then { out := (Command.ofWords entry.trim).answer }
  else
    let r := runBehind fuel clock before entry
    { out := r.output.flatMap Text.line
      err := r.mistakeTexts.flatMap Text.line
      ran := [.ofRun "repl" entry r] }

/-- What entries come to, each behind those before it. -/
def replies (fuel : Nat) (clock : Clock) (before entries : List Text) : List Reply :=
  entries.mapIdx fun i e => reply fuel clock (before ++ entries.take i) e

section

variable {fuel : Nat} {clock : Clock}

@[simp] theorem replies_nil (before : List Text) : replies fuel clock before [] = [] := rfl

theorem replies_cons (before : List Text) (e : Text) (rest : List Text) :
    replies fuel clock before (e :: rest)
      = reply fuel clock before e :: replies fuel clock (before ++ [e]) rest := by
  simp [replies, List.mapIdx_cons]

theorem not_isCommand_of_isBlank {e : Text} (h : e.isBlank = true) :
    Command.isCommand e = false := by
  have htrim : e.trim = [] := by simpa [Text.isBlank] using h
  rw [Command.isCommand, htrim]
  decide

theorem sinceReset_append (before : List Text) (e : Text) :
    sinceReset (before ++ [e]) = if resets e then []
      else if isSource e then sinceReset before ++ [e] else sinceReset before := by
  cases hresets : resets e with
  | true => simp [sinceReset, hresets]
  | false => cases hsource : isSource e <;> simp [sinceReset, hresets, hsource]

theorem startedBehind_append (before : List Text) (e : Text) :
    startedBehind fuel clock (before ++ [e]).reverse = if resets e then
        ((Session.fresh [] 0 (startedBehind fuel clock before.reverse)).after
          (Session.pastOf fuel (sinceReset before))).machine.clock.restart
      else startedBehind fuel clock before.reverse := by
  rw [List.reverse_append, List.reverse_singleton, List.singleton_append, startedBehind,
    List.reverse_reverse]

/-! ## What is said -/

namespace Saying

/-- What is printed for the answers. -/
def outText : Saying → Text
  | .out t => t
  | _ => []

/-- What is printed for the mistakes. -/
def errText : Saying → Text
  | .err t => t
  | _ => []

/-- The run to be recorded. -/
def ran? : Saying → Option HistoryEntry
  | .ran e => some e
  | _ => none

end Saying

/-- Things said are what replies come to. -/
structure Says (said : List Saying) (replies : List Reply) : Prop where
  out : said.flatMap Saying.outText = replies.flatMap Reply.out
  err : said.flatMap Saying.errText = replies.flatMap Reply.err
  ran : said.filterMap Saying.ran? = replies.flatMap Reply.ran

theorem Says.append {said said' : List Saying} {rs rs' : List Reply} (h : Says said rs)
    (h' : Says said' rs') : Says (said ++ said') (rs ++ rs') where
  out := by rw [List.flatMap_append, List.flatMap_append, h.out, h'.out]
  err := by rw [List.flatMap_append, List.flatMap_append, h.err, h'.err]
  ran := by rw [List.filterMap_append, List.flatMap_append, h.ran, h'.ran]

/-- The answer to a run. -/
theorem says_sayings (source : Text) (r : Run) :
    Says (sayings source r) [⟨r.output.flatMap Text.line, r.mistakeTexts.flatMap Text.line,
      [.ofRun "repl" source r]⟩] := by
  have hnone {α : Type} (l : List α) : (l.flatMap fun _ => ([] : Text)) = [] :=
    List.flatMap_eq_nil_iff.mpr fun _ _ => rfl
  refine ⟨?_, ?_, ?_⟩
  · simp [sayings, List.flatMap_map, Saying.outText, hnone]
  · simp [sayings, List.flatMap_map, Saying.errText, hnone]
  · simp [sayings, List.filterMap_map, Saying.ran?, Function.comp_def]

theorem file_after (s : Session) (past : Past) : (s.after past).file = s.file := by
  induction past generalizing s with
  | nil => rfl
  | cons p past ih => exact (ih _).trans (Session.file_run _)

theorem says_nil : Says [] [{}] := ⟨rfl, rfl, rfl⟩

/-- The answer to a command. -/
theorem says_answer (answer : Text) : Says [.out answer] [{ out := answer }] := ⟨rfl, rfl, rfl⟩

variable (fuel)

/-- A command other than the one to quit is answered, and one of them starts a new session. -/
theorem converse_command {s : Session} {e : Text} {rest : List Text} (hblank : e.isBlank = false)
    (hcommand : Command.isCommand e = true) (hquit : Command.ofWords e.trim ≠ .quit) :
    (converse fuel s (e :: rest)).1 = .out (Command.ofWords e.trim).answer
      :: (converse fuel
        (if Command.ofWords e.trim = .reset then .fresh s.file s.node s.machine.clock.restart else s)
        rest).1 := by
  simp only [converse, hblank, hcommand, Bool.false_eq_true, if_false, if_true]

variable (clock)

/-- **What is said are the replies to what is heard.** -/
theorem says_converse : ∀ (entries before : List Text) (node : Nat),
    Says (converse fuel
        ((Session.fresh [] node (startedBehind fuel clock before.reverse)).after
          (Session.pastOf fuel (sinceReset before))) entries).1
      (replies fuel clock before (heard entries))
  | [], _, _ => ⟨rfl, rfl, rfl⟩
  | e :: rest, before, node => by
      have ih := says_converse rest (before ++ [e])
      rw [sinceReset_append, startedBehind_append, resets, isSource] at ih
      rw [heard_cons, quits]
      cases hblank : e.isBlank with
      | true =>
        have hcommand := not_isCommand_of_isBlank hblank
        have hreply : reply fuel clock before e = {} := by simp [reply, hblank]
        simp only [hblank, hcommand, Bool.false_and, Bool.not_true, Bool.false_eq_true, if_false] at ih
        simp only [converse, hblank, hcommand, Bool.false_and, Bool.false_eq_true, if_true, if_false,
          replies_cons, hreply]
        exact says_nil.append (ih node)
      | false =>
        cases hcommand : Command.isCommand e with
        | true =>
          have hreply : reply fuel clock before e = { out := (Command.ofWords e.trim).answer } := by
            simp [reply, hblank, hcommand]
          simp only [hblank, hcommand, Bool.true_and, Bool.not_true, Bool.and_false, Bool.false_eq_true,
            if_false, decide_eq_true_eq] at ih ⊢
          by_cases hquit : Command.ofWords e.trim = .quit
          · simp only [converse, hblank, hcommand, hquit, Bool.false_eq_true, if_true, if_false,
              replies_cons, hreply, replies_nil]
            exact says_nil
          · rw [converse_command fuel hblank hcommand hquit, if_neg hquit, replies_cons, hreply]
            refine (says_answer _).append ?_
            by_cases hreset : Command.ofWords e.trim = .reset
            · simp only [hreset, if_true, file_after] at ih ⊢
              rw [Session.clock_after_fresh_eq [] node 0]
              exact ih _
            · simp only [hreset, if_false] at ih ⊢
              exact ih node
        | false =>
          have hreply : reply fuel clock before e
              = ⟨(runBehind fuel clock before e).output.flatMap Text.line,
                (runBehind fuel clock before e).mistakeTexts.flatMap Text.line,
                [.ofRun "repl" e (runBehind fuel clock before e)]⟩ := by
            simp [reply, hblank, hcommand]
          -- The session at hand counts its nodes from elsewhere than the first one of all.
          have hrun := @Session.run_after_fresh_eq fuel [] node 0
            (startedBehind fuel clock before.reverse) (sinceReset before) e
          simp only [hblank, hcommand, Bool.false_and, Bool.not_false, Bool.and_true,
            Bool.false_eq_true, if_false, if_true, Session.after_append_singleton] at ih
          simp only [converse, hblank, hcommand, Bool.false_and, Bool.false_eq_true, if_false,
            replies_cons, hreply]
          rw [hrun]
          exact (says_sayings e _).append (ih node)

/-! ## Transcripts -/

/-- What comes of things said. -/
theorem foldl_say {σ : Type} (record : Recorder σ) (said : List Saying) (t : Transcript σ) :
    let t' := said.foldl (Transcript.say record) t
    t'.out = t.out ++ said.flatMap Saying.outText ∧ t'.err = t.err ++ said.flatMap Saying.errText
      ∧ t'.recorded = record.after t.recorded (said.filterMap Saying.ran?) := by
  induction said generalizing t with
  | nil => simp
  | cons s said ih =>
    obtain ⟨hout, herr, hrecorded⟩ := ih (t.say record s)
    simp only [List.foldl_cons, hout, herr, hrecorded]
    cases s <;> simp [Transcript.say, Saying.outText, Saying.errText, Saying.ran?, List.filterMap_cons]

/-- What has come of entries: their replies in order are printed, and their runs are handed to the
recorder in order. -/
structure Answered {σ : Type} (entries : List Text) (record : Recorder σ) (start : σ)
    (t : Transcript σ) : Prop where
  out : t.out = (replies fuel clock [] entries).flatMap Reply.out
  err : t.err = (replies fuel clock [] entries).flatMap Reply.err
  recorded : t.recorded
    = record.after start ((replies fuel clock [] entries).flatMap Reply.ran)

theorem answered_transcript {σ : Type} (record : Recorder σ) (start : σ) {input : Text}
    (hcut : (Typed.ofText input).isCut = false) :
    Answered fuel clock (heard (entries (Typed.ofText input))) record start
      (transcript fuel clock record start input) := by
  have hanswers : answers fuel clock input
      = (converse fuel (.fresh [] 0 clock) (entries (Typed.ofText input))).1 := by
    simp [answers, hcut]
  have hsays : Says (answers fuel clock input) _ :=
    hanswers ▸ says_converse fuel clock (entries (Typed.ofText input)) [] 0
  obtain ⟨hout, herr, hrecorded⟩ :=
    foldl_say record (answers fuel clock input) { recorded := start }
  refine ⟨?_, ?_, ?_⟩
  · rw [← hsays.out]
    exact hout.trans (List.nil_append _)
  · rw [← hsays.err]
    exact herr.trans (List.nil_append _)
  · rw [← hsays.ran]
    exact hrecorded

/-- The runs of entries are those of the sources among them. -/
theorem source_ran (entries before : List Text) :
    ((replies fuel clock before entries).flatMap Reply.ran).map HistoryEntry.source
      = entries.filter isSource := by
  induction entries generalizing before with
  | nil => rfl
  | cons e rest ih =>
    rw [replies_cons, List.flatMap_cons, List.map_append, ih, List.filter_cons]
    cases hblank : e.isBlank with
    | true => simp [reply, isSource, hblank]
    | false =>
      cases hcommand : Command.isCommand e <;>
        simp [reply, isSource, hblank, hcommand, HistoryEntry.ofRun]

/-! ## Typed texts -/

/-- Lines that are short enough are all read. -/
theorem ofText_of_short {input : Text} (h : ∀ l ∈ Typed.typedLines input, l.length < 65536) :
    Typed.ofText input = ⟨(Typed.typedLines input).map Typed.chomp, false⟩ := by
  have hread : (Typed.typedLines input).takeWhile (·.length ≤ maxLine) = Typed.typedLines input := by
    rw [List.takeWhile_eq_self_iff]
    intro l hl
    exact decide_eq_true (Nat.le_of_lt_succ (h l hl))
  simp [Typed.ofText, hread]

theorem newline_not_mem_typed {input l : Text}
    (h : l ∈ (Typed.typedLines input).map Typed.chomp) : Text.newline ∉ l := by
  obtain ⟨line, hline, rfl⟩ := List.mem_map.mp h
  have hlines : line ∈ input.lines := by
    simp only [Typed.typedLines] at hline
    split at hline
    next => exact List.dropLast_subset _ hline
    next => exact hline
  have hnot := Text.not_mem_of_mem_splitOn hlines
  intro hmem
  apply hnot
  simp only [Typed.chomp, Text.dropTail] at hmem
  split at hmem
  next => exact List.mem_of_mem_take hmem
  next => exact hmem

/-- **No typed line is lost, repeated or put out of order.**  If all lines are short enough, the
entries that are read have the lines up to the first command to quit; what comes of them are their
replies in order, each in the session of the sources since the last reset; and whatever the recorder
is, it has no say in what is printed: a memory holds the sources that ran, in order. -/
theorem transcript_answered {input : Text} (h : ∀ l ∈ Typed.typedLines input, l.length < 65536) :
    let read := heard (entries (Typed.ofText input))
    Read ((Typed.typedLines input).map Typed.chomp) read
      ∧ (∀ {σ : Type} (record : Recorder σ) (start : σ),
          Answered fuel clock read record start (transcript fuel clock record start input))
      ∧ (transcript fuel clock Recorder.memory [] input).recorded.map HistoryEntry.source
        = read.filter isSource := by
  intro read
  have htext := ofText_of_short h
  have hcut : (Typed.ofText input).isCut = false := by rw [htext]
  have hlines : (Typed.ofText input).lines = (Typed.typedLines input).map Typed.chomp := by rw [htext]
  refine ⟨?_, fun record start => answered_transcript fuel clock record start hcut, ?_⟩
  · rw [← hlines]
    exact read_heard hcut fun l hl => newline_not_mem_typed (hlines ▸ hl)
  · rw [(answered_transcript fuel clock Recorder.memory [] hcut).recorded, Recorder.after_memory,
      List.nil_append, source_ran]

/-- A source of two lines, a blank line, a new session with a mistake in it, and a line that is not
read any more. -/
theorem transcript_answered_quit :
    let input : Text := "tell (1\n+ 1);\n\n:reset\ntell -\"a\";\nexit\ntell 3;\n"
    let read : List Text := ["tell (1\n+ 1);", "", ":reset", "tell -\"a\";", "exit"]
    let typed : List Text := ["tell (1", "+ 1);", "", ":reset", "tell -\"a\";", "exit", "tell 3;"]
    (transcript 100 ⟨0, []⟩ Recorder.absent () input).out = "2\nglobals cleared\n"
      ∧ (transcript 100 ⟨0, []⟩ Recorder.absent () input).err ≠ []
      ∧ Read typed read
      ∧ (∀ {σ : Type} (record : Recorder σ) (start : σ),
          Answered 100 ⟨0, []⟩ read record start (transcript 100 ⟨0, []⟩ record start input))
      ∧ (transcript 100 ⟨0, []⟩ Recorder.memory [] input).recorded.map HistoryEntry.source
        = read.filter isSource := by
  intro input read typed
  have hread : heard (entries (Typed.ofText input)) = read := by decide +kernel
  have htyped : (Typed.typedLines input).map Typed.chomp = typed := by decide +kernel
  have hshort : ∀ l ∈ Typed.typedLines input, l.length < 65536 := by decide +kernel
  have hanswered := transcript_answered 100 ⟨0, []⟩ hshort
  rw [hread, htyped] at hanswered
  exact ⟨by decide +kernel, by decide +kernel, hanswered⟩

end

end YouthLang

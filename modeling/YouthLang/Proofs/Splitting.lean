import Mathlib
import YouthLang.Proofs.Renumbered
import YouthLang.Proofs.Simulation.Run

/-!
# Proofs/Splitting — a source run in two parts

Two sources without mistakes may be run one behind the other in a session, or as a single source with a
newline between them.  The statements of the single source are those of the two (`statements_joined`),
with the globals of the first around those of the second, so the machines of the two ways run in step.
`Session.run_joined` says what follows for the lines they print and for how they end.
-/

namespace YouthLang

open Grammar

/-! ## The statements of two sources -/

/-- A token moved up to one of the first lines, if it is further down. -/
def Token.upTo (k : Nat) (t : Token) : Token :=
  { t with place := ⟨min t.place.line k, t.place.column⟩ }

/-- The tokens of a source are on its lines. -/
theorem map_upTo_wordsOf (source : Text) :
    (wordsOf source).map (Token.upTo source.lines.length) = wordsOf source := by
  refine (List.map_congr_left fun t ht => ?_).trans (List.map_id _)
  have hline : min t.place.line source.lines.length = t.place.line :=
    Nat.min_eq_left (of_mem_wordsOf t ht).2
  rw [Token.upTo, hline]
  rfl

section Statements

variable {file source p q : Text} {node first second : Nat}

/-- A source without a diagnostic is scanned without one. -/
theorem scan_of_clean (hclean : (analyse node file source).diagnostics = []) :
    (scan source).diagnostics = [] := (analyse_clean_iff.mp hclean).1

/-- Its statements are those that the grammar reads off its words. -/
theorem program_of_clean (hclean : (analyse node file source).diagnostics = []) :
    Program true (wordsOf source) (analyse node file source).statements := by
  have hmistakes := (List.append_eq_nil_iff.mp hclean).1
  have hparsed := List.map_eq_nil_iff.mp
    (List.append_eq_nil_iff.mp (List.map_eq_nil_iff.mp hmistakes)).2
  exact program_of_parse rfl (fun t ht => (of_mem_wordsOf t ht).1) hparsed

/-- **The statements of two sources with a newline between them** are those of the one and of the
other, but for their nodes and the lines of the second. -/
theorem statements_joined (hp : (analyse first file p).diagnostics = [])
    (hq : (analyse second file q).diagnostics = [])
    (hpq : (analyse node file (p ++ Text.newline :: q)).diagnostics = []) :
    ∃ ps qs, (analyse node file (p ++ Text.newline :: q)).statements = ps ++ qs
      ∧ BodyAlike (Moved (Token.upTo p.lines.length)) AnyNode (analyse first file p).statements ps
      ∧ BodyAlike (Moved (Token.below (Position.start.after p.glyphs).line)) AnyNode
          (analyse second file q).statements qs := by
  obtain ⟨-, ps, qs, heq, hps, hqs⟩ := @parse_joined node
    ⟨.endOfSource, [], Position.start.after (Text.glyphs (p ++ Text.newline :: q))⟩
    (Token.upTo p.lines.length) (Token.below (Position.start.after p.glyphs).line)
    (fun _ => rfl) (fun _ => rfl) rfl _ _ _ _ (program_of_clean hp) (program_of_clean hq)
  refine ⟨ps, qs, ?_, hps, hqs⟩
  rw [map_upTo_wordsOf, ← wordsOf_joined (scan_of_clean hp) (scan_of_clean hpq)] at heq
  exact heq

/-- The statements of a source have their tokens on its lines. -/
theorem statements_upTo (hclean : (analyse node file source).diagnostics = []) :
    BodyAlike (Moved (Token.upTo source.lines.length)) AnyNode
      (analyse node file source).statements (analyse node file source).statements := by
  obtain ⟨-, more, more', heq, halike, halike'⟩ := @parse_joined node
    ⟨.endOfSource, [], Position.start.after source.glyphs⟩ (Token.upTo source.lines.length) id
    (fun _ => rfl) (fun _ => rfl) rfl _ [] _ [] (program_of_clean hclean) .nil
  cases halike' with
  | nil =>
    rw [map_upTo_wordsOf, List.map_nil, List.append_nil, List.append_nil] at heq
    have hstatements : (analyse node file source).statements = more := heq
    rwa [← hstatements] at halike

/-- The statements of a source are what the parser makes of its tokens. -/
theorem statements_alike (hclean : (analyse node file source).diagnostics = []) :
    BodyAlike Eq AnyNode (analyse node file source).statements
      (analyse node file source).statements :=
  (@parse_of_program node _ ⟨.endOfSource, [], Position.start.after source.glyphs⟩ rfl _
    (program_of_clean hclean)).2

end Statements

/-! ## Links between the sources

Tokens of the single source and of the two are the same but for their lines, and their nodes have
other numbers; the walk links them all the same. -/

/-- Behind statements at the globals, there is one scope, and its declarations are complete. -/
theorem bodyExtend_globals (body : List Stmt) {scope : Scope} (h : scope.Complete) :
    ∃ base, Scope.Complete base ∧ bodyExtend [scope] body = [base] := by
  induction body generalizing scope with
  | nil => exact ⟨scope, h, rfl⟩
  | cons s body ih =>
    have htail := s.tail_extend [scope]
    have hcomplete := Stmt.complete_extend (List.forall_mem_singleton.mpr h) s
    have hne : s.extend [scope] ≠ [] := Stmt.extend_ne_nil (List.cons_ne_nil _ _) s
    obtain ⟨scope', outer, heq⟩ := List.exists_cons_of_ne_nil hne
    rw [heq] at htail hcomplete
    obtain rfl : outer = [] := htail
    obtain ⟨base, hbase, hextend⟩ := ih (List.forall_mem_singleton.mp hcomplete)
    refine ⟨base, hbase, ?_⟩
    rw [bodyExtend, List.foldl_cons, heq]
    exact hextend

/-- Lines of the first source are themselves in the joined one. -/
theorem meets_upTo {k : Nat} {L : Nat → Nat → Prop} (h : ∀ l ≤ k, L l l) :
    Meets (Moved (Token.upTo k)) (Moved (Token.upTo k)) L := by
  rintro t _ _ rfl rfl
  exact ⟨rfl, rfl, rfl, h _ (Nat.min_le_right _ _)⟩

/-- Lines of the second source are further down by as many. -/
theorem meets_below (k : Nat) : Meets (Moved (Token.below k)) Eq fun _ _ => True := by
  rintro t _ _ rfl rfl
  exact ⟨rfl, rfl, rfl, trivial⟩

/-- **The statements of the two ways are linked**: the first part stands behind no globals, the second
one behind those of the first. -/
theorem statements_linked {file p q : Text} {node first second : Nat}
    (hp : (analyse first file p).diagnostics = [])
    (hq : (analyse second file q).diagnostics = [])
    (hpq : (analyse node file (p ++ Text.newline :: q)).diagnostics = [])
    {ok ok' : Visit → Prop}
    (hok : ∀ v ∈ visitsOf (analyse node file (p ++ Text.newline :: q)).statements, ok v)
    (hfirst : ∀ v ∈ visitsOf (analyse first file p).statements, ok' v)
    (hsecond : ∀ v ∈ visitsOf (analyse second file q).statements, ok' v) :
    ∃ ps qs, (analyse node file (p ++ Text.newline :: q)).statements = ps ++ qs
      ∧ (∀ L : Nat → Nat → Prop, (∀ l ≤ p.lines.length, L l l) →
        BodyAlike (Token.Alike L) (Linked ok ok') ps (analyse first file p).statements)
      ∧ BodyAlike (Token.Alike fun _ _ => True) (Linked ok ok') qs
          (analyse second file q).statements := by
  obtain ⟨ps, qs, heq, hps, hqs⟩ := statements_joined hp hq hpq
  have hsettled := analyse_settled hpq fun v hv _ _ => hok v hv
  have hsettledFirst := analyse_settled hp fun v hv _ _ => hfirst v hv
  have hsettledSecond := analyse_settled hq fun v hv _ _ => hsecond v hv
  rw [heq] at hsettled
  obtain ⟨hsettledPs, hsettledQs⟩ := BodySettled.append.mp hsettled
  have hnil : Scope.Complete [] := by simp [Scope.Complete]
  obtain ⟨base, hbase, hextend⟩ := bodyExtend_globals ps hnil
  have hpsGraft : BodySettled ok (graft [] [[]]) false ps := by rwa [graft_nil]
  have hqsGraft : BodySettled ok (graft base [[]]) false qs := by rwa [hextend] at hsettledQs
  have hne : [[]] ≠ ([] : List Scope) := List.cons_ne_nil _ _
  -- The lines of the first part are kept by both trees, which a failure of that part needs.
  refine ⟨ps, qs, heq, fun L hL => ?_, ?_⟩
  · exact hps.link (meets_upTo hL) hnil hne (statements_upTo hp) hpsGraft hsettledFirst
  · exact hqs.link (meets_below _) hbase hne (statements_alike hq) hqsGraft hsettledSecond

/-! ## Diagnostics -/

/-- Two lines that are the same and one of the first. -/
def SameLine (k l l' : Nat) : Prop := l = l' ∧ l ≤ k

/-- Lines of the first source are equal, and in the first source. -/
theorem OnLines.of_sameLine {k : Nat} {i i' : Int} (h : OnLines (SameLine k) i i') :
    i = i' ∧ i ≤ k := by
  obtain ⟨l, l', rfl, rfl, rfl, hle⟩ := h
  exact ⟨rfl, Int.ofNat_le.mpr hle⟩

/-- Lines that only equal ones are related to are equal. -/
theorem OnLines.eq {L : Nat → Nat → Prop} (hL : ∀ l l', L l l' → l = l') {i i' : Int}
    (h : OnLines L i i') : i = i' := by
  obtain ⟨l, l', rfl, rfl, hl⟩ := h
  rw [hL l l' hl]

/-- Diagnostics that are alike and on the same lines are the same. -/
theorem Diagnostic.Alike.eq {L : Nat → Nat → Prop} (hL : ∀ l l', L l l' → l = l')
    {d d' : Diagnostic} (h : Diagnostic.Alike L d d') : d = d' := by
  have hcalls : d.calls = d'.calls := by
    refine List.forall₂_eq_eq_eq ▸ h.calls.imp fun c c' hc => ?_
    obtain ⟨function, file, line⟩ := c
    obtain ⟨rfl, rfl, hline⟩ := hc
    obtain rfl := hline.eq hL
    rfl
  obtain ⟨cause, line, column, lexeme, atEnd, file, excerpt, calls⟩ := d
  obtain ⟨rfl, hline, rfl, rfl, rfl, rfl, rfl, -⟩ := h
  obtain rfl := hline.eq hL
  obtain rfl : calls = _ := hcalls
  rfl

/-- So diagnostics of the first source are the same. -/
theorem Diagnostic.Alike.eq_of_sameLine {k : Nat} {d d' : Diagnostic}
    (h : Diagnostic.Alike (SameLine k) d d') : d = d' := h.eq fun _ _ hl => hl.1

/-- A mistake on a line of the first source shows the same excerpt with more lines behind it. -/
theorem Diagnostic.attach_append {d : Diagnostic} {p q : Text} (hline : d.line ≤ p.lines.length) :
    d.attach (p ++ Text.newline :: q) = d.attach p := by
  unfold attach
  by_cases hpos : d.excerpt = [] && 0 < d.line
  · have hlt : d.line.toNat - 1 < p.lines.length := by
      have hpositive : 0 < d.line := by simpa using (Bool.and_eq_true_iff.mp hpos).2
      omega
    rw [if_pos hpos, if_pos hpos, Text.lines_append_newline, List.getElem?_append_left hlt]
  · rw [if_neg hpos, if_neg hpos]

/-- What is shown of the first source is shown of the joined one, as no line of it changes. -/
theorem Diagnostic.decorate_append {d : Diagnostic} {file p q : Text}
    (hline : d.line ≤ p.lines.length) :
    d.decorate file (p ++ Text.newline :: q) = d.decorate file p := by
  refine attach_append ?_
  unfold placed
  split
  · exact hline
  · exact hline

/-- Two mistakes that are told alike, wherever their lines are. -/
structure Diagnostic.Matches (d d' : Diagnostic) : Prop where
  message : d.message = d'.message
  lexeme : d.lexeme = d'.lexeme
  column : d.column = d'.column
  functions : d.calls.map CallSite.function = d'.calls.map CallSite.function

/-- What a source adds to a diagnostic does not change what it says. -/
theorem Diagnostic.decorate_matches (d : Diagnostic) (file source : Text) :
    (d.decorate file source).Matches d := by
  have hattach : ∀ d : Diagnostic, (d.attach source).Matches d := by
    intro d
    unfold attach
    split
    · split
      · exact ⟨rfl, rfl, rfl, rfl⟩
      · exact ⟨rfl, rfl, rfl, rfl⟩
    · exact ⟨rfl, rfl, rfl, rfl⟩
  unfold decorate placed
  split
  · exact hattach d
  · obtain ⟨hmessage, hlexeme, hcolumn, hfunctions⟩ := hattach (d.inFile file)
    refine ⟨hmessage, hlexeme, hcolumn, hfunctions.trans ?_⟩
    rw [inFile, List.map_map]
    rfl

/-- Diagnostics alike up to their lines match however they are shown. -/
theorem Diagnostic.Alike.decorate {L : Nat → Nat → Prop} {d d' : Diagnostic}
    (h : Diagnostic.Alike L d d') (file source source' : Text) :
    (d.decorate file source).Matches (d'.decorate file source') := by
  obtain ⟨hmessage, hlexeme, hcolumn, hfunctions⟩ := d.decorate_matches file source
  obtain ⟨hmessage', hlexeme', hcolumn', hfunctions'⟩ := d'.decorate_matches file source'
  have hcalls : d.calls.map CallSite.function = d'.calls.map CallSite.function := by
    refine List.forall₂_eq_eq_eq ▸ List.forall₂_map_left_iff.mpr (List.forall₂_map_right_iff.mpr ?_)
    exact h.calls.imp fun _ _ hc => hc.function
  exact ⟨by rw [hmessage, hmessage', Diagnostic.message, h.cause, Diagnostic.message],
    by rw [hlexeme, hlexeme', h.lexeme], by rw [hcolumn, hcolumn', h.column],
    by rw [hfunctions, hfunctions', hcalls]⟩

/-! ## Runs -/

/-- Two outcomes that tell the same, wherever the lines are. -/
inductive Outcome.Matches : Outcome → Outcome → Prop
  | finished : Outcome.Matches .finished .finished
  | failed {d d'} (h : d.Matches d') : Outcome.Matches (.failed d) (.failed d')

/-- **The run of a single source is the run of its two parts**, where the runs are told by the steps
they are allowed.  What the first part fails with, the single source fails with.  Where the first part
ends well, the single source prints what the two print and ends as the second does.  It ends only if
they do. -/
structure SplitsInto (whole first : Nat → Run) (second : Nat → Nat → Run) : Prop where
  failed : ∀ {n d}, (first n).outcome = .failed d → ∀ k ≥ n,
    (whole k).output = (first n).output ∧ (whole k).outcome = .failed d
  finished : ∀ {n n'}, (first n).outcome = .finished → (second n n').outcome ≠ .unfinished →
    ∀ k ≥ n + n', (whole k).output = (first n).output ++ (second n n').output
      ∧ (whole k).outcome.Matches (second n n').outcome
  ends : ∀ {n}, (whole n).outcome ≠ .unfinished → (∃ d, (first n).outcome = .failed d)
    ∨ (first n).outcome = .finished ∧ (second n n).outcome ≠ .unfinished

namespace Session

section EndsAlike

variable {s s' : Session} {source source' : Text} {n n' : Nat} {L : Nat → Nat → Prop}
  {before : List Text}

/-- Machines that end alike have printed the same. -/
theorem output_of_endsAlike {others : List Nat}
    (hclean : (analyse s.node s.file source others).diagnostics = [])
    (hclean' : (analyse s'.node s'.file source').diagnostics = [])
    (h : Machine.EndsAlike L before (s.machineAt source n others) (s'.machineAt source' n')) :
    (s.run n source others).2.output = before.reverse ++ (s'.run n' source').2.output := by
  rw [(report_run hclean).1, (report_run hclean').1,
    Machine.lines, h.output, List.reverse_append, Machine.lines]

variable (hclean : (analyse s.node s.file source).diagnostics = [])
  (hclean' : (analyse s'.node s'.file source').diagnostics = [])
  (h : Machine.EndsAlike L before (s.machineAt source n) (s'.machineAt source' n'))

include hclean hclean' h

/-- They are unfinished together. -/
theorem unfinished_iff_of_endsAlike : (s.run n source).2.outcome = .unfinished
    ↔ (s'.run n' source').2.outcome = .unfinished := by
  rw [outcome_eq_unfinished_iff hclean, outcome_eq_unfinished_iff hclean', h.hasEnded]

/-- Two failures of two runs that end alike. -/
theorem failed_of_endsAlike {d : Diagnostic} (hfailed : (s'.run n' source').2.outcome = .failed d) :
    ∃ e e', Diagnostic.Alike L e e' ∧ e'.decorate s'.file source' = d
      ∧ (s.run n source).2.outcome = .failed (e.decorate s.file source) := by
  obtain ⟨hend, e', he', hd⟩ := (outcome_eq_failed_iff hclean').mp hfailed
  obtain ⟨-, hnone⟩ | ⟨e, e'', he, he'', halike⟩ := h.failure
  · simp [he'] at hnone
  · obtain rfl : e'' = e' := Option.some.inj (he''.symm.trans he')
    exact ⟨e, e'', halike, hd,
      (outcome_eq_failed_iff hclean).mpr ⟨h.hasEnded.trans hend, e, he, rfl⟩⟩

/-- Two runs that end alike tell the same. -/
theorem matches_of_endsAlike (hfile : s.file = s'.file)
    (hended : (s'.run n' source').2.outcome ≠ .unfinished) :
    (s.run n source).2.outcome.Matches (s'.run n' source').2.outcome := by
  obtain hfinished | ⟨d, hfailed⟩ := finished_or_failed hclean' hended
  · obtain ⟨hend, hnone⟩ := (outcome_eq_finished_iff hclean').mp hfinished
    obtain ⟨hnone', -⟩ | ⟨_, _, _, hsome, -⟩ := h.failure
    · rw [hfinished,
        (outcome_eq_finished_iff hclean).mpr ⟨h.hasEnded.trans hend, hnone'⟩]
      exact .finished
    · simp [hnone] at hsome
  · obtain ⟨e, e', halike, rfl, hfailed'⟩ := failed_of_endsAlike hclean hclean' h hfailed
    rw [hfailed, hfailed', hfile]
    exact .failed (halike.decorate _ _ _)

end EndsAlike

/-! ## The two ways side by side

Up to the end of the first part both machines do the same; then the one goes on and the other is
loaded with the second part. -/

/-- **A single source beside its parts**, some steps into the first.  Either it is in step with the
first part, which has then not ended or has failed; or the first part has ended well some steps before,
and the single source has since been beside the second part. -/
inductive BesideParts (t s : Session) (p q : Text) (n : Nat) : Prop
  | first (hends : ∀ L : Nat → Nat → Prop, (∀ l ≤ p.lines.length, L l l) →
      Machine.EndsAlike L [] (t.machineAt (p ++ Text.newline :: q) n) (s.machineAt p n))
      (hfails : (s.machineAt p n).hasEnded → (s.machineAt p n).failure?.isSome)
  | second {j : Nat} (hj : j < n) (hended : (s.machineAt p n).hasEnded)
      (hnone : (s.machineAt p n).failure? = none)
      (hends : ∀ n', Machine.EndsAlike (fun _ _ => True) (s.machineAt p n).output
        (t.machineAt (p ++ Text.newline :: q) (j + n')) ((s.run n p).1.machineAt q n'))

section Reports

variable {s t : Session} {p q : Text} {n : Nat} (hbeside : BesideParts t s p q n)
  (hclean : (analyse s.node s.file p).diagnostics = [])
  (hcleanWhole : (analyse t.node t.file (p ++ Text.newline :: q)).diagnostics = [])

include hbeside hclean hcleanWhole

/-- What the first part fails with, the single source fails with. -/
theorem BesideParts.failed (hfile : t.file = s.file) {d : Diagnostic}
    (hfailed : (s.run n p).2.outcome = .failed d) {k : Nat} (hk : n ≤ k) :
    (t.run k (p ++ Text.newline :: q)).2.output = (s.run n p).2.output
      ∧ (t.run k (p ++ Text.newline :: q)).2.outcome = .failed d := by
  cases hbeside with
  | first hends _ =>
    have hsame := hends (SameLine p.lines.length) fun l hl => ⟨rfl, hl⟩
    obtain ⟨e, e', he, hd, hwhole⟩ := failed_of_endsAlike hcleanWhole hclean hsame hfailed
    obtain rfl := he.eq_of_sameLine
    rw [run_eq_of_le hcleanWhole (by rw [hwhole]; simp) hk, hwhole, ← hd, hfile,
      Diagnostic.decorate_append he.line.of_sameLine.2]
    exact ⟨output_of_endsAlike hcleanWhole hclean hsame, rfl⟩
  | second _ _ hnone _ =>
    obtain ⟨-, e, he, -⟩ := (outcome_eq_failed_iff hclean).mp hfailed
    exact absurd (hnone.symm.trans he) (by simp)

/-- Where the first part ends well, the single source prints what the two print and ends as the second
does. -/
theorem BesideParts.finished (hfile : t.file = s.file) {n' : Nat}
    (hcleanSecond : (analyse (s.run n p).1.node (s.run n p).1.file q).diagnostics = [])
    (hfinished : (s.run n p).2.outcome = .finished)
    (hended : ((s.run n p).1.run n' q).2.outcome ≠ .unfinished) {k : Nat} (hk : n + n' ≤ k) :
    (t.run k (p ++ Text.newline :: q)).2.output
        = (s.run n p).2.output ++ ((s.run n p).1.run n' q).2.output
      ∧ (t.run k (p ++ Text.newline :: q)).2.outcome.Matches ((s.run n p).1.run n' q).2.outcome := by
  obtain ⟨hend, hnone⟩ := (outcome_eq_finished_iff hclean).mp hfinished
  cases hbeside with
  | first _ hfails => simpa [hnone] using hfails hend
  | @second j hj _ _ hends =>
    have hsame := hends n'
    have hstops := mt (unfinished_iff_of_endsAlike hcleanWhole hcleanSecond hsame).mp hended
    have hle : j + n' ≤ k := Nat.le_trans (Nat.add_le_add_right (Nat.le_of_lt hj) n') hk
    rw [run_eq_of_le hcleanWhole hstops hle, (report_run hclean).1]
    refine ⟨output_of_endsAlike hcleanWhole hcleanSecond hsame, ?_⟩
    exact matches_of_endsAlike hcleanWhole hcleanSecond hsame (hfile.trans (file_run n).symm) hended

/-- The single source ends only if its parts do. -/
theorem BesideParts.ends
    (hcleanSecond : (analyse (s.run n p).1.node (s.run n p).1.file q).diagnostics = [])
    (hended : (t.run n (p ++ Text.newline :: q)).2.outcome ≠ .unfinished) :
    (∃ d, (s.run n p).2.outcome = .failed d)
      ∨ (s.run n p).2.outcome = .finished ∧ ((s.run n p).1.run n q).2.outcome ≠ .unfinished := by
  cases hbeside with
  | first hends hfails =>
    have hsame := hends (fun _ _ => True) fun _ _ => trivial
    have hstops := mt (unfinished_iff_of_endsAlike hcleanWhole hclean hsame).mpr hended
    obtain hfinished | hfailed := finished_or_failed hclean hstops
    · obtain ⟨hend, hnone⟩ := (outcome_eq_finished_iff hclean).mp hfinished
      simpa [hnone] using hfails hend
    · exact .inl hfailed
  | @second j _ hend hnone hends =>
    refine .inr ⟨(outcome_eq_finished_iff hclean).mpr ⟨hend, hnone⟩, ?_⟩
    refine mt (unfinished_iff_of_endsAlike hcleanWhole hcleanSecond (hends n)).mpr ?_
    rw [run_eq_of_le hcleanWhole hended (Nat.le_add_left n j)]
    exact hended

end Reports

/-! ## Fresh sessions -/

section Parts

variable {file source p q : Text} {node node' : Nat} {clock : Clock}

/-- Where a check reports nothing, no numbering of the nodes does. -/
theorem clean_of_check (h : check file source = []) (node : Nat) :
    (analyse node file source).diagnostics = [] := analyse_clean_iff.mpr (analyse_clean_iff.mp h)

/-- What the walk over two sources as a single one meets. -/
def wholeVisits (node : Nat) (file p q : Text) : List Visit :=
  visitsOf (analyse node file (p ++ Text.newline :: q)).statements

/-- What the walks over two sources of a session meet. -/
def partVisits (node : Nat) (file p q : Text) : List Visit :=
  visitsOf (analyse node file p).statements
    ++ visitsOf (analyse (analyse node file p).node file q).statements

/-- In the joined source every node is met once. -/
theorem metOnce_wholeVisits : MetOnce (wholeVisits node file p q) := by
  have hvisits : (fresh file node ⟨0, []⟩).visits [(0, p ++ Text.newline :: q)]
      = wholeVisits node file p q := List.append_nil _
  intro v hv w hw hnode
  rw [← hvisits] at hv hw
  exact eq_of_node_eq hv hw hnode

/-- In the two parts together it is as well, as the second counts on from the first. -/
theorem metOnce_partVisits (hp : check file p = []) : MetOnce (partVisits node file p q) := by
  have hvisits : (fresh file node ⟨0, []⟩).visits [(0, p), (0, q)] = partVisits node file p q := by
    have hrun := @run_of_diagnostics_eq_nil (fresh file node ⟨0, []⟩) p [] 0 (clean_of_check hp node)
    simp only [visits, hrun, List.append_nil]
    rfl
  intro v hv w hw hnode
  rw [← hvisits] at hv hw
  exact eq_of_node_eq hv hw hnode

/-- The nodes of the single source and those of its parts that were met alike. -/
abbrev PartLink (node' node : Nat) (file p q : Text) : Nat → Nat → Prop :=
  Linked (· ∈ wholeVisits node' file p q) (· ∈ partVisits node file p q)

variable (node node' clock) (hp : check file p = []) (hq : check file q = [])
  (hpq : check file (p ++ Text.newline :: q) = [])

include hpq in
/-- The machine of the joined source is sound all along. -/
theorem sound_whole (n : Nat) :
    ((fresh file node' clock).machineAt (p ++ Text.newline :: q) n).Sound
      (Known (wholeVisits node' file p q)) :=
  @sound_machineAt (fresh file node' clock) _ _ _ (Machine.sound_ofClock clock)
    (clean_of_check hpq node') (fun _ hv => hv) n

include hp in
/-- So is that of the first part. -/
theorem sound_first (n : Nat) :
    ((fresh file node clock).machineAt p n).Sound (Known (partVisits node file p q)) :=
  @sound_machineAt (fresh file node clock) _ _ _ (Machine.sound_ofClock clock)
    (clean_of_check hp node) (fun _ hv => List.mem_append_left _ hv) n

include hp hq in
/-- So is that of the second part, behind the first. -/
theorem sound_second (n n' : Nat) :
    (((fresh file node clock).run n p).1.machineAt q n').Sound
      (Known (partVisits node file p q)) := by
  have hrun := @run_of_diagnostics_eq_nil (fresh file node clock) p [] n (clean_of_check hp node)
  rw [hrun]
  exact @sound_machineAt ⟨file, _, _⟩ _ _ _ (sound_first node clock hp n).heap
    (clean_of_check hq _) (fun _ hv => List.mem_append_right _ hv) n'

include hp hq hpq

/-- The single source starts in step with its first part, and has the second one behind it. -/
theorem starts_alike : ∃ qs : List Stmt,
    BodyAlike (Token.Alike fun _ _ => True) (PartLink node' node file p q) qs
      (analyse (analyse node file p).node file q).statements
    ∧ ∀ L : Nat → Nat → Prop, (∀ l ≤ p.lines.length, L l l) →
      Machine.Alike L (PartLink node' node file p q) qs []
        ((fresh file node' clock).machineAt (p ++ Text.newline :: q) 0)
        ((fresh file node clock).machineAt p 0) := by
  obtain ⟨ps, qs, heq, hps, hqs⟩ := @statements_linked file p q node' node (analyse node file p).node
    (clean_of_check hp _) (clean_of_check hq _) (clean_of_check hpq _)
    (· ∈ wholeVisits node' file p q) (· ∈ partVisits node file p q) (fun _ hv => hv)
    (fun _ hv => List.mem_append_left _ hv) fun _ hv => List.mem_append_right _ hv
  refine ⟨qs, hqs, fun L hL => .running ⟨⟨rfl, rfl, rfl, .nil, .nil⟩, rfl, rfl, rfl, rfl, ?_⟩ .done⟩
  have hpending : ((fresh file node' clock).machineAt (p ++ Text.newline :: q) 0).pending
      = [.program (ps ++ qs)] := congrArg (fun body => [Pending.program body]) heq
  rw [hpending]
  exact .program (hps L hL)

/-- **A single source runs beside its parts**, at every step. -/
theorem beside_parts (n : Nat) :
    BesideParts (fresh file node' clock) (fresh file node clock) p q n := by
  have honce : MetOnce (wholeVisits node' file p q) := metOnce_wholeVisits
  have honce' : MetOnce (partVisits node file p q) := metOnce_partVisits hp
  have hrun : ∀ n, (fresh file node clock).machineAt p n
      = ((fresh file node clock).machineAt p 0).run n := fun _ => rfl
  obtain ⟨qs, hqs, hstart⟩ := starts_alike node node' clock hp hq hpq
  have hat := fun L hL => (hstart L hL).run honce honce' (sound_whole node' clock hpq 0)
    (sound_first node clock hp 0)
  obtain hnone | ⟨j, hj, hthrough, hfirst⟩ :=
    @Machine.exists_first_through ((fresh file node clock).machineAt p 0) n
  · refine .first (fun L hL => (hat L hL n hnone).endsAlike) ?_
    exact (hat (fun _ _ => True) (fun _ _ => trivial) n hnone).failure?_isSome
  · have hend := (hrun n).trans (hthrough.run_of_lt hj)
    refine .second hj ?_ ?_ fun n' => ?_
    · rw [hend]
      simp only [Machine.hasEnded, hthrough.1, List.isEmpty_nil, Bool.and_true]
    · rw [hend]
      simp only [Machine.failure?, hthrough.1]
    -- The first part needs one more step to end, the single source goes on at once: the second part
    -- is beside it from step `j` on, not from `n`.
    · have hnext := (hat (fun _ _ => True) (fun _ _ => trivial) j hfirst).load hthrough hqs
        (analyse (analyse node file p).node file q).distances
      have hsecond : ((fresh file node clock).run n p).1.machineAt q 0
          = Machine.load { ((fresh file node clock).machineAt p 0).run j with pending := [] }
            (analyse (analyse node file p).node file q).statements
            (analyse (analyse node file p).node file q).distances := by
        rw [run_of_diagnostics_eq_nil n (clean_of_check hp node), hend]
        rfl
      have hwhole : (fresh file node' clock).machineAt (p ++ Text.newline :: q) (j + n')
          = ((fresh file node' clock).machineAt (p ++ Text.newline :: q) j).run n' :=
        Machine.run_add j n'
      rw [← hsecond, List.append_nil] at hnext
      rw [hend, hwhole]
      exact hnext.run_endsAlike honce honce' (sound_whole node' clock hpq j)
        (sound_second node clock hp hq n 0) n'

/-- **A source may be run in two parts.**  For two sources without mistakes that have none with a
newline between them either, and for the same clock: a run of the single source in a fresh session is a
run of the first source and then, unless that one failed, of the second in the same session. -/
theorem run_joined :
    SplitsInto (fun n => ((fresh file node' clock).run n (p ++ Text.newline :: q)).2)
      (fun n => ((fresh file node clock).run n p).2)
      (fun n n' => (((fresh file node clock).run n p).1.run n' q).2) := by
  have hbeside := beside_parts node node' clock hp hq hpq
  have hclean := clean_of_check hp node
  have hcleanWhole := clean_of_check hpq node'
  have hcleanSecond : ∀ n, (analyse ((fresh file node clock).run n p).1.node
      ((fresh file node clock).run n p).1.file q).diagnostics = [] := by
    intro n
    rw [file_run]
    exact clean_of_check hq _
  constructor
  · intro n d hfailed k hk
    exact (hbeside n).failed hclean hcleanWhole rfl hfailed hk
  · intro n n' hfinished hended k hk
    exact (hbeside n).finished hclean hcleanWhole rfl (hcleanSecond n) hfinished hended hk
  · intro n hended
    exact (hbeside n).ends hclean hcleanWhole (hcleanSecond n) hended

end Parts

/-- A source that declares a global and a function which reads it. -/
def giver : Text := "is g = surely; listen f() ( give g; )"

/-- A source that calls the function of `giver`, and then the global, which is none. -/
def caller : Text := "tell f(); g();"

/-- The function and the global of a first part are found from a second one as they are in a single
source. -/
theorem run_joined_caller : check [] (giver ++ Text.newline :: caller) = []
    ∧ ((fresh [] 0 ⟨0, []⟩).run 1000 (giver ++ Text.newline :: caller)).2.output = [("true" : Text)]
    ∧ ((fresh [] 0 ⟨0, []⟩).run 1000 (giver ++ Text.newline :: caller)).2.outcome.Matches
      (((fresh [] 0 ⟨0, []⟩).run 9 giver).1.run 30 caller).2.outcome := by
  have hclean : check [] (giver ++ Text.newline :: caller) = [] := by decide +kernel
  obtain ⟨houtput, hfailed⟩ : (((fresh [] 0 ⟨0, []⟩).run 9 giver).1.run 30 caller).2.output
        = [("true" : Text)]
      ∧ (((fresh [] 0 ⟨0, []⟩).run 9 giver).1.run 30 caller).2.hasFailed := by cbv
  obtain ⟨hlines, hmatches⟩ := (@run_joined [] giver caller 0 0 ⟨0, []⟩ (by decide +kernel)
    (by decide +kernel) hclean).finished rfl
    (fun hunfinished => by simp [Run.hasFailed, hunfinished] at hfailed) 1000
    (by decide : 9 + 30 ≤ 1000)
  exact ⟨hclean, hlines.trans houtput, hmatches⟩

end Session

end YouthLang

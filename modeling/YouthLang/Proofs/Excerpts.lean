import YouthLang.Proofs.Written

/-!
# Proofs/Excerpts — a mistake is shown with one line of the source

Two routines look up the line that a mistake is shown with, each in a splitting of its own: the parser
does so when it reports a mistake (`Origin.report`), and the mistakes of all stages are completed in the
end (`Diagnostic.decorate`).  What is reported has no line yet, so the two agree
(`Origin.report_ofSource`), and the second one leaves what the first one has shown
(`Diagnostic.decorate_decorate`).  So the mistakes of a program may be taken as if they were shown once
(`programOf_eq`).
-/

namespace YouthLang

variable {file source : Text}

namespace Diagnostic

variable (d : Diagnostic)

/-- A line is looked up only where none is shown yet. -/
theorem attach_of_excerpt_ne_nil (h : d.excerpt ≠ []) : d.attach source = d := by
  simp [attach, h]

theorem withExcerpt_nil (hbare : d.excerpt = []) : d.withExcerpt [] = d := by
  obtain ⟨cause, line, column, lexeme, atEnd, file, excerpt, calls⟩ := d
  obtain rfl := hbare
  rfl

/-- A mistake that has no line yet is shown with the line of its number, if there is one. -/
theorem attach_of_bare (hbare : d.excerpt = []) : d.attach source = d.withExcerpt
    (if 0 < d.line then (source.lines[d.line.toNat - 1]?.map (Text.dropTrailing 0x0D)).getD [] else [])
      := by
  have hsame := d.withExcerpt_nil hbare
  by_cases hline : 0 < d.line
  · cases hfound : source.lines[d.line.toNat - 1]? with
    | none => simp [attach, hbare, hline, hfound, hsame]
    | some line => simp [attach, hbare, hline, hfound]
  · simp [attach, hbare, hline, hsame]

/-- What has been shown is not shown again. -/
theorem attach_attach : (d.attach source).attach source = d.attach source := by
  by_cases hbare : d.excerpt = []
  · by_cases hagain : (d.attach source).excerpt = []
    · rw [attach_of_bare _ hagain, attach_of_bare d hbare]
      rfl
    · exact attach_of_excerpt_ne_nil _ hagain
  · rw [attach_of_excerpt_ne_nil d hbare, attach_of_excerpt_ne_nil d hbare]

theorem attach_inFile : (d.inFile file).attach source = (d.attach source).inFile file := by
  by_cases hbare : d.excerpt = []
  · rw [attach_of_bare (d.inFile file) hbare, attach_of_bare d hbare]
    rfl
  · rw [attach_of_excerpt_ne_nil (d.inFile file) hbare, attach_of_excerpt_ne_nil d hbare]

theorem inFile_inFile : (d.inFile file).inFile file = d.inFile file := by
  simp [inFile, Function.comp_def]

/-- What has been placed and shown stays as it is. -/
theorem decorate_decorate :
    (d.decorate file source).decorate file source = d.decorate file source := by
  unfold decorate placed
  split
  · exact d.attach_attach
  · simp only [attach_inFile, inFile_inFile, attach_attach]

end Diagnostic

namespace Origin

/-- Both ways of looking up a line find the same one. -/
theorem shown_eq_attach {placed : Diagnostic} (hbare : placed.excerpt = []) :
    (if 0 < placed.line && placed.line ≤ source.lines.length then
      placed.withExcerpt (Text.dropTrailing 0x0D (source.lines.getD (placed.line.toNat - 1) []))
    else placed) = placed.attach source := by
  have hsame : placed.withExcerpt [] = placed := placed.withExcerpt_nil hbare
  rw [placed.attach_of_bare hbare]
  by_cases hline : 0 < placed.line
  · by_cases hle : placed.line ≤ source.lines.length
    · have hlt : placed.line.toNat - 1 < source.lines.length := by omega
      simp [hline, hle, hlt]
    · have hlt : source.lines.length ≤ placed.line.toNat - 1 := by omega
      simp [hline, hle, hlt, hsame]
  · simp [hline, hsame]

/-- **The two routines agree**: a mistake that has no line yet is reported with the file and the line that
it would be given in the end. -/
theorem report_ofSource {d : Diagnostic} (hbare : d.excerpt = []) :
    (ofSource file source).report d = d.decorate file source := by
  have hplaced : (d.placed file).excerpt = [] := by
    unfold Diagnostic.placed
    split <;> exact hbare
  exact shown_eq_attach hplaced

end Origin

/-- The parser reports a mistake without a line. -/
theorem excerpt_of_mem_parse {node : Nat} {tokens : List Token} {others : List Nat} {d : Diagnostic}
    (hd : d ∈ (parse node tokens others).diagnostics) : d.excerpt = [] := by
  obtain ⟨t, -, ht⟩ := (written.parse node (fun t (_ : t ∈ tokens) => trivial) others).2 d hd
  exact ht.bare

/-- **The mistakes of a program are as if they were shown once.** -/
theorem programOf_eq (node : Nat) (file source : Text) (others : List Nat := []) :
    programOf node file source others =
      { parse node (scan source).tokens others with
        diagnostics := ((scan source).diagnostics
          ++ (parse node (scan source).tokens others).diagnostics).map (·.decorate file source) } := by
  simp only [programOf, parseFrom, List.map_append, List.map_map, Parsed.mk.injEq, true_and]
  refine congrArg _ (List.map_congr_left fun d hd => ?_)
  rw [Function.comp_apply, Origin.report_ofSource (excerpt_of_mem_parse hd), d.decorate_decorate]

end YouthLang

import YouthLang.Proofs.Scanning.Layout

/-!
# Proofs/Scanning/Lines — a source scanned in two parts

A newline parts a source where no string is open: what stands in front of it is scanned as if nothing
followed, and what stands behind it as if nothing came before, only further down (`scan_append_newline`).
The one thing that is read differently at the start of a source is the `#!` line of a script.
-/

namespace YouthLang

/-- A mistake some lines further down. -/
def Diagnostic.below (k : Nat) (d : Diagnostic) : Diagnostic := { d with line := d.line + k }

theorem Piece.diagnostic?_below (k : Nat) (p : Piece) :
    (p.below k).diagnostic? = p.diagnostic?.map (Diagnostic.below k) := by
  unfold Piece.diagnostic? Piece.below
  simp only [Position.after_below]
  split
  · next cause _ =>
    by_cases hopen : cause = .unterminatedString <;>
      simp [hopen, Diagnostic.below, Position.below]
  · rfl

/-- The end of a source is as many lines below its start as there are newlines in it. -/
theorem line_after_eq_count (source : Text) :
    (Position.start.after source.glyphs).line = source.count Text.newline + 1 := by
  rw [Text.after_eq_endPlace (List.append_nil _).symm, Text.ofGlyphs_glyphs, Text.endPlace]

/-- A source that does not start with `#!` is no script. -/
theorem hashBang_eq_nil {source : Text} (h : ¬ ("#!" : Text) <+: source) :
    hashBang source.glyphs = [] := by
  generalize hsource : source.glyphs = gs
  unfold hashBang
  split
  · next rest =>
    refine absurd ⟨Text.ofGlyphs rest, ?_⟩ h
    rw [← Text.ofGlyphs_glyphs source, hsource]
    rfl
  · rfl

/-- **Scanning is compositional over lines.**  Where no string is left open in front of a newline and
what stands behind it does not start as a script, the tokens are those of the first part without the
mark of its end and then those of the second part, and so are the mistakes; all of the second part are
one more line further down than there are newlines in the first, and unchanged otherwise. -/
theorem scan_append_newline {p q : Text}
    (hclosed : ∀ d ∈ (scan p).diagnostics, d.cause ≠ .lexical .unterminatedString)
    (hscript : ¬ ("#!" : Text) <+: q) :
    (scan (p ++ Text.newline :: q)).tokens = (scan p).tokens.dropLast
        ++ (scan q).tokens.map (Token.below (p.count Text.newline + 1))
    ∧ (scan (p ++ Text.newline :: q)).diagnostics = (scan p).diagnostics
        ++ (scan q).diagnostics.map (Diagnostic.below (p.count Text.newline + 1)) := by
  have hpieces := content_ne_unterminated hclosed
  have hbang := hashBang_eq_nil hscript
  rw [← line_after_eq_count]
  constructor
  -- The end of the source moves down with the second part.
  · have hend : Position.start.after (Text.glyphs (p ++ Text.newline :: q))
        = (Position.start.after q.glyphs).below (Position.start.after p.glyphs).line := by
      rw [Text.glyphs_append_newline, Position.after_append, Position.after_cons,
        ← Position.after_below]
      simp [Position.next, Position.below, Position.start, Nat.add_comm]
    rw [tokens_eq_wordsOf, tokens_eq_wordsOf p, tokens_eq_wordsOf q, List.dropLast_concat,
      wordsOf_append_newline hpieces hbang, hend, List.map_append, List.append_assoc]
    rfl
  -- A mistake moves with its piece.
  · change (pieces (Text.glyphs (p ++ Text.newline :: q))).filterMap Piece.diagnostic?
      = (pieces p.glyphs).filterMap Piece.diagnostic?
        ++ ((pieces q.glyphs).filterMap Piece.diagnostic?).map _
    rw [pieces_joined hpieces hbang, List.filterMap_append, List.filterMap_cons_none rfl,
      List.filterMap_map, List.map_filterMap]
    congr 2
    funext piece
    exact piece.diagnostic?_below _

/-- The first part is a script with a string on two lines and a stray character at its end, and a quote
is left open behind the newline. -/
theorem scan_append_newline_script :
    let p : Text := "#!youth\nis a = \"1\n2\" @"
    let q : Text := "tell a; \""
    (∀ d ∈ (scan p).diagnostics, d.cause ≠ .lexical .unterminatedString) ∧ ¬ ("#!" : Text) <+: q
      ∧ ((scan (p ++ Text.newline :: q)).tokens = (scan p).tokens.dropLast
          ++ (scan q).tokens.map (Token.below 3))
      ∧ (scan (p ++ Text.newline :: q)).diagnostics = (scan p).diagnostics
          ++ (scan q).diagnostics.map (Diagnostic.below 3) := by
  intro p q
  have hclosed : ∀ d ∈ (scan p).diagnostics, d.cause ≠ .lexical .unterminatedString := by
    decide +kernel
  have hscript : ¬ ("#!" : Text) <+: q := by decide
  exact ⟨hclosed, hscript, scan_append_newline hclosed hscript⟩

end YouthLang

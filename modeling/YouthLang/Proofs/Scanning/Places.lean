import YouthLang.Proofs.Entries
import YouthLang.Proofs.Scanning.Partition

/-!
# Proofs/Scanning/Places — what stands at a place

A place is found by walking over the characters in front of it; a reader finds it by its line and
its column.  Both ways lead to the same spot (`Text.meets_joined`), so the pieces of a source, which
follow each other, stand where their places say (`Piece.located`), and a line shows the text of a
token from its column on (`shown_of_mem_tokens`).
-/

namespace YouthLang

/-! ## Characters below `0x80` -/

namespace Text

/-- A byte below `0x80` belongs to no longer character. -/
theorem eq_of_mem_encode {b : UInt8} (hb : b < 0x80) {g : Glyph} (hmem : b ∈ g.encode) :
    ∀ {t : Text}, g ∈ t.glyphs → g = .char (Char.ofNat b.toNat) := by
  intro t
  induction hn : t.length using Nat.strong_induction_on generalizing t with
  | h n ih =>
  intro hg
  by_cases hbt : b ∈ t
  · obtain ⟨front, rest, rfl, hfront⟩ := List.eq_append_cons_of_mem hbt
    rw [glyphs_append_ascii front rest hb, glyphs_cons_ascii hb rest] at hg
    rcases List.mem_append.mp hg with hg | hg
    · have hbyte : b ∈ ofGlyphs (glyphs front) := List.mem_flatMap.mpr ⟨g, hg, hmem⟩
      rw [ofGlyphs_glyphs] at hbyte
      exact absurd hbyte hfront
    · rcases List.mem_cons.mp hg with rfl | hg
      · rfl
      · exact ih rest.length (by rw [← hn, List.length_append, List.length_cons]; omega) rfl hg
  · have hbyte : b ∈ ofGlyphs t.glyphs := List.mem_flatMap.mpr ⟨g, hg, hmem⟩
    rw [ofGlyphs_glyphs] at hbyte
    exact absurd hbyte hbt

/-- The first line of a text. -/
def firstLine (t : Text) : Text := t.takeWhile (· ≠ newline)

/-- The first line of some characters of a text. -/
theorem firstLine_ofGlyphs {t : Text} {gs : List Glyph} (h : ∀ g ∈ gs, g ∈ t.glyphs) :
    (ofGlyphs gs).firstLine = ofGlyphs (gs.takeWhile (· ≠ .char '\n')) := by
  induction gs with
  | nil => rfl
  | cons g gs ih =>
    obtain ⟨hg, hgs⟩ := List.forall_mem_cons.mp h
    rw [firstLine] at ih ⊢
    by_cases hnewline : g = .char '\n'
    · subst hnewline
      rfl
    · have hfree : ∀ b ∈ g.encode, (b ≠ newline : Bool) = true := by
        intro b hmem
        rw [decide_eq_true_eq]
        rintro rfl
        exact hnewline (eq_of_mem_encode (by decide) hmem hg)
      rw [ofGlyphs_cons, List.takeWhile_append_of_pos hfree, ih hgs,
        List.takeWhile_cons_of_pos (by simpa using hnewline), ofGlyphs_cons]

end Text

/-! ## Lines and columns -/

theorem takeWhile_of_newline_not_mem {gs : List Glyph} (h : .char '\n' ∉ gs) :
    gs.takeWhile (· ≠ .char '\n') = gs := by
  refine List.takeWhile_eq_self_iff.mpr fun g hg => ?_
  rw [decide_eq_true_eq]
  rintro rfl
  exact h hg

namespace Position

theorem after_below (k : Nat) (p : Position) (gs : List Glyph) :
    (p.below k).after gs = (p.after gs).below k := by
  induction gs generalizing p with
  | nil => rfl
  | cons g gs ih => rw [after_cons, after_cons, next_below, ih]

/-- Characters on one line move a place along it. -/
theorem after_eq_of_line (p : Position) {gs : List Glyph} (h : .char '\n' ∉ gs) :
    p.after gs = ⟨p.line, p.column + gs.length⟩ := by
  induction gs generalizing p with
  | nil => rfl
  | cons g gs ih =>
    rw [List.mem_cons, not_or] at h
    rw [after_cons, ih _ h.2, next, if_neg (Ne.symm h.1)]
    simp [Nat.add_comm, Nat.add_left_comm]

/-- A place is on one of some lines, and some characters follow it there. -/
structure Meets (p : Position) (lines : List Text) (line : Text) (behind : List Glyph) : Prop where
  line_pos : 1 ≤ p.line
  column_pos : 1 ≤ p.column
  line_eq : lines[p.line - 1]? = some line
  column_le : p.column - 1 ≤ line.glyphs.length
  behind : line.glyphs.drop (p.column - 1) = behind

/-- A line in front of the others moves all places down. -/
theorem Meets.below {p : Position} {lines : List Text} {line : Text} {behind : List Glyph}
    (h : p.Meets lines line behind) (first : Text) :
    (p.below 1).Meets (first :: lines) line behind where
  line_pos := Nat.le_add_left 1 p.line
  column_pos := h.column_pos
  line_eq := by
    rw [← h.line_eq]
    obtain ⟨l, hl⟩ := Nat.exists_eq_add_of_le' h.line_pos
    simp [Position.below, hl]
  column_le := h.column_le
  behind := h.behind

end Position

namespace Text

/-- A place on the first of some lines. -/
theorem meets_first {l : Text} {before behind : List Glyph} (ls : List Text) (hl : newline ∉ l)
    (h : l.glyphs = before ++ behind) : (Position.start.after before).Meets (l :: ls) l behind := by
  have hbefore : .char '\n' ∉ before := fun hmem =>
    newline_not_mem_glyphs hl (by rw [h]; exact List.mem_append_left _ hmem)
  rw [Position.after_eq_of_line _ hbefore]
  refine ⟨Nat.le_refl 1, Nat.le_add_right 1 _, rfl, ?_, ?_⟩
  · simp [h, Position.start]
  · simp [h, Position.start]

/-- **A place behind some characters of a text is met on its line and in its column**, and what
follows it there is what follows it in the text, up to the next newline.  The end of the text is on
the last line. -/
theorem meets_joined {before rest : List Glyph} : ∀ {ls : List Text}, ls ≠ [] →
    (∀ l ∈ ls, newline ∉ l) → (joined ls).glyphs = before ++ rest →
    (∃ line, (Position.start.after before).Meets ls line (rest.takeWhile (· ≠ .char '\n')))
      ∧ (rest = [] → (Position.start.after before).line = ls.length)
  | [], hne, _, _ => absurd rfl hne
  | [l], _, hfree, h => by
      have hl := hfree l List.mem_cons_self
      have hnone : .char '\n' ∉ l.glyphs := newline_not_mem_glyphs hl
      rw [show l.glyphs = _ from h, List.mem_append, not_or] at hnone
      rw [takeWhile_of_newline_not_mem hnone.2]
      exact ⟨⟨l, meets_first [] hl h⟩, fun _ => by
        rw [Position.after_eq_of_line _ hnone.1]
        rfl⟩
  | l :: l' :: ls, _, hfree, h => by
      obtain ⟨hl, hrest⟩ := List.forall_mem_cons.mp hfree
      have hsplit : joined (l :: l' :: ls) = l ++ newline :: joined (l' :: ls) := by
        simp [joined, join]
      rw [hsplit, glyphs_append_newline] at h
      obtain ⟨more, hbefore, hmore⟩ | ⟨more, hline, hmore⟩ := List.append_eq_append_iff.mp h
      · cases more with
        | nil =>
          -- the place is the end of the first line
          obtain rfl : before = l.glyphs := by simpa using hbefore
          obtain rfl : rest = .char '\n' :: (joined (l' :: ls)).glyphs := hmore.symm
          exact ⟨⟨l, meets_first _ hl (List.append_nil _).symm⟩, by simp⟩
        | cons g more =>
          -- the place is behind the first newline
          rw [List.cons_append] at hmore
          obtain ⟨rfl, hbehind⟩ := List.cons.inj hmore
          obtain ⟨⟨line, hmeets⟩, hend⟩ := meets_joined (List.cons_ne_nil l' ls) hrest hbehind
          have hafter : Position.start.after before = (Position.start.after more).below 1 := by
            rw [hbefore, Position.after_append, Position.after_cons,
              Position.after_eq_of_line _ (newline_not_mem_glyphs hl), ← Position.after_below]
            rfl
          rw [hafter]
          refine ⟨⟨line, hmeets.below l⟩, fun hnil => ?_⟩
          rw [Position.below, hend hnil]
          rfl
      · -- the place is on the first line
        have hnone : .char '\n' ∉ more := fun hmem =>
          newline_not_mem_glyphs hl (by rw [hline]; exact List.mem_append_right _ hmem)
        have hstop : rest.takeWhile (· ≠ .char '\n') = more := by
          rw [hmore, takeWhile_append_stop (by simp), takeWhile_of_newline_not_mem hnone]
        rw [hstop]
        exact ⟨⟨l, meets_first _ hl hline⟩, fun hnil => by simp [hnil] at hmore⟩

end Text

/-! ## Places in a source -/

/-- Some characters follow a place in a source, to its end. -/
def Located (source : Text) (p : Position) (rest : List Glyph) : Prop :=
  ∃ before, source.glyphs = before ++ rest ∧ p = Position.start.after before

namespace Located

variable {source : Text} {p : Position} {rest : List Glyph}

theorem meets_lines (h : Located source p rest) :
    (∃ line, p.Meets source.lines line (rest.takeWhile (· ≠ .char '\n')))
      ∧ (rest = [] → p.line = source.lines.length) := by
  obtain ⟨before, hsource, rfl⟩ := h
  refine Text.meets_joined (Text.splitOn_ne_nil _ _) (fun l hl => Text.not_mem_of_mem_splitOn hl) ?_
  rw [← hsource]
  exact congrArg Text.glyphs (Text.join_lines source)

/-- From a place on, its line shows what follows, up to the first newline. -/
theorem firstLine_isPrefix {gs more : List Glyph} (h : Located source p rest)
    (hrest : rest = gs ++ more) :
    (Text.ofGlyphs gs).firstLine <+: Text.ofGlyphs (rest.takeWhile (· ≠ .char '\n')) := by
  obtain ⟨before, hsource, -⟩ := h
  have hmem : ∀ g ∈ gs, g ∈ source.glyphs := fun g hg => by
    rw [hsource, hrest]
    exact List.mem_append_right _ (List.mem_append_left _ hg)
  rw [Text.firstLine_ofGlyphs hmem, hrest, List.takeWhile_append]
  split
  · next hall =>
    rw [(List.takeWhile_prefix _).eq_of_length hall, Text.ofGlyphs_append]
    exact List.prefix_append _ _
  · exact List.prefix_rfl

end Located

theorem piecesFrom_place {piece : Piece} {behind : List Piece} : ∀ (gs : List Glyph) (skip : Nat)
    (p : Position) (before : List Piece), piecesFrom skip p gs = before ++ piece :: behind →
    piece.place = p.after (gs.take skip ++ before.flatMap Piece.glyphs)
  | [], skip, p, before, h => by simp [piecesFrom] at h
  | g :: gs, skip + 1, p, before, h => piecesFrom_place gs skip _ before h
  | g :: gs, 0, p, [], h => by
      obtain ⟨rfl, -⟩ := List.cons.inj h
      rfl
  | g :: gs, 0, p, first :: before, h => by
      obtain ⟨rfl, hbefore⟩ := List.cons.inj h
      rw [piecesFrom_place gs _ _ before hbefore]
      rfl

/-- **A piece starts where the pieces before it end.** -/
theorem Piece.place_eq {gs : List Glyph} {before behind : List Piece} {piece : Piece}
    (h : pieces gs = before ++ piece :: behind) :
    piece.place = Position.start.after (before.flatMap Piece.glyphs) := by
  unfold pieces at h
  simp only at h
  split at h
  · exact piecesFrom_place gs 0 _ before h
  · cases before with
    | nil =>
      obtain ⟨rfl, -⟩ := List.cons.inj h
      rfl
    | cons first before =>
      obtain ⟨rfl, hbefore⟩ := List.cons.inj h
      rw [piecesFrom_place _ 0 _ before hbefore, List.take_zero, List.nil_append,
        List.flatMap_cons, Position.after_append]

/-- A piece that is no gap stands at its place, and is what was found there. -/
theorem Piece.located {source : Text} {piece : Piece} (hpiece : piece ∈ pieces source.glyphs)
    (hgap : piece.content ≠ .gap) : ∃ g rest, Located source piece.place (g :: rest)
      ∧ piece.content = (Content.front g rest).1
      ∧ piece.glyphs = g :: rest.take (Content.front g rest).2 := by
  obtain ⟨before, behind, hsplit⟩ := List.append_of_mem hpiece
  obtain ⟨-, hcontent, -⟩ | ⟨g, rest, hsource, horigin⟩ := Piece.origin hsplit
  · exact absurd hcontent hgap
  · exact ⟨g, rest, ⟨_, hsource, Piece.place_eq hsplit⟩, horigin⟩

theorem Piece.mem_of_mem_glyphs {gs : List Glyph} {piece : Piece} (hpiece : piece ∈ pieces gs) :
    ∀ g ∈ piece.glyphs, g ∈ gs := fun g hg => by
  rw [← flatMap_glyphs_pieces gs]
  exact List.mem_flatMap.mpr ⟨piece, hpiece, hg⟩

/-- No white space stands at the place of a piece that is no gap. -/
theorem Content.not_isSpace {g : Glyph} {rest : List Glyph} (h : (Content.front g rest).1 ≠ .gap) :
    g.isSpace = false := by
  unfold Content.front at h
  split at h
  · exact absurd rfl h
  · next hspace => exact Bool.eq_false_iff.mpr hspace

theorem Glyph.ne_newline_of_not_isSpace {g : Glyph} (h : g.isSpace = false) : g ≠ .char '\n' := by
  rintro rfl
  exact absurd h (by decide)

/-- **From its place on, a line shows a piece that is no gap**, as far as the piece is on it. -/
theorem Piece.meets {source : Text} {piece : Piece} (hpiece : piece ∈ pieces source.glyphs)
    (hgap : piece.content ≠ .gap) : ∃ line g behind,
      piece.place.Meets source.lines line (g :: behind) ∧ g.isSpace = false
        ∧ piece.text.firstLine ≠ [] ∧ piece.text.firstLine <+: Text.ofGlyphs (g :: behind)
        ∧ ∃ rest, piece.content = (Content.front g rest).1
          ∧ piece.glyphs = g :: rest.take (Content.front g rest).2 := by
  obtain ⟨g, rest, hlocated, hcontent, hglyphs⟩ := Piece.located hpiece hgap
  have hspace := Content.not_isSpace (hcontent ▸ hgap)
  have hhead : (g :: rest).takeWhile (· ≠ .char '\n')
      = g :: rest.takeWhile (· ≠ .char '\n') :=
    List.takeWhile_cons_of_pos (by simpa using Glyph.ne_newline_of_not_isSpace hspace)
  obtain ⟨line, hmeets⟩ := hlocated.meets_lines.1
  have hsplit : g :: rest = piece.glyphs ++ rest.drop (Content.front g rest).2 := by
    rw [hglyphs]
    simp
  have hshown := hlocated.firstLine_isPrefix hsplit
  have hne : piece.text.firstLine ≠ [] := by
    rw [Piece.text, Text.firstLine_ofGlyphs (Piece.mem_of_mem_glyphs hpiece), hglyphs,
      List.takeWhile_cons_of_pos (by simpa using Glyph.ne_newline_of_not_isSpace hspace)]
    exact List.ne_nil_of_length_pos (Text.length_ofGlyphs_pos (List.cons_ne_nil _ _))
  rw [hhead] at hmeets hshown
  exact ⟨line, g, _, hmeets, hspace, hne, hshown, rest, hcontent, hglyphs⟩

/-- A source ends on its last line, behind all that stands there. -/
theorem meets_end (source : Text) : ∃ line,
    (Position.start.after source.glyphs).Meets source.lines line []
      ∧ (Position.start.after source.glyphs).line = source.lines.length := by
  have hlocated : Located source (Position.start.after source.glyphs) [] :=
    ⟨_, (List.append_nil _).symm, rfl⟩
  obtain ⟨⟨line, hmeets⟩, hlast⟩ := hlocated.meets_lines
  exact ⟨line, hmeets, hlast rfl⟩

/-- What a line shows from the place of a token on: its text, as far as it is on that line, or
nothing, for the mark of the end. -/
structure Token.Shown (source : Text) (t : Token) (line : Text) (behind : List Glyph) : Prop where
  meets : t.place.Meets source.lines line behind
  lexeme : t.lexeme ≠ [] →
    t.lexeme.firstLine ≠ [] ∧ t.lexeme.firstLine <+: Text.ofGlyphs behind
  head : t.lexeme ≠ [] → ∃ g, behind.head? = some g ∧ g.isSpace = false
  ends : t.kind = .endOfSource → behind = [] ∧ t.place.line = source.lines.length

/-- **Every token of a source is shown where its place says.** -/
theorem shown_of_mem_tokens {source : Text} {t : Token} (ht : t ∈ (scan source).tokens) :
    ∃ line behind, t.Shown source line behind := by
  rw [tokens_eq_wordsOf] at ht
  rcases List.mem_append.mp ht with hword | hend
  · obtain ⟨piece, hpiece, htoken⟩ := List.mem_filterMap.mp hword
    obtain ⟨hcontent, hlexeme⟩ := Piece.lexeme_of_token? htoken
    have hplace : t.place = piece.place := by
      simp only [Piece.token?, hcontent, Option.some.injEq] at htoken
      rw [← htoken]
    obtain ⟨line, g, behind, hmeets, hspace, hne, hshown, -⟩ :=
      Piece.meets hpiece (by simp [hcontent])
    refine ⟨line, g :: behind, hplace ▸ hmeets, fun _ => hlexeme ▸ ⟨hne, hshown⟩,
      fun _ => ⟨g, rfl, hspace⟩, fun hk => absurd hk (of_mem_wordsOf t hword).1⟩
  · obtain rfl := List.mem_singleton.mp hend
    obtain ⟨line, hmeets, hlast⟩ := meets_end source
    exact ⟨line, [], hmeets, absurd rfl, absurd rfl, fun _ => ⟨rfl, hlast⟩⟩

end YouthLang

import YouthLang.Proofs.Annotations
import YouthLang.Proofs.Excerpts
import YouthLang.Proofs.Scanning.Places

/-!
# Proofs/Carets — diagnostics point at what they name

A diagnostic tells its place as numbers, and the source line is looked up by them later.  What is
found about a source is found at one of its tokens, at a refused piece, or where the source ends
(`Diagnostic.Found`), so the line that is looked up is the one that it was found on, and from its
column on it shows what the diagnostic names (`Found.decorate`).  In the text of a diagnostic the
caret stands under it (`StandsOn.showsCaret`).
-/

namespace YouthLang

/-! ## Trailing characters -/

namespace Text

/-- A text loses its trailing carriage returns as its characters do. -/
theorem glyphs_dropTrailing (t : Text) :
    (dropTrailing 0x0D t).glyphs = t.glyphs.rdropWhile (· = .char '\r') := by
  have hbytes : dropTrailing 0x0D t = t.rdropWhile (· = 0x0D) := rfl
  rw [hbytes]
  induction t using List.reverseRecOn with
  | nil => rfl
  | append_singleton t b ih =>
    by_cases hb : b = 0x0D
    · subst hb
      have hglyphs : Text.glyphs (t ++ [0x0D]) = Text.glyphs t ++ [.char '\r'] :=
        glyphs_append_ascii t [] (by decide)
      rw [hglyphs, List.rdropWhile_concat_pos _ _ _ (by decide),
        List.rdropWhile_concat_pos _ _ _ (by decide)]
      exact ih rfl
    · rw [List.rdropWhile_concat_neg _ _ _ (by simpa using hb)]
      refine (List.rdropWhile_eq_self_iff.mpr fun hne hlast => hb ?_).symm
      -- a last carriage return would be the last byte
      have hsplit := List.dropLast_append_getLast hne
      rw [of_decide_eq_true hlast] at hsplit
      have hwhole : ofGlyphs (Text.glyphs (t ++ [b])) = t ++ [b] := ofGlyphs_glyphs _
      rw [← hsplit, ofGlyphs_append] at hwhole
      exact (List.cons.inj (List.append_inj' hwhole rfl).2).1.symm

theorem length_glyphs_of_ascii {t : Text} (h : ∀ b ∈ t, b < 0x80) : t.glyphs.length = t.length := by
  induction t with
  | nil => rfl
  | cons b t ih =>
    obtain ⟨hb, ht⟩ := List.forall_mem_cons.mp h
    rw [glyphs_cons_ascii hb, List.length_cons, ih ht, List.length_cons]

/-- A number is written with digits. -/
theorem digit_of_mem_ofNat (n : Nat) : ∀ b ∈ ofNat n, 48 ≤ b.toNat ∧ b.toNat ≤ 57 := by
  intro b hb
  obtain ⟨c, hc, rfl⟩ := List.mem_map.mp hb
  have hdigit := Nat.isDigit_of_mem_toDigits (by decide) (by decide) hc
  simp only [Char.isDigit, Bool.and_eq_true, decide_eq_true_eq] at hdigit
  have hge : 48 ≤ c.val.toNat := UInt32.le_iff_toNat_le.mp hdigit.1
  have hle : c.val.toNat ≤ 57 := UInt32.le_iff_toNat_le.mp hdigit.2
  rw [Char.toUInt8, UInt32.toNat_toUInt8]
  omega

/-- Characters of one byte, none of which ends a line. -/
def Plain (t : Text) : Prop := ∀ b ∈ t, b < 0x80 ∧ b ≠ newline

theorem plain_of_all {t : Text} (h : t.all (fun b => b < 0x80 && b ≠ newline) = true) : t.Plain := by
  simpa [Plain] using h

theorem Plain.append {t u : Text} (ht : t.Plain) (hu : u.Plain) : Plain (t ++ u) := fun b hb =>
  (List.mem_append.mp hb).elim (ht b) (hu b)

theorem plain_ofInt (i : Int) : (ofInt i).Plain := by
  have hdigits : (ofNat i.natAbs).Plain := by
    intro b hb
    obtain ⟨hge, hle⟩ := digit_of_mem_ofNat _ b hb
    refine ⟨?_, ?_⟩
    · rw [UInt8.lt_iff_toNat_lt, show (0x80 : UInt8).toNat = 128 from rfl]
      omega
    · rintro rfl
      exact absurd hge (by decide)
  unfold ofInt
  split
  · exact (plain_of_all (by decide)).append hdigits
  · exact hdigits

end Text

/-- What is dropped at the end does not depend on what is dropped in front. -/
theorem drop_rdropWhile {α : Type} (p : α → Bool) (xs : List α) (n : Nat) :
    (xs.rdropWhile p).drop n = (xs.drop n).rdropWhile p := by
  induction xs using List.reverseRecOn with
  | nil => simp
  | append_singleton xs x ih =>
    by_cases hx : p x
    · rw [List.rdropWhile_concat_pos _ _ _ hx, ih]
      by_cases hn : n ≤ xs.length
      · rw [List.drop_append_of_le_length hn, List.rdropWhile_concat_pos _ _ _ hx]
      · rw [List.drop_eq_nil_of_le (by omega), List.drop_eq_nil_of_le (by simp; omega)]
    · rw [List.rdropWhile_concat_neg _ _ _ hx]
      by_cases hn : n ≤ xs.length
      · rw [List.drop_append_of_le_length hn, List.rdropWhile_concat_neg _ _ _ hx]
      · rw [List.drop_eq_nil_of_le (by simp; omega), List.rdropWhile_nil]

/-! ## What diagnostics name -/

namespace Diagnostic

variable (d : Diagnostic)

/-- A piece of the source that was refused, and no string that never ends. -/
def RefusesText : Prop := ∃ cause, d.cause = .lexical cause ∧ cause ≠ .unterminatedString

/-- What a diagnostic names stands at the front of some characters: the text of its token as far as
it is on one line, the refused numeral, the refused character or the stray byte.  A diagnostic that
wants more of the source names its end, behind its last line. -/
structure Names (source : Text) (behind : List Glyph) : Prop where
  lexeme : d.lexeme ≠ [] →
    d.lexeme.firstLine ≠ [] ∧ d.lexeme.firstLine <+: Text.ofGlyphs behind
  numeral : ∀ numeral, d.cause = .lexical (.unrepresentable numeral) →
    numeral ≠ [] ∧ numeral <+: Text.ofGlyphs behind
  unexpected : ∀ c, d.cause = .lexical (.unexpected c) → behind.head? = some (.char c)
  stray : d.cause = .lexical .malformedEncoding → ∃ b, behind.head? = some (.stray b)
  wantsMore : d.wantsMore = true → behind = [] ∧ d.line = source.lines.length
  head : d.lexeme ≠ [] ∨ d.RefusesText → ∃ g, behind.head? = some g ∧ g.isSpace = false

/-- A diagnostic stands on a line of a source, with some characters of the line behind its place,
and its excerpt is the line without the carriage returns at its end. -/
structure StandsOn (source line : Text) (behind : List Glyph) : Prop where
  line_pos : 1 ≤ d.line
  line_eq : source.lines[d.line.toNat - 1]? = some line
  column_pos : 1 ≤ d.column
  column_le : d.column.toNat - 1 ≤ line.glyphs.length
  behind_eq : line.glyphs.drop (d.column.toNat - 1) = behind
  excerpt : d.excerpt = Text.dropTrailing 0x0D line

/-- The number of characters in front of the caret. -/
def caret : Nat := d.margin.length + d.column.toNat - 1

/-- Some characters, without the carriage returns at their end, stand above the caret and to the
right of it in the text of a diagnostic: under the header the text has the source line, in one line with
the margin, and then the caret, if there is anything to show.  If the diagnostic names a text, there is,
and the first of the characters is above the caret. -/
structure ShowsCaret (behind : List Glyph) : Prop where
  text : d.text = Text.join [Text.newline] (d.header ::
    ((if d.excerpt = [] then [] else [d.margin ++ d.excerpt, Text.spaces d.caret ++ "^"])
      ++ d.calls.map callLine))
  oneLine : Text.newline ∉ d.margin ++ d.excerpt
  above : (d.margin ++ d.excerpt).glyphs.drop d.caret = behind.rdropWhile (· = .char '\r')
  head : d.lexeme ≠ [] ∨ d.RefusesText → d.excerpt ≠ []
    ∧ ∃ g, behind.head? = some g ∧ (d.margin ++ d.excerpt).glyphs[d.caret]? = some g

/-- A diagnostic as it is found, without its line: a place in a source, and what it names there. -/
structure Found (source : Text) (line : Text) (behind : List Glyph) : Prop
    extends d.Names source behind where
  place : ∃ p : Position, d.line = p.line ∧ d.column = p.column ∧ p.Meets source.lines line behind
  bare : d.excerpt = []

variable {d} {file source line : Text} {behind : List Glyph}

/-- A line that is there is looked up, and nothing else changes than the files. -/
theorem decorate_eq (hbare : d.excerpt = []) (hpos : 1 ≤ d.line)
    (hline : source.lines[d.line.toNat - 1]? = some line) : ∃ name calls, d.decorate file source
      = { d with file := name, calls := calls, excerpt := Text.dropTrailing 0x0D line } := by
  have hlt : 0 < d.line := by omega
  unfold decorate placed
  split
  · refine ⟨d.file, d.calls, ?_⟩
    simp [attach, hbare, hlt, hline, withExcerpt]
  · refine ⟨file, (d.inFile file).calls, ?_⟩
    simp [attach, inFile, hbare, hlt, hline, withExcerpt]

theorem plain_margin (d : Diagnostic) : d.margin.Plain :=
  ((Text.plain_of_all (by decide)).append (Text.plain_ofInt _)).append (Text.plain_of_all (by decide))

/-- The margin and the source line make one line of the text. -/
theorem StandsOn.oneLine (h : d.StandsOn source line behind) :
    Text.newline ∉ d.margin ++ d.excerpt := by
  rw [List.mem_append, not_or]
  refine ⟨fun hmem => (d.plain_margin _ hmem).2 rfl, fun hmem => ?_⟩
  have hkept : Text.dropTrailing 0x0D line <+: line := List.rdropWhile_prefix _ _
  rw [h.excerpt] at hmem
  exact Text.not_mem_of_mem_splitOn (List.mem_of_getElem? h.line_eq) (hkept.subset hmem)

/-- **The caret stands under the place of the diagnostic.** -/
theorem StandsOn.showsCaret (h : d.StandsOn source line behind) (hnames : d.Names source behind) :
    d.ShowsCaret behind := by
  have hcolumn : 0 < d.column := h.column_pos
  have hascii : ∀ b ∈ d.margin, b < 0x80 := fun b hb => (d.plain_margin b hb).1
  have hcaret : d.caret = d.margin.glyphs.length + (d.column.toNat - 1) := by
    rw [caret, Text.length_glyphs_of_ascii hascii]
    omega
  have habove : (d.margin ++ d.excerpt).glyphs.drop d.caret
      = behind.rdropWhile (· = .char '\r') := by
    rw [Text.glyphs_append_of_ascii hascii, hcaret, List.drop_length_add_append, h.excerpt,
      Text.glyphs_dropTrailing, drop_rdropWhile, h.behind_eq]
  have hlines : d.excerptLines
      = if d.excerpt = [] then [] else [d.margin ++ d.excerpt, Text.spaces d.caret ++ "^"] := by
    simp [excerptLines, hcolumn, caret]
  refine ⟨by rw [text, hlines, List.cons_append], h.oneLine, habove, fun hnamed => ?_⟩
  obtain ⟨g, hhead, hspace⟩ := hnames.head hnamed
  obtain ⟨rest, rfl⟩ := List.head?_eq_some_iff.mp hhead
  -- the first character is no carriage return, so it is not dropped
  have hfirst : ((g :: rest).rdropWhile (· = .char '\r')).head? = some g := by
    obtain ⟨dropped, hdropped⟩ := List.rdropWhile_prefix (· = Glyph.char '\r') (l := g :: rest)
    cases hkept : (g :: rest).rdropWhile (· = .char '\r') with
    | nil =>
      have hall := List.rdropWhile_eq_nil_iff.mp hkept g List.mem_cons_self
      rw [of_decide_eq_true hall] at hspace
      exact absurd hspace (by decide)
    | cons g' kept =>
      rw [hkept] at hdropped
      exact congrArg some (List.cons.inj hdropped).1
  have hat : (d.margin ++ d.excerpt).glyphs[d.caret]? = some g := by
    rw [← List.head?_drop, habove, hfirst]
  refine ⟨fun hempty => ?_, g, rfl, hat⟩
  rw [hempty, List.append_nil, hcaret] at hat
  have := (List.getElem?_eq_some_iff.mp hat).1
  omega

/-- **What is found is told where it was found**, on the line that is looked up. -/
theorem Found.decorate (h : d.Found source line behind) :
    (d.decorate file source).StandsOn source line behind
      ∧ (d.decorate file source).Names source behind := by
  obtain ⟨hnames, ⟨p, hline, hcolumn, hmeets⟩, hbare⟩ := h
  have hpos := hmeets.line_pos
  have hposc := hmeets.column_pos
  have hline_eq : source.lines[d.line.toNat - 1]? = some line := by
    rw [hline, Int.toNat_natCast]
    exact hmeets.line_eq
  obtain ⟨name, calls, heq⟩ := @decorate_eq d file source line hbare (by omega) hline_eq
  rw [heq]
  refine ⟨⟨by simp only; omega, hline_eq, by simp only; omega, ?_, ?_, rfl⟩,
    ⟨hnames.lexeme, hnames.numeral, hnames.unexpected, hnames.stray, hnames.wantsMore, hnames.head⟩⟩
  · rw [hcolumn, Int.toNat_natCast]
    exact hmeets.column_le
  · rw [hcolumn, Int.toNat_natCast]
    exact hmeets.behind

end Diagnostic

/-! ## What is found -/

/-- What stands at the front of some characters that are refused. -/
inductive Content.Refused (g : Glyph) (rest : List Glyph) : LexicalCause → Prop
  | string (hall : (Content.front g rest).2 = rest.length) : Refused g rest .unterminatedString
  | numeral (hdigit : g.isDigit = true) (hfront : Content.front g rest = Content.numeral g rest) :
    Refused g rest (.unrepresentable (Text.ofGlyphs (g :: rest.take (Content.front g rest).2)))
  | character {c : Char} (hg : g = .char c) : Refused g rest (.unexpected c)
  | byte {b : UInt8} (hg : g = .stray b) : Refused g rest .malformedEncoding

theorem Content.refused_of_front {g : Glyph} {rest : List Glyph} {cause : LexicalCause}
    (h : (Content.front g rest).1 = .refused cause) : Content.Refused g rest cause := by
  -- The cases are those of `Content.front`, in its order; only four of them refuse.
  by_cases hspace : g.isSpace
  · simp [Content.front, hspace] at h
  by_cases hdigit : g.isDigit
  · have hfront : Content.front g rest = Content.numeral g rest := by
      simp [Content.front, hspace, hdigit]
    have hcause : cause = .unrepresentable
        (Text.ofGlyphs (g :: rest.take (Content.front g rest).2)) := by
      rw [hfront] at h ⊢
      unfold Content.numeral at h ⊢
      simp only at h ⊢
      split at h
      · simp at h
      · exact (Content.refused.inj h).symm
    rw [hcause]
    exact .numeral hdigit hfront
  unfold Content.front at h
  rw [if_neg hspace, if_neg hdigit] at h
  split at h
  · unfold Content.word at h
    simp only at h
    split at h <;> simp at h
  next hletter =>
  split at h
  · next hquote =>
    have hfront : Content.front g rest = Content.string rest := by
      rw [Content.front.eq_def, if_neg hspace, if_neg hdigit, if_neg hletter, if_pos hquote]
    unfold Content.string at h
    simp only at h
    split at h
    · next hall =>
      obtain rfl := (Content.refused.inj h).symm
      exact .string (by rw [hfront, Content.string, if_pos hall])
    · simp at h
  next hquote =>
  split at h
  · simp at h
  · split at h <;> simp at h
  · split at h
    · obtain rfl := (Content.refused.inj h).symm
      exact .character rfl
    · obtain rfl := (Content.refused.inj h).symm
      exact .byte rfl

/-- A refused piece is found where it stands, and a string that never ends where the source ends. -/
theorem found_of_mem_scanned {source : Text} {d : Diagnostic} (hd : d ∈ (scan source).diagnostics) :
    ∃ line behind, d.Found source line behind := by
  obtain ⟨piece, hpiece, hdiagnostic⟩ := List.mem_filterMap.mp hd
  unfold Piece.diagnostic? at hdiagnostic
  split at hdiagnostic
  · next cause hcontent =>
    obtain rfl := Option.some.inj hdiagnostic
    obtain ⟨g, rest, ⟨before, hsource, hplace⟩, hfront, hglyphs⟩ :=
      Piece.located hpiece (by simp [hcontent])
    obtain ⟨line, g', behind, hmeets, hspace, hne, hshown, rest', -, hglyphs'⟩ :=
      Piece.meets hpiece (by simp [hcontent])
    obtain ⟨rfl, -⟩ := List.cons.inj (hglyphs.symm.trans hglyphs')
    -- Each cause says where its caret stands: at the end of the source, or at the piece's first
    -- character.
    cases Content.refused_of_front (hfront.symm.trans hcontent) with
    | string hall =>
      obtain ⟨last, hend, hlast⟩ := meets_end source
      have hspot : piece.place.after piece.glyphs = Position.start.after source.glyphs := by
        rw [hplace, hglyphs, hall, List.take_length, ← Position.after_append, hsource]
      refine ⟨last, [], ⟨absurd rfl, by simp, by simp, by simp, fun _ => ⟨rfl, ?_⟩, ?_⟩,
        ⟨_, rfl, rfl, ?_⟩, rfl⟩
      · simp only [if_true, hspot, hlast]
      · rintro (hlexeme | ⟨cause, hcause, hne⟩)
        · exact absurd rfl hlexeme
        · exact absurd (Cause.lexical.inj hcause).symm hne
      · rw [if_pos rfl, hspot]
        exact hend
    | numeral hdigit hnumeral =>
      rw [← hglyphs] at hcontent ⊢
      -- A numeral stands on one line, so all of it is shown.
      have hwhole : piece.text.firstLine = piece.text := by
        have hnewline : .char '\n' ∉ piece.glyphs := by
          rw [hglyphs, hnumeral]
          intro hmem
          rcases List.mem_cons.mp hmem with rfl | hmem
          · exact absurd hdigit (by decide)
          · exact absurd (Content.mem_numeral hmem) (by decide)
        rw [Piece.text, Text.firstLine_ofGlyphs (Piece.mem_of_mem_glyphs hpiece),
          takeWhile_of_newline_not_mem hnewline]
      refine ⟨line, g :: behind, ⟨absurd rfl, fun numeral heq => ?_, by simp, by simp,
        by simp [Diagnostic.wantsMore], fun _ => ⟨g, rfl, hspace⟩⟩,
        ⟨piece.place, rfl, rfl, hmeets⟩, rfl⟩
      obtain rfl := LexicalCause.unrepresentable.inj (Cause.lexical.inj heq)
      rw [hwhole] at hne hshown
      exact ⟨hne, hshown⟩
    | character hg =>
      refine ⟨line, g :: behind, ⟨absurd rfl, by simp, fun c heq => ?_, by simp,
        by simp [Diagnostic.wantsMore],
        fun _ => ⟨g, rfl, hspace⟩⟩, ⟨piece.place, rfl, rfl, hmeets⟩, rfl⟩
      obtain rfl := LexicalCause.unexpected.inj (Cause.lexical.inj heq)
      rw [hg, List.head?_cons]
    | byte hg =>
      exact ⟨line, g :: behind, ⟨absurd rfl, by simp, by simp, fun _ => ⟨_, by rw [hg]; rfl⟩,
        by simp [Diagnostic.wantsMore], fun _ => ⟨g, rfl, hspace⟩⟩,
        ⟨piece.place, rfl, rfl, hmeets⟩, rfl⟩
  · simp at hdiagnostic

/-- What is at a token is found where the token is shown. -/
theorem found_of_isAt {source : Text} {d : Diagnostic} {t : Token}
    (ht : t ∈ (scan source).tokens) (hd : d.IsAt t) :
    ∃ line behind, d.Found source line behind := by
  obtain ⟨line, behind, hmeets, hlexeme, hhead, hends⟩ := shown_of_mem_tokens ht
  refine ⟨line, behind, ⟨fun hne => hd.lexeme ▸ hlexeme (hd.lexeme ▸ hne),
    fun _ h => absurd h (hd.cause _), fun _ h => absurd h (hd.cause _),
    fun h => absurd h (hd.cause _), fun hmore => ?_, ?_⟩, ⟨t.place, hd.line, hd.column, hmeets⟩, hd.bare⟩
  · have hend : d.atEnd = true := by
      rcases Bool.or_eq_true_iff.mp hmore with h | h
      · exact h
      · exact absurd (of_decide_eq_true h) (hd.cause _)
    obtain ⟨hbehind, hlast⟩ := hends (hd.atEnd hend)
    exact ⟨hbehind, by rw [hd.line, hlast]⟩
  · rintro (hne | ⟨cause, hcause, -⟩)
    · exact hhead (hd.lexeme ▸ hne)
    · exact absurd hcause (hd.cause cause)

/-- A diagnostic stands on a line of a source, what it names is there, and the caret shows it. -/
def Diagnostic.PointsInto (source : Text) (d : Diagnostic) : Prop :=
  ∃ line behind, d.StandsOn source line behind ∧ d.Names source behind ∧ d.ShowsCaret behind

theorem pointsInto_of_found {source : Text} {d : Diagnostic} (file : Text)
    (h : ∃ line behind, d.Found source line behind) :
    (d.decorate file source).PointsInto source := by
  obtain ⟨line, behind, hfound⟩ := h
  obtain ⟨hstands, hnames⟩ := hfound.decorate
  exact ⟨line, behind, hstands, hnames, hstands.showsCaret hnames⟩

/-- The tokens of a source are those that its tree is written with. -/
theorem written_analyse (node : Nat) (file source : Text) :
    BodyWritten (· ∈ (scan source).tokens) (analyse node file source).statements :=
  (parse_written node fun _ ht => ht).1

theorem pointsInto_of_mem_analyse {node : Nat} {file source : Text} {d : Diagnostic}
    (hd : d ∈ (analyse node file source).diagnostics) : d.PointsInto source := by
  simp only [analyse, programOf_eq] at hd
  rcases List.mem_append.mp hd with hd | hd
  · obtain ⟨found, hfound, rfl⟩ := List.mem_map.mp hd
    refine pointsInto_of_found file ?_
    rcases List.mem_append.mp hfound with hscanned | hparsed
    · exact found_of_mem_scanned hscanned
    · obtain ⟨t, ht, hat⟩ := (parse_written node fun _ ht => ht).2 found hparsed
      exact found_of_isAt ht hat
  · obtain ⟨found, hfound, rfl⟩ := List.mem_map.mp hd
    obtain ⟨t, ht, hat⟩ := isAt_of_mem_resolved (written_analyse node file source) found hfound
    exact pointsInto_of_found file (found_of_isAt ht hat)

/-- **Diagnostics point at what they name.**  Every mistake that is found in a source, and every
mistake that its run in a fresh session reports, stands on a line of the source and shows it; from its
column on the line shows what the mistake names, and the caret stands under that. -/
theorem Session.mistakes_pointInto (file source : Text) :
    (∀ d ∈ check file source, d.PointsInto source)
      ∧ ∀ node clock fuel, ∀ d ∈ ((fresh file node clock).run fuel source).2.mistakes,
        d.PointsInto source := by
  refine ⟨fun d hd => pointsInto_of_mem_analyse hd, fun node clock fuel d hd => ?_⟩
  by_cases hclean : (analyse node file source).diagnostics = []
  · have hfailed : ((fresh file node clock).run fuel source).2.outcome = .failed d := by
      by_cases hended : ((fresh file node clock).run fuel source).2.outcome = .unfinished
      · simp [Run.mistakes, hended] at hd
      · obtain hfinished | ⟨e, he⟩ :=
          finished_or_failed (s := fresh file node clock) hclean hended
        · simp [Run.mistakes, hfinished] at hd
        · simp only [Run.mistakes, he, List.mem_singleton] at hd
          rw [he, hd]
    obtain ⟨-, e, hfailure, rfl⟩ :=
      (outcome_eq_failed_iff (s := fresh file node clock) hclean).mp hfailed
    obtain ⟨t, ht, hat⟩ := isAt_of_failing hclean (written_analyse node file source) fuel hfailure
    exact pointsInto_of_found file (found_of_isAt ht hat)
  · have hrejected : ((fresh file node clock).run fuel source).2.outcome
        = .rejected (analyse node file source).diagnostics := by simp [run, fresh, hclean]
    simp only [Run.mistakes, hrejected] at hd
    exact pointsInto_of_mem_analyse hd

/-- A string over two lines is named where it starts, and an operator where it stands, behind a
character of two bytes. -/
theorem Session.mistakes_pointInto_operator :
    (⟨.grammatical (.missing (.name .variable)), 1, 4, "\"a\nb\"", false, [], "is \"a", []⟩
        : Diagnostic).PointsInto "is \"a\nb\";"
      ∧ ∃ d ∈ ((fresh [] 0 ⟨0, []⟩).run 20 "tell 1;\r\ntell \"é\" - 2;\r\n").2.mistakes,
        d.PointsInto "tell 1;\r\ntell \"é\" - 2;\r\n"
          ∧ d.text = "[line 2] RuntimeError at '-': Operands must be numbers.\n"
            ++ "  2 | tell \"é\" - 2;\n" ++ "               ^" := by
  have hmem : (⟨.runtime .operandsNotNumbers, 2, 10, "-", false, [], "tell \"é\" - 2;", []⟩
      : Diagnostic) ∈ ((fresh [] 0 ⟨0, []⟩).run 20 "tell 1;\r\ntell \"é\" - 2;\r\n").2.mistakes := by
    decide +kernel
  exact ⟨(mistakes_pointInto [] _).1 _ (by decide +kernel), _, hmem,
    (mistakes_pointInto [] _).2 0 ⟨0, []⟩ 20 _ hmem, by decide +kernel⟩

end YouthLang

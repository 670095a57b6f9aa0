import YouthLang.Proofs.Scanning.Layout
import YouthLang.Analysis

/-!
# Proofs/Scanning/Bytes — the scanner comes to the end and finds the pieces

A scanner between two tokens knows its line and where that line starts (`Scanner.Stands`); at work on a
token it still knows those of the token's first byte (`Scanner.Within`), since only a string may hold a
newline, and its place is told beforehand.  Every way to read on keeps to this, so a column is counted
from the last newline (`Scanner.column_eq`).

Bytes are tested one by one and pieces by their characters.  Both find the same runs, as the bytes of a
character all answer a test as it does (`Glyph.Told`); so a step of the scanner finds the piece in front of
it (`Scanner.Stands.scanNext_finds`).  By induction over the pieces the scanner comes to the end of the
source with their tokens and mistakes (`Scanner.scanTokens_eq_scan`), and the source is laid out as these
say (`Scanner.scanTokens_laid`).
-/

namespace YouthLang

variable {file source before taken ahead : Text} {tokens : List Token} {errors : List Diagnostic}

/-! ## Bytes and characters -/

namespace Glyph

variable {p : UInt8 → Bool} {q : Glyph → Bool} {t : Text}

/-- A test on bytes and one on characters tell the same: the bytes of a character all answer as it
does. -/
structure Told (p : UInt8 → Bool) (q : Glyph → Bool) : Prop where
  answer : ∀ {t : Text} {g : Glyph} {b : UInt8}, g ∈ t.glyphs → b ∈ g.encode → p b = q g

/-- Tests that answer alike below `0x80`, and everywhere else the same. -/
theorem told_of_ascii (other : Bool)
    (hascii : ∀ b : UInt8, b < 0x80 → p b = q (.char (Char.ofNat b.toNat)))
    (hbyte : ∀ b : UInt8, ¬b < 0x80 → p b = other)
    (hglyph : ∀ g, q g ≠ other → ∃ b : UInt8, b < 0x80 ∧ g = .char (Char.ofNat b.toNat)) :
    Told p q := by
  refine ⟨fun {t g b} hg hb => ?_⟩
  by_cases hlt : b < 0x80
  · obtain rfl := Text.eq_of_mem_encode hlt hb hg
    exact hascii b hlt
  · rw [hbyte b hlt]
    by_contra hne
    obtain ⟨b', hlt', rfl⟩ := hglyph g (Ne.symm hne)
    rw [encode_one hlt', List.mem_singleton] at hb
    exact hlt (hb ▸ hlt')

/-- A character below `0x80` is its byte. -/
theorem exists_byte {c : Char} (h : c.toNat < 0x80) :
    ∃ b : UInt8, b < 0x80 ∧ Glyph.char c = .char (Char.ofNat b.toNat) := by
  have hbyte : (UInt8.ofNat c.toNat).toNat = c.toNat := by
    rw [UInt8.toNat_ofNat']
    exact Nat.mod_eq_of_lt (by omega)
  refine ⟨UInt8.ofNat c.toNat, ?_, ?_⟩
  · rw [UInt8.lt_iff_toNat_lt, hbyte]
    exact h
  · rw [hbyte, Char.ofNat_toNat]

theorem toNat_lt_of_le {c d : Char} (h : c ≤ d) (hd : d.toNat < 0x80) : c.toNat < 0x80 :=
  Nat.lt_of_le_of_lt (UInt32.le_iff_toNat_le.mp h) hd

/-- Digits are told by their bytes. -/
theorem told_isDecimal : Told Text.isDecimal isDigit := by
  refine told_of_ascii false (forall_byte (by decide +kernel)) (forall_byte (by decide +kernel)) ?_
  intro g hg
  cases g with
  | stray b => simp [isDigit] at hg
  | char c =>
    simp only [isDigit, Bool.and_eq_true, decide_eq_true_eq, ne_eq, Bool.not_eq_false] at hg
    exact exists_byte (toNat_lt_of_le hg.2 (by decide))

/-- So are the characters of words. -/
theorem told_isWord : Told Scanner.isWord isWord := by
  refine told_of_ascii false (forall_byte (by decide +kernel)) (forall_byte (by decide +kernel)) ?_
  intro g hg
  cases g with
  | stray b => simp [isWord, isLetter, isDigit] at hg
  | char c =>
    simp only [isWord, isLetter, isDigit, Bool.or_eq_true, Bool.and_eq_true, decide_eq_true_eq, ne_eq,
      Bool.not_eq_false] at hg
    obtain ((⟨-, hle⟩ | ⟨-, hle⟩) | rfl) | ⟨-, hle⟩ := hg
    · exact exists_byte (toNat_lt_of_le hle (by decide))
    · exact exists_byte (toNat_lt_of_le hle (by decide))
    · exact exists_byte (by decide)
    · exact exists_byte (toNat_lt_of_le hle (by decide))

/-- Being another character than one below `0x80`. -/
theorem told_ne {b : UInt8} (hb : b < 0x80) :
    Told (· ≠ b) (· ≠ .char (Char.ofNat b.toNat)) := by
  refine ⟨fun {t g b'} hg hb' => ?_⟩
  by_cases hsame : g = .char (Char.ofNat b.toNat)
  · rw [hsame, encode_one hb, List.mem_singleton] at hb'
    simp [hsame, hb']
  · have hne : b' ≠ b := by
      rintro rfl
      exact hsame (Text.eq_of_mem_encode hb hb' hg)
    simp [hsame, hne]

namespace Told

/-- The run of characters at the front that pass, by its bytes. -/
theorem takeWhile_ofGlyphs (h : Told p q) {gs : List Glyph} (hgs : ∀ g ∈ gs, g ∈ t.glyphs) :
    (Text.ofGlyphs gs).takeWhile p = Text.ofGlyphs (gs.takeWhile q) := by
  induction gs with
  | nil => rfl
  | cons g gs ih =>
    obtain ⟨hg, hgs⟩ := List.forall_mem_cons.mp hgs
    have hbytes : ∀ b ∈ g.encode, p b = q g := fun b hb => h.answer hg hb
    rw [Text.ofGlyphs_cons]
    cases hq : q g with
    | true =>
      rw [List.takeWhile_append_of_pos fun b hb => (hbytes b hb).trans hq, ih hgs,
        List.takeWhile_cons_of_pos hq, Text.ofGlyphs_cons]
    | false =>
      obtain ⟨b, bs, hencode⟩ := List.exists_cons_of_ne_nil g.encode_ne_nil
      have hb : ¬p b = true := by
        rw [hbytes b (by simp [hencode]), hq]
        exact Bool.false_ne_true
      rw [hencode, List.cons_append, List.takeWhile_cons_of_neg hb,
        List.takeWhile_cons_of_neg (by simp [hq]), Text.ofGlyphs_nil]

/-- The run of bytes at the front that pass is the run of characters that do. -/
theorem takeWhile (h : Told p q) (t : Text) :
    Text.ofGlyphs (t.glyphs.takeWhile q) = t.takeWhile p := by
  rw [← h.takeWhile_ofGlyphs (t := t) fun g hg => hg, Text.ofGlyphs_glyphs]

/-- What follows the run is read as it was. -/
theorem dropWhile (h : Told p q) (t : Text) :
    Text.glyphs (t.dropWhile p) = t.glyphs.dropWhile q := by
  have hglyphs := List.takeWhile_append_dropWhile (p := q) (l := t.glyphs)
  have hbytes : Text.ofGlyphs (t.glyphs.dropWhile q) = t.dropWhile p := by
    apply (List.append_right_inj (t.takeWhile p)).mp
    rw [List.takeWhile_append_dropWhile, ← h.takeWhile, ← Text.ofGlyphs_append, hglyphs,
      Text.ofGlyphs_glyphs]
  rw [← hbytes]
  exact Text.glyphs_suffix hglyphs.symm

/-- A run of characters taken by its length is the run of bytes. -/
theorem take (h : Told p q) (t : Text) :
    Text.ofGlyphs (t.glyphs.take (t.glyphs.takeWhile q).length) = t.takeWhile p := by
  rw [← List.prefix_iff_eq_take.mp (List.takeWhile_prefix q), h.takeWhile]

/-- What follows a run, by its length. -/
theorem drop (h : Told p q) (t : Text) :
    t.glyphs.drop (t.glyphs.takeWhile q).length = Text.glyphs (t.dropWhile p) := by
  rw [drop_length_takeWhile, h.dropWhile]

end Told

end Glyph

namespace Scanner

variable {s : Scanner}

/-! ## Where a scanner is -/

/-- A scanner has read some bytes of a source in a file, has the others ahead of it, knows the line it is
on, and has found some tokens and mistakes. -/
structure Stands (s : Scanner) (file before ahead : Text) (tokens : List Token)
    (errors : List Diagnostic) : Prop where
  source : s.source.toList = before ++ ahead
  file : s.file = file
  current : s.current = before.length
  line : s.line = before.count Text.newline + 1
  lineStart : s.lineStart + (before.rtakeWhile (· ≠ Text.newline)).length = before.length
  tokens : s.tokens.toList = tokens
  errors : s.errors.toList = errors

/-- A scanner is at work on a token: it has taken some bytes on the line that it knows. -/
structure Within (s : Scanner) (file before taken ahead : Text) (tokens : List Token)
    (errors : List Diagnostic) : Prop where
  source : s.source.toList = before ++ (taken ++ ahead)
  file : s.file = file
  start : s.start = before.length
  current : s.current = before.length + taken.length
  line : s.line = before.count Text.newline + 1
  lineStart : s.lineStart + (before.rtakeWhile (· ≠ Text.newline)).length = before.length
  tokens : s.tokens.toList = tokens
  errors : s.errors.toList = errors

/-- The byte behind some others. -/
theorem getElem?_source {b : UInt8} {n : Nat} (h : s.source.toList = before ++ b :: ahead)
    (hn : n = before.length) : s.source[n]? = some b := by
  rw [← Array.getElem?_toList, h, hn, List.getElem?_append_right (Nat.le_refl _), Nat.sub_self]
  rfl

/-- There is none behind the last one. -/
theorem getElem?_source_end {n : Nat} (h : s.source.toList = before) (hn : n = before.length) :
    s.source[n]? = none := by
  rw [← Array.getElem?_toList, h, hn]
  exact List.getElem?_eq_none (Nat.le_refl _)

/-- The bytes between two places are cut out of a source without leaving it. -/
theorem slice_eq {before taken ahead : Text} {first last : Nat}
    (h : s.source.toList = before ++ (taken ++ ahead))
    (hfirst : first = before.length) (hlast : last = before.length + taken.length) :
    s.slice first last = some taken := by
  have hsize : s.source.size = before.length + (taken.length + ahead.length) := by
    rw [← Array.length_toList, h, List.length_append, List.length_append]
  have hbounds : (first ≤ last && last ≤ s.source.size : Bool) = true := by
    rw [hsize, hfirst, hlast]
    simp
  rw [slice, if_pos hbounds, Array.toList_extract, h, List.extract_eq_take_drop, hfirst, hlast,
    List.drop_left' rfl, Nat.add_sub_cancel_left, List.take_left' rfl]

/-- The column is counted from the last newline. -/
theorem column_eq (h : s.source.toList = before ++ ahead)
    (hline : s.lineStart + (before.rtakeWhile (· ≠ Text.newline)).length = before.length)
    {offset : Nat} (hoffset : offset = before.length) :
    s.column offset = some before.endPlace.column := by
  have hsplit : before = before.rdropWhile (· ≠ Text.newline)
      ++ before.rtakeWhile (· ≠ Text.newline) := (List.rdropWhile_append_rtakeWhile).symm
  have hlength := congrArg List.length hsplit
  rw [List.length_append] at hlength
  have hsource : s.source.toList = before.rdropWhile (· ≠ Text.newline)
      ++ (before.rtakeWhile (· ≠ Text.newline) ++ ahead) := by
    rw [h, ← List.append_assoc, ← hsplit]
  have hslice : s.slice s.lineStart offset = some (before.rtakeWhile (· ≠ Text.newline)) :=
    slice_eq hsource (by omega) (by omega)
  rw [column, if_neg (by omega), hslice]
  rfl

/-- A mistake at a byte of the line is noted down at its place. -/
theorem error_eq (h : s.source.toList = before ++ ahead) (hfile : s.file = file)
    (hline : s.line = before.count Text.newline + 1)
    (hlineStart : s.lineStart + (before.rtakeWhile (· ≠ Text.newline)).length = before.length)
    {offset : Nat} (hoffset : offset = before.length) (cause : LexicalCause) :
    s.error cause offset = some { s with
      errors := s.errors.push ((Diagnostic.lexical cause before.endPlace).placed file) } := by
  rw [error, column_eq h hlineStart hoffset]
  simp only [hfile, hline]
  rfl

/-- A scanner has some bytes behind it and others ahead. -/
structure At (s : Scanner) (before ahead : Text) : Prop where
  source : s.source.toList = before ++ ahead
  current : s.current = before.length

theorem Stands.at (h : s.Stands file before ahead tokens errors) : s.At before ahead :=
  ⟨h.source, h.current⟩

theorem Within.at (h : s.Within file before taken ahead tokens errors) :
    s.At (before ++ taken) ahead :=
  ⟨by rw [h.source, List.append_assoc], by rw [h.current, List.length_append]⟩

namespace At

variable {b : UInt8}

theorem isAtEnd (h : s.At before ahead) : s.isAtEnd = ahead.isEmpty := by
  rw [Scanner.isAtEnd, ← Array.length_toList, h.source, h.current]
  cases ahead <;> simp

/-- What is still to be read is what lies ahead. -/
theorem left (h : s.At before ahead) : s.left = ahead.length := by
  rw [Scanner.left, ← Array.length_toList, h.source, h.current, List.length_append,
    Nat.add_sub_cancel_left]

/-- A scanner that comes to a later place has read something. -/
theorem left_lt {s' : Scanner} {before' ahead' : Text} (h : s.At before ahead)
    (h' : s'.At before' ahead') (hshorter : ahead'.length < ahead.length) : s'.left < s.left := by
  rw [h.left, h'.left]
  exact hshorter

theorem peek (h : s.At before ahead) : s.peek = ahead.headD 0 := by
  rw [Scanner.peek, Array.getD_eq_getD_getElem?]
  cases ahead with
  | nil => rw [getElem?_source_end (h.source.trans (List.append_nil _)) h.current]; rfl
  | cons b ahead => rw [getElem?_source h.source h.current]; rfl

theorem advance (h : s.At before (b :: ahead)) :
    s.advance = some (b, { s with current := s.current + 1 }) := by
  rw [Scanner.advance, getElem?_source h.source h.current]
  rfl

theorem skip (h : s.At before (b :: ahead)) : s.skip = some { s with current := s.current + 1 } := by
  rw [Scanner.skip, h.advance]
  rfl

/-- One byte further. -/
theorem next (h : s.At before (b :: ahead)) :
    At { s with current := s.current + 1 } (before ++ [b]) ahead where
  source := by rw [h.source, List.append_assoc]; rfl
  current := by rw [List.length_append, h.current]; rfl

theorem peekNext (h : s.At before ahead) : s.peekNext = ahead.tail.headD 0 := by
  cases ahead with
  | nil =>
    have hnone : s.source[s.current + 1]? = none := by
      rw [← Array.getElem?_toList, h.source, h.current]
      exact List.getElem?_eq_none (by simp)
    rw [Scanner.peekNext, Array.getD_eq_getD_getElem?, hnone]
    rfl
  | cons b ahead => exact h.next.peek

end At

/-! ## What a scanner does -/

/-- Reading on while the next byte passes. -/
theorem loop_succ {test : Scanner → Bool} {step : Scanner → Option Scanner} {s' : Scanner}
    (htest : test s = true) (hstep : step s = some s') (hleft : s'.left < s.left) :
    s.loop test step = s'.loop test step := by
  rw [loop, if_pos htest, hstep]
  exact if_pos hleft

/-- The last look. -/
theorem loop_done {test : Scanner → Bool} {step : Scanner → Option Scanner}
    (htest : test s = false) : s.loop test step = some s := by
  rw [loop, if_neg (by simp [htest])]

/-- A test on a scanner asks whether there is a next byte and whether it passes. -/
def Asks (test : Scanner → Bool) (p : UInt8 → Bool) : Prop :=
  ∀ {s : Scanner} {before ahead : Text}, s.At before ahead → test s = ahead.head?.any p

/-- A test that a NUL does not pass stops at the end. -/
theorem asks_peek {p : UInt8 → Bool} (hp : p 0 = false) : Asks (fun s => p s.peek) p := by
  intro s before ahead h
  simp only [h.peek]
  cases ahead with
  | nil => exact hp
  | cons b ahead => rfl

/-- A test for another byte than one asks for the end as well. -/
theorem asks_peek_ne (b : UInt8) : Asks (fun s => s.peek ≠ b && !s.isAtEnd) (· ≠ b) := by
  intro s before ahead h
  simp only [h.peek, h.isAtEnd]
  cases ahead <;> simp

namespace Within

variable {b : UInt8} {kind : TokenKind} {cause : LexicalCause}

theorem next (h : s.Within file before taken (b :: ahead) tokens errors) :
    Within { s with current := s.current + 1 } file before (taken ++ [b]) ahead tokens errors :=
  { h with
    source := by rw [h.source, List.append_assoc]; rfl
    current := by rw [List.length_append, ← Nat.add_assoc, h.current]; rfl }

/-- **The bytes that pass are taken.** -/
theorem loop_skip {test : Scanner → Bool} {p : UInt8 → Bool} (hasks : Asks test p)
    (h : s.Within file before taken ahead tokens errors) : ∃ s', s.loop test skip = some s'
      ∧ s'.Within file before (taken ++ ahead.takeWhile p) (ahead.dropWhile p) tokens errors := by
  induction ahead generalizing s taken with
  | nil =>
    rw [List.takeWhile_nil, List.dropWhile_nil, List.append_nil]
    exact ⟨s, loop_done (hasks h.at), h⟩
  | cons b ahead ih =>
    cases hb : p b with
    | true =>
      obtain ⟨s', hloop, h'⟩ := ih h.next
      rw [List.takeWhile_cons_of_pos hb, List.dropWhile_cons_of_pos hb, List.append_cons]
      have hleft := h.at.left_lt h.at.next (Nat.lt_succ_self _)
      exact ⟨s', (loop_succ ((hasks h.at).trans hb) h.at.skip hleft).trans hloop, h'⟩
    | false =>
      rw [List.takeWhile_cons_of_neg (by simp [hb]), List.dropWhile_cons_of_neg (by simp [hb]),
        List.append_nil]
      exact ⟨s, loop_done ((hasks h.at).trans hb), h⟩

/-- A scanner that has taken no newline is on the same line. -/
theorem stands (h : s.Within file before taken ahead tokens errors)
    (hline : Text.newline ∉ taken) : s.Stands file (before ++ taken) ahead tokens errors where
  source := h.at.source
  file := h.file
  current := h.at.current
  line := by rw [h.line, List.count_append, List.count_eq_zero.mpr hline, Nat.add_zero]
  lineStart := by
    rw [Text.rtakeWhile_append _ fun b hb => by simpa using ne_of_mem_of_not_mem hb hline,
      List.length_append, List.length_append, ← h.lineStart, Nat.add_assoc]
  tokens := h.tokens
  errors := h.errors

/-- The bytes of the token. -/
theorem slice (h : s.Within file before taken ahead tokens errors) :
    s.slice s.start s.current = some taken := slice_eq h.source h.start h.current

/-- The column of the token. -/
theorem column (h : s.Within file before taken ahead tokens errors) :
    s.column s.start = some before.endPlace.column := column_eq h.source h.lineStart h.start

/-- A token is noted down with its bytes, at the place of the first of them. -/
theorem addToken (h : s.Within file before taken ahead tokens errors)
    (hline : Text.newline ∉ taken) (kind : TokenKind) : ∃ s', s.addToken kind = some s'
      ∧ s'.Stands file (before ++ taken) ahead (tokens ++ [⟨kind, taken, before.endPlace⟩])
        errors := by
  have hplace : before.endPlace = ⟨s.line, before.endPlace.column⟩ := by rw [h.line]; rfl
  refine ⟨{ s with tokens := s.tokens.push ⟨kind, taken, before.endPlace⟩ }, ?_,
    { h.stands hline with tokens := by rw [Array.toList_push, h.tokens] }⟩
  rw [Scanner.addToken, h.slice, h.column, hplace]
  rfl

/-- A mistake is noted down at the place of the first byte. -/
theorem error (h : s.Within file before taken ahead tokens errors)
    (hline : Text.newline ∉ taken) (cause : LexicalCause) : ∃ s', s.error cause s.start = some s'
      ∧ s'.Stands file (before ++ taken) ahead tokens
        (errors ++ [(Diagnostic.lexical cause before.endPlace).placed file]) := by
  have hstands := h.stands hline
  exact ⟨_, error_eq h.source h.file h.line h.lineStart h.start cause,
    { hstands with errors := by rw [Array.toList_push, h.errors] }⟩

end Within

namespace Stands

/-- A scanner sets out on the next token. -/
theorem within (h : s.Stands file before ahead tokens errors) :
    Within { s with start := s.current } file before [] ahead tokens errors :=
  { h with start := h.current, current := h.current }

/-- One byte further on the line. -/
theorem next {b : UInt8} (h : s.Stands file before (b :: ahead) tokens errors)
    (hb : b ≠ Text.newline) :
    Stands { s with current := s.current + 1 } file (before ++ [b]) ahead tokens errors :=
  { h.within.next.stands (by simpa using Ne.symm hb) with }

/-- A mistake is noted down here. -/
theorem error (h : s.Stands file before ahead tokens errors) (cause : LexicalCause) :
    ∃ s', s.error cause s.current = some s' ∧ s'.Stands file before ahead tokens
      (errors ++ [(Diagnostic.lexical cause before.endPlace).placed file]) :=
  ⟨_, error_eq h.source h.file h.line h.lineStart h.current cause,
    { h with errors := by rw [Array.toList_push, h.errors] }⟩

/-- Behind a newline a line starts. -/
theorem newline (h : s.At (before ++ [Text.newline]) ahead) (hfile : s.file = file)
    (hline : s.line = before.count Text.newline + 1) (htokens : s.tokens.toList = tokens)
    (herrors : s.errors.toList = errors) :
    s.newline.Stands file (before ++ [Text.newline]) ahead tokens errors where
  source := h.source
  file := hfile
  current := h.current
  line := by rw [Scanner.newline, hline, List.count_append]; rfl
  lineStart := by
    rw [List.rtakeWhile_concat_neg _ _ _ (by simp)]
    exact h.current
  tokens := htokens
  errors := herrors

/-- A byte of a string, a newline as well. -/
theorem skipInString {b : UInt8} (h : s.Stands file before (b :: ahead) tokens errors) :
    ∃ s', s.skipInString = some s' ∧ s'.Stands file (before ++ [b]) ahead tokens errors
      ∧ s'.start = s.start := by
  rw [Scanner.skipInString, h.at.advance]
  by_cases hb : b = Text.newline
  · subst hb
    exact ⟨_, rfl, newline h.at.next h.file h.line h.tokens h.errors, rfl⟩
  · exact ⟨{ s with current := s.current + 1 }, by simp [hb], h.next hb, rfl⟩

/-- The bytes up to the end of a string are taken, and the lines in it are counted. -/
theorem loop_skipInString {test : Scanner → Bool} {p : UInt8 → Bool} (hasks : Asks test p)
    (h : s.Stands file before ahead tokens errors) : ∃ s', s.loop test Scanner.skipInString = some s'
      ∧ s'.Stands file (before ++ ahead.takeWhile p) (ahead.dropWhile p) tokens errors
      ∧ s'.start = s.start := by
  induction ahead generalizing s before with
  | nil =>
    rw [List.takeWhile_nil, List.dropWhile_nil, List.append_nil]
    exact ⟨s, loop_done (hasks h.at), h, rfl⟩
  | cons b ahead ih =>
    cases hb : p b with
    | true =>
      obtain ⟨s₁, hstep, h₁, hstart₁⟩ := h.skipInString
      obtain ⟨s', hloop, h', hstart'⟩ := ih h₁
      rw [List.takeWhile_cons_of_pos hb, List.dropWhile_cons_of_pos hb, List.append_cons]
      have hleft := h.at.left_lt h₁.at (Nat.lt_succ_self _)
      exact ⟨s', (loop_succ ((hasks h.at).trans hb) hstep hleft).trans hloop, h',
        hstart'.trans hstart₁⟩
    | false =>
      rw [List.takeWhile_cons_of_neg (by simp [hb]), List.dropWhile_cons_of_neg (by simp [hb]),
        List.append_nil]
      exact ⟨s, loop_done ((hasks h.at).trans hb), h, rfl⟩

end Stands

/-! ## Pieces -/

/-- A step comes to a scanner that stands somewhere. -/
def Arrives (result : Option Scanner) (file before ahead : Text) (tokens : List Token)
    (errors : List Diagnostic) : Prop :=
  ∃ s, result = some s ∧ s.Stands file before ahead tokens errors

/-- The piece that stands at the front of some characters, behind some bytes. -/
def pieceAt (before : Text) (g : Glyph) (rest : List Glyph) : Piece :=
  ⟨(Content.front g rest).1, before.endPlace, g :: rest.take (Content.front g rest).2⟩

/-- A step finds the piece at the front of some characters, and stops behind it. -/
def Finds (result : Option Scanner) (file before : Text) (tokens : List Token)
    (errors : List Diagnostic) (g : Glyph) (rest : List Glyph) : Prop :=
  Arrives result file (before ++ (pieceAt before g rest).text)
    (Text.ofGlyphs (rest.drop (Content.front g rest).2))
    (tokens ++ (pieceAt before g rest).token?.toList)
    (errors ++ ((pieceAt before g rest).diagnostic?.map (·.placed file)).toList)

section Pieces

variable {result : Option Scanner} {g : Glyph} {rest : List Glyph} {n : Nat}

/-- A token is found. -/
theorem finds_of_token {kind : TokenKind} (hfront : Content.front g rest = (.token kind, n))
    (htaken : Text.ofGlyphs (g :: rest.take n) = taken)
    (hahead : Text.ofGlyphs (rest.drop n) = ahead)
    (h : Arrives result file (before ++ taken) ahead (tokens ++ [⟨kind, taken, before.endPlace⟩])
      errors) : Finds result file before tokens errors g rest := by
  subst htaken hahead
  simpa [Finds, pieceAt, hfront, Piece.text, Piece.token?, Piece.diagnostic?] using h

/-- A gap is found. -/
theorem finds_of_gap (hfront : Content.front g rest = (.gap, n))
    (htaken : Text.ofGlyphs (g :: rest.take n) = taken)
    (hahead : Text.ofGlyphs (rest.drop n) = ahead)
    (h : Arrives result file (before ++ taken) ahead tokens errors) :
    Finds result file before tokens errors g rest := by
  subst htaken hahead
  simpa [Finds, pieceAt, hfront, Piece.text, Piece.token?, Piece.diagnostic?] using h

/-- A refused piece is found; it is reported where it starts. -/
theorem finds_of_refused {cause : LexicalCause} (hcause : cause ≠ .unterminatedString)
    (hfront : Content.front g rest = (.refused cause, n))
    (htaken : Text.ofGlyphs (g :: rest.take n) = taken)
    (hahead : Text.ofGlyphs (rest.drop n) = ahead)
    (h : Arrives result file (before ++ taken) ahead tokens
      (errors ++ [(Diagnostic.lexical cause before.endPlace).placed file])) :
    Finds result file before tokens errors g rest := by
  subst htaken hahead
  simpa [Finds, pieceAt, hfront, Piece.text, Piece.token?, Piece.diagnostic?, hcause, Diagnostic.lexical] using h

/-- An open string is reported where the source ends. -/
theorem finds_of_unterminated (hfront : Content.front g rest = (.refused .unterminatedString, n))
    (hplace : before.endPlace.after (g :: rest.take n) = (before ++ taken).endPlace)
    (htaken : Text.ofGlyphs (g :: rest.take n) = taken)
    (hahead : Text.ofGlyphs (rest.drop n) = ahead)
    (h : Arrives result file (before ++ taken) ahead tokens
      (errors ++ [(Diagnostic.lexical .unterminatedString (before ++ taken).endPlace).placed file])) :
    Finds result file before tokens errors g rest := by
  rw [← hplace] at h
  subst htaken hahead
  simpa [Finds, pieceAt, hfront, Piece.text, Piece.token?, Piece.diagnostic?, Diagnostic.lexical]
    using h

end Pieces

/-! ## One token

In front of the scanner are the characters of `a :: ahead`.  Below `0x80` the first of them is the byte
`a` (`letter a`), and the way to read on is chosen by it; past `0x80` it has more bytes than one, or is
none, and is refused.
-/

section Tokens

variable {a : UInt8}

/-- A character below `0x80` is one byte. -/
theorem ofGlyphs_letter (ha : a < 0x80) (gs : List Glyph) :
    Text.ofGlyphs (letter a :: gs) = a :: Text.ofGlyphs gs := by
  rw [Text.ofGlyphs_cons, letter, Glyph.encode_one ha]
  rfl

/-- A byte below `0x80` is one character. -/
theorem glyphs_cons_letter (ha : a < 0x80) (t : Text) :
    Text.glyphs (a :: t) = letter a :: t.glyphs := Text.glyphs_cons_ascii ha t

/-- The first character is one below `0x80` exactly if the first byte is. -/
theorem head?_glyphs {b : UInt8} (hb : b < 0x80) (t : Text) :
    t.glyphs.head? = some (letter b) ↔ t.head? = some b := by
  cases t with
  | nil => simp [Text.glyphs, Glyph.readFrom]
  | cons a t =>
    constructor
    · intro h
      have hencode := Glyph.encode_front a t
      rw [Text.glyphs_cons, List.head?_cons, Option.some.injEq] at h
      rw [h, letter, Glyph.encode_one hb] at hencode
      rw [List.head?_cons, (List.cons.inj hencode).1]
    · intro h
      obtain rfl := Option.some.inj h
      rw [Text.glyphs_cons_ascii hb]
      rfl

/-- A symbol of one character stands alone. -/
theorem front_of_symbol {g : Glyph} {kind : TokenKind} (h : Content.symbol? g = some kind)
    (rest : List Glyph) : Content.front g rest = (.token kind, 0) := by
  unfold Content.symbol? at h
  split at h <;> first | (obtain rfl := Option.some.inj h; rfl) | exact absurd h (by simp)

/-- The other symbols may have an equals sign behind them. -/
theorem front_of_comparison {g : Glyph} {alone withEqual : TokenKind}
    (h : Content.comparison? g = some (alone, withEqual)) (rest : List Glyph) :
    Content.front g rest = if rest.head? = some (letter 0x3D) then (.token withEqual, 1)
      else (.token alone, 0) := by
  unfold Content.comparison? at h
  split at h <;> simp only [Option.some.injEq, Prod.mk.injEq, reduceCtorEq] at h
  all_goals
    obtain ⟨rfl, rfl⟩ := h
    rfl

theorem At.takes? {b : UInt8} (h : s.At before ahead) : s.takes? b
    = if ahead.head? = some b then some { s with current := s.current + 1 } else none := by
  rw [Scanner.takes?, h.isAtEnd, h.peek]
  cases ahead with
  | nil => rfl
  | cons a ahead => by_cases hb : a = b <;> simp [hb]

/-- A run of bytes that are no newlines. -/
theorem newline_not_mem_takeWhile {p : UInt8 → Bool} (hp : p Text.newline = false) (t : Text) :
    Text.newline ∉ t.takeWhile p := fun hmem =>
  absurd (List.mem_takeWhile_imp hmem) (by simp [hp])

/-! ### Symbols and strings -/

/-- **A symbol.** -/
theorem Within.symbol_finds {kind : TokenKind} (h : s.Within file before [a] ahead tokens errors)
    (ha : a < 0x80) (hkind : Content.symbol? (letter a) = some kind) :
    Finds (s.addToken kind) file before tokens errors (letter a) ahead.glyphs := by
  have hline : Text.newline ∉ [a] := by
    rw [List.mem_singleton]
    rintro rfl
    have hnone : Content.symbol? (letter Text.newline) = none := by decide
    simp [hnone] at hkind
  exact finds_of_token (front_of_symbol hkind _) (ofGlyphs_letter ha _) (Text.ofGlyphs_glyphs ahead)
    (h.addToken hline kind)

/-- **A symbol that may have an equals sign behind it.** -/
theorem Within.comparison_finds {alone withEqual : TokenKind}
    (h : s.Within file before [a] ahead tokens errors) (ha : a < 0x80)
    (hkinds : Content.comparison? (letter a) = some (alone, withEqual)) :
    Finds (match s.takes? 0x3D with
      | some s => s.addToken withEqual
      | none => s.addToken alone) file before tokens errors (letter a) ahead.glyphs := by
  have hline : Text.newline ∉ [a] := by
    rw [List.mem_singleton]
    rintro rfl
    have hnone : Content.comparison? (letter Text.newline) = none := by decide
    simp [hnone] at hkinds
  have hfront := front_of_comparison hkinds ahead.glyphs
  simp only [head?_glyphs (show (0x3D : UInt8) < 0x80 by decide)] at hfront
  rw [h.at.takes?]
  by_cases hequal : ahead.head? = some 0x3D
  · obtain ⟨more, rfl⟩ := List.head?_eq_some_iff.mp hequal
    rw [if_pos hequal] at hfront ⊢
    have hglyphs : Text.glyphs (0x3D :: more) = letter 0x3D :: Text.glyphs more :=
      glyphs_cons_letter (by decide) more
    have hmore : Text.newline ∉ [a] ++ [0x3D] := by simpa [Text.newline] using hline
    refine finds_of_token hfront ?_ ?_ (h.next.addToken hmore withEqual)
    · rw [hglyphs, ofGlyphs_letter ha, List.take_succ_cons, ofGlyphs_letter (by decide)]
      rfl
    · rw [hglyphs]
      exact Text.ofGlyphs_glyphs more
  · rw [if_neg hequal] at hfront ⊢
    exact finds_of_token hfront (ofGlyphs_letter ha _) (Text.ofGlyphs_glyphs ahead)
      (h.addToken hline alone)

theorem told_quote : Glyph.Told (· ≠ Text.quote) (· ≠ .char '"') := Glyph.told_ne (by decide)

theorem told_newline : Glyph.Told (· ≠ Text.newline) (· ≠ .char '\n') := Glyph.told_ne (by decide)

/-- A string that no quote closes is refused, with everything behind it. -/
theorem front_of_open (hopen : ahead.dropWhile (· ≠ Text.quote) = []) :
    Content.front (letter Text.quote) ahead.glyphs
      = (.refused .unterminatedString, ahead.glyphs.length) := by
  have hdrop := told_quote.drop ahead
  rw [hopen] at hdrop
  have hle : (ahead.glyphs.takeWhile (· ≠ .char '"')).length ≤ ahead.glyphs.length :=
    (List.takeWhile_prefix _).length_le
  have hall := Nat.le_antisymm hle (List.drop_eq_nil_iff.mp hdrop)
  exact if_pos hall

/-- A string that is closed has a quote behind its value. -/
theorem front_of_closed {behind : Text}
    (hclosed : ahead.dropWhile (· ≠ Text.quote) = Text.quote :: behind) : ∃ n,
    Content.front (letter Text.quote) ahead.glyphs
        = (.token (.string (ahead.takeWhile (· ≠ Text.quote))), n)
      ∧ Text.ofGlyphs (letter Text.quote :: ahead.glyphs.take n)
        = Text.quote :: (ahead.takeWhile (· ≠ Text.quote) ++ [Text.quote])
      ∧ Text.ofGlyphs (ahead.glyphs.drop n) = behind := by
  have hquote : Text.quote < 0x80 := by decide
  have hbody := told_quote.takeWhile ahead
  have hdrop := told_quote.drop ahead
  rw [hclosed, glyphs_cons_letter hquote] at hdrop
  have hne : (ahead.glyphs.takeWhile (· ≠ .char '"')).length ≠ ahead.glyphs.length := by
    intro heq
    rw [heq, List.drop_length] at hdrop
    exact absurd hdrop (List.cons_ne_nil _ _).symm
  refine ⟨(ahead.glyphs.takeWhile (· ≠ .char '"')).length + 1, ?_, ?_, ?_⟩
  · rw [← hbody]
    exact if_neg hne
  · rw [Content.take_string hne, ofGlyphs_letter hquote, Text.ofGlyphs_append, hbody]
    rfl
  · rw [← List.drop_drop, hdrop]
    exact Text.ofGlyphs_glyphs behind

/-- **A string**, closed or open to the end of the source; its place was told before its lines were
counted. -/
theorem Within.string_finds (h : s.Within file before [Text.quote] ahead tokens errors)
    (hplace : before.endPlace.after (letter Text.quote :: ahead.glyphs)
      = (before ++ Text.quote :: ahead).endPlace) :
    Finds s.string file before tokens errors (letter Text.quote) ahead.glyphs := by
  obtain ⟨s', hloop, h', hstart⟩ :=
    (h.stands (by decide)).loop_skipInString (asks_peek_ne Text.quote)
  have hall : ahead.takeWhile (· ≠ Text.quote) ++ ahead.dropWhile (· ≠ Text.quote) = ahead :=
    List.takeWhile_append_dropWhile
  have hnext := List.head?_dropWhile_not (· ≠ Text.quote) ahead
  rw [Scanner.string, h.column]
  simp only [Option.bind_eq_bind, Option.bind_some, hloop, h'.at.isAtEnd]
  -- Either no quote follows, and the string takes the rest, or the first one ends it.
  cases hrest : ahead.dropWhile (· ≠ Text.quote) with
  | nil =>
    rw [hrest, List.append_nil] at hall
    rw [hrest, hall, List.append_assoc] at h'
    have htaken : Text.ofGlyphs (letter Text.quote :: ahead.glyphs.take ahead.glyphs.length)
        = Text.quote :: ahead := by
      rw [List.take_length, ofGlyphs_letter (by decide), Text.ofGlyphs_glyphs]
    refine finds_of_unterminated (front_of_open hrest) ?_ htaken ?_ (h'.error _)
    · rw [List.take_length, hplace]
    · rw [List.drop_length, Text.ofGlyphs_nil]
  | cons b behind =>
    rw [hrest] at hnext
    obtain rfl : b = Text.quote := by simpa using hnext
    obtain ⟨n, hfront, htaken, hbehind⟩ := front_of_closed hrest
    rw [hrest] at h'
    generalize ahead.takeWhile (· ≠ Text.quote) = value at h' hfront htaken
    have hsource : s'.source.toList
        = (before ++ [Text.quote]) ++ (value ++ ([Text.quote] ++ behind)) := by
      rw [h'.source, List.append_assoc]
      rfl
    have hwhole : s'.source.toList
        = before ++ ((Text.quote :: (value ++ [Text.quote])) ++ behind) := by
      simp [hsource]
    have hcurrent : s'.current = (before ++ [Text.quote]).length + value.length := by
      rw [h'.current, List.length_append]
    -- The value is cut without the quotes and the lexeme with them.
    have hvalue : Scanner.slice { s' with current := s'.current + 1 } (s'.start + 1)
        (s'.current + 1 - 1) = some value := by
      refine slice_eq hsource ?_ ?_
      · rw [hstart, h.start, List.length_append, List.length_singleton]
      · rw [Nat.add_sub_cancel, hcurrent]
    have hlexeme : Scanner.slice { s' with current := s'.current + 1 } s'.start (s'.current + 1)
        = some (Text.quote :: (value ++ [Text.quote])) := by
      refine slice_eq hwhole (hstart.trans h.start) ?_
      simp [hcurrent]
      omega
    have hstands := h'.next (by decide)
    rw [List.append_assoc, List.append_assoc] at hstands
    rw [if_neg (by simp), h'.at.skip]
    simp only [Option.bind_some, hvalue, hlexeme]
    exact finds_of_token hfront htaken hbehind ⟨_, rfl,
      { hstands with tokens := by rw [Array.toList_push, h'.tokens, h.line]; rfl }⟩

/-! ### Words -/

theorem lt_of_isLetter (ha : isLetter a = true) : a < 0x80 := by
  have hall : ∀ a, isLetter a = true → a < 0x80 := Glyph.forall_byte (by decide +kernel)
  exact hall a ha

/-- A letter begins a word. -/
theorem front_of_isLetter (ha : isLetter a = true) (rest : List Glyph) :
    Content.front (letter a) rest = Content.word (letter a) rest := by
  have hall : ∀ a, isLetter a = true → (letter a).isSpace = false ∧ (letter a).isDigit = false
      ∧ (letter a).isLetter = true := Glyph.forall_byte (by decide +kernel)
  obtain ⟨hspace, hdigit, hletter⟩ := hall a ha
  rw [Content.front.eq_def, if_neg (by simp [hspace]), if_neg (by simp [hdigit]), if_pos hletter]

/-- What follows a piece, by its bytes. -/
theorem ofGlyphs_drop (ha : a < 0x80) {n : Nat} {behind : Text}
    (htaken : Text.ofGlyphs (letter a :: ahead.glyphs.take n) = taken)
    (htext : a :: ahead = taken ++ behind) : Text.ofGlyphs (ahead.glyphs.drop n) = behind := by
  apply (List.append_right_inj taken).mp
  rw [← htext, ← htaken, ← Text.ofGlyphs_append, List.cons_append, List.take_append_drop,
    ofGlyphs_letter ha, Text.ofGlyphs_glyphs]

/-- **A word**: a comment to the end of its line, a keyword or a name. -/
theorem Within.identifier_finds (h : s.Within file before [a] ahead tokens errors)
    (ha : isLetter a = true) :
    Finds s.identifier file before tokens errors (letter a) ahead.glyphs := by
  have hascii := lt_of_isLetter ha
  obtain ⟨s₁, hloop, h₁⟩ := h.loop_skip (asks_peek (p := isWord) (by decide))
  have hfront := front_of_isLetter ha ahead.glyphs
  have hspelling : Text.ofGlyphs (letter a :: ahead.glyphs.takeWhile Glyph.isWord)
      = [a] ++ ahead.takeWhile isWord := by
    rw [ofGlyphs_letter hascii, Glyph.told_isWord.takeWhile]
    rfl
  have hline : Text.newline ∉ [a] ++ ahead.takeWhile isWord := by
    rw [List.mem_append, List.mem_singleton, not_or]
    refine ⟨?_, newline_not_mem_takeWhile (by decide) ahead⟩
    rintro rfl
    exact absurd ha (by decide)
  have hsplit := List.takeWhile_append_dropWhile (p := isWord) (l := ahead)
  rw [Scanner.identifier, hloop]
  simp only [Option.bind_eq_bind, Option.bind_some, h₁.slice]
  rw [Content.word, hspelling] at hfront
  by_cases hcomment : [a] ++ ahead.takeWhile isWord = commentWord
  · rw [if_pos hcomment] at hfront ⊢
    obtain ⟨s₂, hloop₂, h₂⟩ := h₁.loop_skip (asks_peek_ne Text.newline)
    have hrest : ahead.takeWhile isWord ++ (ahead.dropWhile isWord).takeWhile (· ≠ Text.newline)
        = ahead.takeWhile (· ≠ Text.newline) := by
      have hword : ∀ b ∈ ahead.takeWhile isWord, (b ≠ Text.newline : Bool) = true := by
        intro b hb
        simpa using ne_of_mem_of_not_mem hb (newline_not_mem_takeWhile (by decide) ahead)
      conv => rhs; rw [← hsplit, List.takeWhile_append_of_pos hword]
    have htaken : Text.ofGlyphs (letter a :: ahead.glyphs.take
        (ahead.glyphs.takeWhile (· ≠ .char '\n')).length)
        = [a] ++ ahead.takeWhile isWord ++ (ahead.dropWhile isWord).takeWhile (· ≠ Text.newline) := by
      rw [ofGlyphs_letter hascii, told_newline.take, List.append_assoc, hrest]
      rfl
    refine finds_of_gap hfront htaken (ofGlyphs_drop hascii htaken ?_) ⟨s₂, hloop₂, h₂.stands ?_⟩
    · rw [List.append_assoc, List.append_assoc, List.takeWhile_append_dropWhile, hsplit]
      rfl
    · rw [List.mem_append, not_or]
      exact ⟨hline, newline_not_mem_takeWhile (by simp) _⟩
  · rw [if_neg hcomment] at hfront ⊢
    have htaken : Text.ofGlyphs (letter a :: ahead.glyphs.take
        (ahead.glyphs.takeWhile Glyph.isWord).length) = [a] ++ ahead.takeWhile isWord := by
      rw [ofGlyphs_letter hascii, Glyph.told_isWord.take]
      rfl
    refine finds_of_token hfront htaken (ofGlyphs_drop hascii htaken ?_) (h₁.addToken hline _)
    rw [List.append_assoc, hsplit]
    rfl

/-! ### Numerals -/

/-- A digit begins a numeral. -/
theorem front_of_isDecimal (ha : Text.isDecimal a = true) (rest : List Glyph) :
    a < 0x80 ∧ Content.front (letter a) rest = Content.numeral (letter a) rest := by
  have hall : ∀ a, Text.isDecimal a = true → a < 0x80 ∧ (letter a).isSpace = false
      ∧ (letter a).isDigit = true := Glyph.forall_byte (by decide +kernel)
  obtain ⟨hascii, hspace, hdigit⟩ := hall a ha
  rw [Content.front.eq_def, if_neg (by simp [hspace]), if_pos hdigit]
  exact ⟨hascii, rfl⟩

/-- The digits behind a point, by their bytes. -/
theorem ofGlyphs_fraction (t : Text) : Text.ofGlyphs (Content.fraction t.glyphs)
    = if t.head? = some point then t.tail.takeWhile Text.isDecimal else [] := by
  by_cases hpoint : t.head? = some point
  · obtain ⟨t, rfl⟩ := List.head?_eq_some_iff.mp hpoint
    rw [if_pos hpoint, glyphs_cons_letter (by decide)]
    exact Glyph.told_isDecimal.takeWhile t
  · rw [if_neg hpoint]
    unfold Content.fraction
    split
    · next hglyphs =>
      exact absurd ((head?_glyphs (b := point) (by decide) t).mp (by rw [hglyphs]; rfl)) hpoint
    · rfl

/-- A numeral is read back by its point. -/
theorem numberOf?_numeral {whole fraction : Text} (hwhole : whole.IsDigits) :
    numberOf? (Text.numeral whole fraction) = Number.ofNumeral? whole fraction := by
  unfold Text.numeral numberOf?
  split
  · next hnone =>
    rw [List.takeWhile_eq_self_iff.mpr hwhole, List.dropWhile_eq_nil_iff.mpr hwhole, hnone,
      List.drop_nil]
  · rw [List.append_assoc, List.takeWhile_append_of_pos hwhole, List.dropWhile_append_of_pos hwhole]
    have hdot : ∃ more, (".": Text) ++ fraction = point :: more ∧ more = fraction :=
      ⟨fraction, rfl, rfl⟩
    obtain ⟨more, hmore, rfl⟩ := hdot
    rw [hmore, List.takeWhile_cons_of_neg (by decide), List.dropWhile_cons_of_neg (by decide),
      List.append_nil]
    rfl

/-- The digits behind a point, if the next bytes are a point and a digit. -/
def placesOf (t : Text) : Text :=
  if t.head? = some point then t.tail.takeWhile Text.isDecimal else []

/-- What is taken behind a point are digits. -/
theorem isDigits_placesOf (t : Text) : (placesOf t).IsDigits := by
  unfold placesOf
  split
  · exact fun b hb => List.mem_takeWhile_imp hb
  · exact List.forall_mem_nil _

/-- A numeral is on one line. -/
theorem newline_not_mem_numeral {whole fraction : Text} (hwhole : whole.IsDigits)
    (hfraction : fraction.IsDigits) : Text.newline ∉ Text.numeral whole fraction := by
  have hnone : Text.isDecimal Text.newline ≠ true := by decide
  have hpoint : Text.newline ∉ Text.ofString "." := by decide
  unfold Text.numeral
  split
  · exact fun hmem => hnone (hwhole _ hmem)
  · rw [List.mem_append, List.mem_append, not_or, not_or]
    exact ⟨⟨fun hmem => hnone (hwhole _ hmem), hpoint⟩, fun hmem => hnone (hfraction _ hmem)⟩

/-- There are digits at the front of a text exactly if its first byte is one. -/
theorem takeWhile_isDecimal_eq_nil_iff (t : Text) :
    t.takeWhile Text.isDecimal = [] ↔ Text.isDecimal (t.headD 0) = false := by
  cases t with
  | nil => exact iff_of_true rfl (by decide)
  | cons d t => simp [List.takeWhile_cons]

/-- The digits behind a point are taken where there are any; a point without them is left. -/
theorem Within.places_within {whole : Text} (h : s.Within file before whole ahead tokens errors) :
    ∃ s' behind, s.places = some s'
      ∧ s'.Within file before (Text.numeral whole (placesOf ahead)) behind tokens errors
      ∧ whole ++ ahead = Text.numeral whole (placesOf ahead) ++ behind := by
  rw [places, h.at.peek, h.at.peekNext]
  -- A point belongs to the numeral only with a digit behind it.
  by_cases hpoint : ahead.head? = some point
  · obtain ⟨t, rfl⟩ := List.head?_eq_some_iff.mp hpoint
    have hplaces : placesOf (point :: t) = t.takeWhile Text.isDecimal := if_pos hpoint
    rw [hplaces]
    cases hdigit : Text.isDecimal (t.headD 0) with
    | true =>
      obtain ⟨s', hloop, h'⟩ := h.next.loop_skip (asks_peek (p := Text.isDecimal) (by decide))
      have hne : t.takeWhile Text.isDecimal ≠ [] := by
        rw [Ne, takeWhile_isDecimal_eq_nil_iff, hdigit]
        decide
      have hnumeral : Text.numeral whole (t.takeWhile Text.isDecimal)
          = whole ++ [point] ++ t.takeWhile Text.isDecimal := if_neg hne
      rw [hnumeral]
      refine ⟨s', _, ?_, h', ?_⟩
      · rw [if_pos (by rw [List.tail_cons, hdigit]; rfl), h.at.skip]
        exact hloop
      · rw [List.append_assoc, List.takeWhile_append_dropWhile, List.append_assoc]
        rfl
    | false =>
      have hnone := (takeWhile_isDecimal_eq_nil_iff t).mpr hdigit
      have hnumeral : Text.numeral whole (t.takeWhile Text.isDecimal) = whole := if_pos hnone
      rw [hnumeral]
      refine ⟨s, _, if_neg ?_, h, rfl⟩
      rw [List.tail_cons, hdigit, Bool.and_false]
      exact Bool.false_ne_true
  · have hplaces : placesOf ahead = [] := if_neg hpoint
    have hpeek : ahead.headD 0 ≠ point := by
      cases ahead with
      | nil => decide
      | cons b ahead => simpa using hpoint
    rw [hplaces]
    refine ⟨s, _, if_neg ?_, h, rfl⟩
    rw [decide_eq_false hpeek, Bool.false_and]
    exact Bool.false_ne_true

/-- **A numeral**, with the number that it stands for or none near it. -/
theorem Within.number_finds (h : s.Within file before [a] ahead tokens errors)
    (ha : Text.isDecimal a = true) :
    Finds s.number file before tokens errors (letter a) ahead.glyphs := by
  obtain ⟨hascii, hfront⟩ := front_of_isDecimal ha ahead.glyphs
  obtain ⟨s₁, hdigits, h₁⟩ := h.loop_skip (asks_peek (p := Text.isDecimal) (by decide))
  obtain ⟨s₂, behind, hfraction, h₂, htext⟩ := h₁.places_within
  rw [List.append_assoc, List.takeWhile_append_dropWhile] at htext
  have hwhole : Text.ofGlyphs (letter a :: ahead.glyphs.takeWhile Glyph.isDigit)
      = [a] ++ ahead.takeWhile Text.isDecimal := by
    rw [ofGlyphs_letter hascii, Glyph.told_isDecimal.takeWhile]
    rfl
  have hplaces : Text.ofGlyphs (Content.fraction
      (ahead.glyphs.drop (ahead.glyphs.takeWhile Glyph.isDigit).length))
        = placesOf (ahead.dropWhile Text.isDecimal) := by
    rw [Glyph.told_isDecimal.drop, ofGlyphs_fraction]
    rfl
  have hisDigits : Text.IsDigits ([a] ++ ahead.takeWhile Text.isDecimal) :=
    List.forall_mem_cons.mpr ⟨ha, fun b hb => List.mem_takeWhile_imp hb⟩
  have htaken := Content.ofGlyphs_numeral (letter a) ahead.glyphs
  rw [hwhole, hplaces] at htaken
  have hline : Text.newline ∉ Text.numeral ([a] ++ ahead.takeWhile Text.isDecimal)
      (placesOf (ahead.dropWhile Text.isDecimal)) :=
    newline_not_mem_numeral hisDigits (isDigits_placesOf _)
  have hspelled := htaken
  rw [Content.numeral_length] at hspelled
  rw [Scanner.number, Scanner.digits, hdigits]
  simp only [Option.bind_eq_bind, Option.bind_some, hfraction, h₂.slice,
    numberOf?_numeral hisDigits]
  unfold Content.numeral at hfront
  simp only [hwhole, hplaces, hspelled] at hfront
  cases hvalue : Number.ofNumeral? ([a] ++ ahead.takeWhile Text.isDecimal)
      (placesOf (ahead.dropWhile Text.isDecimal)) with
  | some value =>
    rw [hvalue] at hfront
    exact finds_of_token hfront hspelled (ofGlyphs_drop hascii hspelled htext)
      (h₂.addToken hline _)
  | none =>
    rw [hvalue] at hfront
    exact finds_of_refused (by simp) hfront hspelled (ofGlyphs_drop hascii hspelled htext)
      (h₂.error hline _)

/-! ### Other characters -/

/-- A character that nothing begins with is refused. -/
theorem front_of_not_begins {g : Glyph} (hbegins : g.begins = false) (rest : List Glyph) :
    (∃ c, g = .char c ∧ Content.front g rest = (.refused (.unexpected c), 0))
      ∨ ∃ b, g = .stray b ∧ Content.front g rest = (.refused .malformedEncoding, 0) := by
  have hcases := Content.front_cases g rest
  have hword : g.isWord = false := by
    rw [Glyph.begins, Bool.or_eq_false_iff, Bool.or_eq_false_iff] at hbegins
    exact hbegins.1.2
  generalize hfront : Content.front g rest = found at hcases
  cases hcases with
  | space h => simp [Glyph.begins, h] at hbegins
  | numeral h => simp [Glyph.isWord, h] at hword
  | word h => simp [Glyph.isWord, h] at hword
  | string h => exact absurd hbegins (by rw [h]; decide)
  | symbol h =>
    unfold Content.symbol? at h
    split at h <;> first | exact absurd hbegins (by decide) | exact absurd h (by simp)
  | comparison h =>
    unfold Content.comparison? at h
    split at h <;> first | exact absurd hbegins (by decide) | exact absurd h (by simp)
  | unexpected h _ => exact .inl ⟨_, h, rfl⟩
  | stray h => exact .inr ⟨_, h, rfl⟩

/-- No character has more than four bytes. -/
theorem front_le_three (a : UInt8) (rest : Text) : (Glyph.front a rest).2 ≤ 3 := by
  unfold Glyph.front
  split
  · exact Nat.zero_le 3
  · match rest with
    | [] => exact Nat.zero_le 3
    | [b] => cases h : Glyph.two? a b <;> simp [h]
    | [b, c] => cases h : Glyph.two? a b <;> cases h' : Glyph.three? a b c <;> simp [h, h']
    | b :: c :: d :: _ =>
      cases h : Glyph.two? a b <;> cases h' : Glyph.three? a b c <;>
        cases h'' : Glyph.four? a b c d <;> simp [h, h', h'']

/-- **A character that begins nothing** is refused with all its bytes. -/
theorem Within.unexpected_finds {g : Glyph} {rest : List Glyph}
    (h : s.Within file before [a] ahead tokens errors) (hglyphs : Text.glyphs (a :: ahead) = g :: rest)
    (hbegins : g.begins = false) : Finds s.unexpected file before tokens errors g rest := by
  have hmem : g ∈ Text.glyphs (a :: ahead) := by rw [hglyphs]; exact List.mem_cons_self
  rw [Text.glyphs_cons] at hglyphs
  obtain ⟨hg, hrest⟩ := List.cons.inj hglyphs
  have hencode := Glyph.encode_front a ahead
  rw [hg] at hencode
  have hline : Text.newline ∉ a :: ahead.take (Glyph.front a ahead).2 := by
    intro hnewline
    rw [← hencode] at hnewline
    obtain rfl := Text.eq_of_mem_encode (by decide) hnewline hmem
    exact absurd hbegins (by decide)
  have hslice : s.slice s.start (min (s.start + 4) s.source.size) = some (a :: ahead.take 3) := by
    have hsource : s.source.toList = before ++ (a :: ahead.take 3 ++ ahead.drop 3) := by
      simp [h.source]
    refine slice_eq hsource h.start ?_
    rw [← Array.length_toList, hsource, h.start]
    simp
    omega
  have htaken : Within { s with current := s.start + (1 + (Glyph.front a ahead).2) } file before
      (a :: ahead.take (Glyph.front a ahead).2) (ahead.drop (Glyph.front a ahead).2) tokens errors :=
    { h with
      source := by simp [h.source]
      current := by
        rw [h.start, List.length_cons, List.length_take_of_le (Glyph.front_le a ahead), Nat.add_comm 1] }
  have hbehind : Text.ofGlyphs rest = ahead.drop (Glyph.front a ahead).2 := by
    rw [← hrest, Text.ofGlyphs_glyphs]
  have htext : Text.ofGlyphs (g :: rest.take 0) = a :: ahead.take (Glyph.front a ahead).2 := by
    rw [← hencode]
    exact (Text.ofGlyphs_cons _ _).trans (List.append_nil _)
  rw [Scanner.unexpected, hslice]
  simp only [Option.bind_eq_bind, Option.bind_some, Glyph.front_take a ahead (front_le_three a ahead)]
  obtain ⟨c, rfl, hfront⟩ | ⟨b, rfl, hfront⟩ := front_of_not_begins hbegins rest
  · rw [hg]
    exact finds_of_refused (by simp) hfront htext hbehind (htaken.error hline _)
  · rw [hg]
    exact finds_of_refused (by simp) hfront htext hbehind (htaken.error hline _)

/-- Past `0x80` no character begins anything. -/
theorem begins_of_not_ascii {g : Glyph} {rest : List Glyph} (ha : ¬a < 0x80)
    (hglyphs : Text.glyphs (a :: ahead) = g :: rest) : g.begins = false := by
  have hmem : g ∈ Text.glyphs (a :: ahead) := by rw [hglyphs]; exact List.mem_cons_self
  have hfirst : a ∈ g.encode := by
    rw [Text.glyphs_cons] at hglyphs
    rw [← (List.cons.inj hglyphs).1, Glyph.encode_front]
    exact List.mem_cons_self
  have hne : ∀ b : UInt8, b < 0x80 → g ≠ letter b := by
    rintro b hb rfl
    rw [letter, Glyph.encode_one hb, List.mem_singleton] at hfirst
    exact ha (hfirst ▸ hb)
  have hchar : ∀ c : Char, c.toNat < 0x80 → g ≠ .char c := by
    rintro c hc rfl
    obtain ⟨b, hb, hbyte⟩ := Glyph.exists_byte hc
    exact hne b hb hbyte
  refine Content.begins_eq_false ?_ ?_ (hne Text.quote (by decide)) ?_ ?_
  · by_contra hspace
    simp only [Glyph.isSpace, Bool.or_eq_false_iff, decide_eq_false_iff_not, not_and, not_not] at hspace
    exact hne 0x0A (by decide) (hspace ⟨⟨hne 0x20 (by decide), hne 0x09 (by decide)⟩,
      hne 0x0D (by decide)⟩)
  · have hall : ∀ a : UInt8, ¬a < 0x80 → isWord a = false := Glyph.forall_byte (by decide +kernel)
    rw [← Glyph.told_isWord.answer hmem hfirst, hall a ha]
  · unfold Content.symbol?
    split <;> first | rfl | exact (hchar _ (by decide) rfl).elim
  · unfold Content.comparison?
    split <;> first | rfl | exact (hchar _ (by decide) rfl).elim

/-- **The scanner finds the piece in front of it.** -/
theorem Stands.scanNext_finds {g : Glyph} {rest : List Glyph}
    (h : s.Stands file before (a :: ahead) tokens errors)
    (hglyphs : Text.glyphs (a :: ahead) = g :: rest)
    (hplace : before.endPlace.after (g :: rest) = (before ++ a :: ahead).endPlace) :
    Finds s.scanNext file before tokens errors g rest := by
  have hnext := h.within.next
  rw [List.nil_append] at hnext
  -- The first byte is read before any way is chosen, so a token never starts behind its own start.
  rw [scanNext, scanToken, h.within.at.advance]
  simp only [Option.bind_eq_bind, Option.bind_some]
  -- The scanner tests bytes and the pieces test characters; below `0x80` both are the same.
  by_cases ha : a < 0x80
  · rw [glyphs_cons_letter ha] at hglyphs
    obtain ⟨rfl, rfl⟩ := List.cons.inj hglyphs
    -- The order of the cases is the scanner's: the first test that succeeds decides.
    cases hsymbol : Content.symbol? (letter a) with
    | some kind => exact hnext.symbol_finds ha hsymbol
    | none =>
    cases hcomparison : Content.comparison? (letter a) with
    | some kinds => exact hnext.comparison_finds ha hcomparison
    | none =>
    simp only
    split
    · next hquote =>
      obtain rfl := hquote
      exact hnext.string_finds hplace
    next hquote =>
    split
    · next hnewline =>
      obtain rfl := hnewline
      exact finds_of_gap rfl (ofGlyphs_letter ha _) (Text.ofGlyphs_glyphs ahead)
        ⟨_, rfl, newline hnext.at hnext.file hnext.line hnext.tokens hnext.errors⟩
    next hnewline =>
    split
    · next hspace =>
      have hfront : Content.front (letter a) ahead.glyphs = (.gap, 0) := by
        rw [Content.front.eq_def]
        exact if_pos hspace
      exact finds_of_gap hfront (ofGlyphs_letter ha _) (Text.ofGlyphs_glyphs ahead)
        ⟨_, rfl, hnext.stands (by simpa using Ne.symm hnewline)⟩
    next hspace =>
    split
    · next hdigit => exact hnext.number_finds hdigit
    next hdigit =>
    split
    · next hletter => exact hnext.identifier_finds hletter
    next hletter =>
    -- No test of the scanner succeeded, so no character begins a piece here either.
    have hword : ∀ a : UInt8, a < 0x80 → ¬Text.isDecimal a = true → ¬isLetter a = true →
        (letter a).isWord = false := Glyph.forall_byte (by decide +kernel)
    have hquoted : ∀ a : UInt8, a < 0x80 → a ≠ Text.quote → letter a ≠ .char '"' :=
      Glyph.forall_byte (by decide +kernel)
    exact hnext.unexpected_finds (glyphs_cons_letter ha ahead) (Content.begins_eq_false
      (Bool.eq_false_iff.mpr hspace) (hword a ha hdigit hletter) (hquoted a ha hquote) hsymbol hcomparison)
  -- Past `0x80` every test of a byte fails, and the whole character is refused.
  · have hall : ∀ a : UInt8, ¬a < 0x80 → Content.symbol? (letter a) = none
        ∧ Content.comparison? (letter a) = none ∧ a ≠ Text.quote ∧ a ≠ Text.newline
        ∧ ¬(letter a).isSpace = true ∧ ¬Text.isDecimal a = true ∧ ¬isLetter a = true :=
      Glyph.forall_byte (by decide +kernel)
    obtain ⟨hsymbol, hcomparison, hquote, hnewline, hspace, hdigit, hletter⟩ := hall a ha
    rw [hsymbol, hcomparison]
    simp only
    rw [if_neg hquote, if_neg hnewline, if_neg hspace, if_neg hdigit, if_neg hletter]
    exact hnext.unexpected_finds hglyphs (begins_of_not_ascii ha hglyphs)

end Tokens

/-! ## The whole source -/

/-- **The scanner finds the pieces in front of it, one after the other, and comes to the end.** -/
theorem Stands.loop_scanNext : ∀ {s : Scanner} {tokens : List Token} {errors : List Diagnostic}
    (hs gs : List Glyph), source.glyphs = gs ++ hs →
    s.Stands file (Text.ofGlyphs gs) (Text.ofGlyphs hs) tokens errors →
    Arrives (s.loop (fun s => !s.isAtEnd) scanNext) file source []
      (tokens ++ (piecesFrom 0 (Position.start.after gs) hs).filterMap Piece.token?)
      (errors ++ ((piecesFrom 0 (Position.start.after gs) hs).filterMap Piece.diagnostic?).map
        (·.placed file))
  -- Behind the last character the loop stops.
  | s, tokens, errors, [], gs, hsource, h => by
      have hend : Text.ofGlyphs gs = source := by
        rw [← Text.ofGlyphs_glyphs source, hsource, List.append_nil]
      rw [hend, Text.ofGlyphs_nil] at h
      have htest : (!s.isAtEnd) = false := by rw [h.at.isAtEnd]; rfl
      exact ⟨s, loop_done htest, by simpa [piecesFrom] using h⟩
  | s, tokens, errors, g :: rest, gs, hsource, h => by
      have hglyphs := Text.glyphs_suffix hsource
      have hbefore := Text.after_eq_endPlace hsource
      have hall := Text.after_eq_endPlace (hsource.trans (List.append_nil _).symm)
      rw [Position.after_append, hbefore, Text.ofGlyphs_append] at hall
      obtain ⟨a, ahead, hbytes⟩ := List.exists_cons_of_ne_nil
        (List.ne_nil_of_length_pos (Text.length_ofGlyphs_pos (List.cons_ne_nil g rest)))
      rw [hbytes] at h hglyphs hall
      -- One step finds the piece in front and stands behind it, which is where the next one starts.
      obtain ⟨s₁, hstep, h₁⟩ := h.scanNext_finds hglyphs hall
      have htest : (!s.isAtEnd) = true := by rw [h.at.isAtEnd]; rfl
      have hsplit : source.glyphs = (gs ++ g :: rest.take (Content.front g rest).2)
          ++ rest.drop (Content.front g rest).2 := by simp [hsource]
      rw [Piece.text, ← Text.ofGlyphs_append] at h₁
      obtain ⟨s', hloop, h'⟩ := loop_scanNext _ _ hsplit h₁
      have hcut : a :: ahead = Text.ofGlyphs (g :: rest.take (Content.front g rest).2)
          ++ Text.ofGlyphs (rest.drop (Content.front g rest).2) := by
        rw [← hbytes, ← Text.ofGlyphs_append, List.cons_append, List.take_append_drop]
      have hfront := Text.length_ofGlyphs_pos
        (List.cons_ne_nil g (rest.take (Content.front g rest).2))
      -- A piece has a byte at least, so the loop goes on only with fewer bytes left.
      have hleft := h.at.left_lt h₁.at (by rw [hcut, List.length_append]; omega)
      refine ⟨s', (loop_succ htest hstep hleft).trans hloop, ?_⟩
      rw [piecesFrom, piecesFrom_skip rest]
      rw [Position.after_append, Position.after_cons] at h'
      have hpiece : pieceAt (Text.ofGlyphs gs) g rest = ⟨(Content.front g rest).1,
          Position.start.after gs, g :: rest.take (Content.front g rest).2⟩ := by
        rw [pieceAt, hbefore]
      rw [hpiece] at h'
      simpa only [List.filterMap_eq_flatMap_toList, List.flatMap_cons, List.append_assoc,
        List.map_append, Option.toList_map] using h'
  termination_by _ _ _ hs => hs.length

/-! ### The `#!` line -/

/-- The same test the other way round. -/
theorem asks_not_atEnd_peek_ne (b : UInt8) : Asks (fun s => !s.isAtEnd && s.peek ≠ b) (· ≠ b) := by
  intro s before ahead h
  simp only [h.peek, h.isAtEnd]
  cases ahead <;> simp

/-- A scanner starts at the front. -/
theorem stands_ofSource (file source : Text) : (ofSource file source).Stands file [] source [] [] :=
  ⟨rfl, rfl, rfl, rfl, rfl, rfl, rfl⟩

/-- The characters of the `#!` line, by its bytes. -/
theorem hashBang_glyphs (t : Text) : hashBang (Text.glyphs (0x23 :: 0x21 :: t))
    = (Text.glyphs (0x23 :: 0x21 :: t)).takeWhile (· ≠ .char '\n') := by
  rw [glyphs_cons_letter (by decide), glyphs_cons_letter (by decide)]
  rfl

/-- A source without the mark has no such line. -/
theorem hashBang_eq_nil (h : ∀ t, source ≠ 0x23 :: 0x21 :: t) : hashBang source.glyphs = [] := by
  generalize hglyphs : source.glyphs = gs
  unfold hashBang
  split
  · next rest =>
    refine absurd ?_ (h (Text.ofGlyphs rest))
    rw [← Text.ofGlyphs_glyphs source, hglyphs]
    rfl
  · rfl

/-- **The `#!` line is passed.** -/
theorem skipHashBang_arrives (file source : Text) :
    Arrives (ofSource file source).skipHashBang file (Text.ofGlyphs (hashBang source.glyphs))
      (Text.ofGlyphs (source.glyphs.drop (hashBang source.glyphs).length)) [] [] := by
  have hstands := stands_ofSource file source
  by_cases hbang : ∃ t, source = 0x23 :: 0x21 :: t
  · obtain ⟨t, rfl⟩ := hbang
    obtain ⟨s, hloop, h⟩ := hstands.within.loop_skip (asks_not_atEnd_peek_ne Text.newline)
    rw [hashBang_glyphs, told_newline.takeWhile, told_newline.drop, Text.ofGlyphs_glyphs]
    refine ⟨s, ?_, h.stands (newline_not_mem_takeWhile (by simp) _)⟩
    rw [skipHashBang, if_pos (by simp [ofSource])]
    exact hloop
  · have hnone : ∀ t, source ≠ 0x23 :: 0x21 :: t := fun t ht => hbang ⟨t, ht⟩
    rw [hashBang_eq_nil hnone]
    refine ⟨_, ?_, by simpa using hstands⟩
    rw [skipHashBang, if_neg]
    simp only [ofSource, Bool.and_eq_true, decide_eq_true_eq]
    rintro ⟨⟨-, hfirst⟩, hsecond⟩
    match source, hnone, hfirst, hsecond with
    | [], _, hfirst, _ => simp at hfirst
    | [_], _, _, hsecond => simp at hsecond
    | a :: b :: t, hnone, hfirst, hsecond =>
      obtain rfl : a = 0x23 := by simpa using hfirst
      obtain rfl : b = 0x21 := by simpa using hsecond
      exact hnone t rfl

/-! ### Tokens and mistakes -/

/-- **The scanner comes to the end of every source, with the tokens and the mistakes of its pieces.** -/
theorem scanTokens_eq_scan (file source : Text) : ∃ s, (ofSource file source).scanTokens = some s
    ∧ s.tokens.toList = (scan source).tokens
    ∧ s.errors.toList = (scan source).diagnostics.map (·.placed file) := by
  have hbang := List.prefix_iff_eq_append.mp (hashBang_isPrefix source.glyphs)
  obtain ⟨s₁, hskip, h₁⟩ := skipHashBang_arrives file source
  obtain ⟨s₂, hloop, h₂⟩ := h₁.loop_scanNext _ _ hbang.symm
  have hcolumn := column_eq h₂.source h₂.lineStart h₂.current
  have hend := Text.after_eq_endPlace (List.append_nil source.glyphs).symm
  rw [Text.ofGlyphs_glyphs] at hend
  have hgap : (pieces source.glyphs).filterMap Piece.token?
        = (piecesFrom 0 (Position.start.after (hashBang source.glyphs))
          (source.glyphs.drop (hashBang source.glyphs).length)).filterMap Piece.token?
      ∧ (pieces source.glyphs).filterMap Piece.diagnostic?
        = (piecesFrom 0 (Position.start.after (hashBang source.glyphs))
          (source.glyphs.drop (hashBang source.glyphs).length)).filterMap Piece.diagnostic? := by
    unfold pieces
    simp only
    split
    · next hnil => simp [hnil]
    · exact ⟨List.filterMap_cons_none rfl, List.filterMap_cons_none rfl⟩
  refine ⟨{ s₂ with tokens := s₂.tokens.push ⟨.endOfSource, [], source.endPlace⟩ }, ?_, ?_, ?_⟩
  · rw [scanTokens, hskip]
    simp only [Option.bind_eq_bind, Option.bind_some, hloop, hcolumn]
    rw [h₂.line]
    rfl
  · rw [Array.toList_push, h₂.tokens, scan, hgap.1, hend]
    rfl
  · rw [h₂.errors, scan, hgap.2]
    rfl

end Scanner

/-- The tokens that are listed are those that are parsed. -/
theorem tokensOf_eq (source : Text) : tokensOf source
    = { scan source with diagnostics := (scan source).diagnostics.map (·.attach source) } := by
  obtain ⟨s, hs, htokens, herrors⟩ := Scanner.scanTokens_eq_scan [] source
  have hplaced : (scan source).diagnostics.map (·.placed []) = (scan source).diagnostics :=
    List.map_id _
  rw [tokensOf, hs]
  simp only [htokens, herrors, hplaced]

namespace Scanner

/-- **The scanner comes to the end of every source and loses no byte of it**: the source is laid out as
its tokens and mistakes say, and every token stands where its place says. -/
theorem scanTokens_laid (file source : Text) : ∃ s mistakes,
    (ofSource file source).scanTokens = some s ∧ Laid [] source s.tokens.toList mistakes
      ∧ s.errors.toList = mistakes.map (·.placed file) := by
  obtain ⟨s, hs, htokens, herrors⟩ := scanTokens_eq_scan file source
  refine ⟨s, (scan source).diagnostics, hs, ?_, herrors⟩
  rw [htokens]
  exact scan_laid source

end Scanner

end YouthLang

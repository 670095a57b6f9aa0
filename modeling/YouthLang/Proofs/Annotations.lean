import Mathlib
import YouthLang.Script
import YouthLang.Proofs.Scanning.Partition

/-!
# Proofs/Annotations — where the expectations of a script stand

A script is read twice: as a program, and line by line for the words `aside expect`.  In a source
without lexical mistakes these words stand in a comment, but they may also stand inside a string, or the
first of them may be the end of a longer name (`Content.Holding`, `annotated_of_occurrence`).  Where all
that are found stand in comments, what the tokens say makes no difference: with their characters veiled,
the source has the same expectations (`ofLines_veiled`).
-/

namespace YouthLang

open Annotation

/-! ## The first occurrence -/

namespace Text

variable {needle t front behind : Text}

theorem cut_eq_none_iff (hneedle : needle ≠ []) : cut needle t = none ↔ ¬ needle <:+: t := by
  induction t with
  | nil => simp [cut, hneedle]
  | cons c rest ih =>
    rw [cut, List.infix_cons_iff, not_or, ← ih]
    split
    · next h => simp [List.isPrefixOf_iff_prefix.mp h]
    · next h => simp [mt List.isPrefixOf_iff_prefix.mpr h]

/-- The first occurrence of a needle is one, and none starts in front of it. -/
theorem of_cut (h : cut needle t = some (front, behind)) : t = front ++ (needle ++ behind)
    ∧ ∀ x y, t = x ++ (needle ++ y) → front.length ≤ x.length := by
  induction t generalizing front with
  | nil =>
    simp only [cut, Option.ite_none_right_eq_some, List.isEmpty_iff, Option.some.injEq,
      Prod.mk.injEq] at h
    obtain ⟨rfl, rfl, rfl⟩ := h
    simp
  | cons c rest ih =>
    rw [cut] at h
    split at h
    · next hstarts =>
      obtain ⟨rfl, rfl⟩ := Prod.mk.inj (Option.some.inj h)
      have hstarts := List.prefix_iff_eq_append.mp (List.isPrefixOf_iff_prefix.mp hstarts)
      exact ⟨hstarts.symm, fun _ _ _ => Nat.zero_le _⟩
    · next hstarts =>
      obtain ⟨⟨front, behind'⟩, hcut, heq⟩ := Option.map_eq_some_iff.mp h
      obtain ⟨rfl, rfl⟩ := Prod.mk.inj heq
      obtain ⟨hrest, hfirst⟩ := ih hcut
      refine ⟨by rw [hrest, List.cons_append], fun x y hxy => ?_⟩
      cases x with
      | nil => exact absurd (List.isPrefixOf_iff_prefix.mpr ⟨y, hxy.symm⟩) hstarts
      | cons d x => exact Nat.succ_le_succ (hfirst x y (List.cons.inj hxy).2)

/-- An occurrence in front of which none starts is the first one. -/
theorem cut_eq_some (hneedle : needle ≠ []) (h : t = front ++ (needle ++ behind))
    (hfirst : ∀ x y, t = x ++ (needle ++ y) → front.length ≤ x.length) :
    cut needle t = some (front, behind) := by
  cases hcut : cut needle t with
  | none =>
    refine absurd ⟨front, behind, ?_⟩ ((cut_eq_none_iff hneedle).mp hcut)
    rw [h, List.append_assoc]
  | some found =>
    obtain ⟨front', behind'⟩ := found
    obtain ⟨ht, hfirst'⟩ := of_cut hcut
    have hlength : front'.length = front.length :=
      Nat.le_antisymm (hfirst' _ _ h) (hfirst _ _ ht)
    obtain ⟨rfl, hrest⟩ := List.append_inj (ht.symm.trans h) hlength
    rw [List.append_cancel_left hrest]

end Text

/-! ## What holds the words

The words have no quote and no newline in them, so one piece holds all of them, or a name ends with
the first of them. -/

theorem marker_glyphs : marker.glyphs
    = commentWord.glyphs ++ .char ' ' :: Text.glyphs "expect" := by decide

theorem marker_ascii : ∀ b ∈ marker, b < 0x80 := by
  have h : marker.all (· < 0x80) = true := by decide
  simpa using h

/-- What a piece is and what its characters are, given that the words `aside expect` start in it, some
characters behind its start: a comment to the end of the line, a string that goes on behind the words,
or a name that ends in `aside`. -/
inductive Content.Holding (front behind : List Glyph) : Content → List Glyph → Prop
  | comment : Holding front behind .gap
      (front ++ (marker.glyphs ++ behind).takeWhile (· ≠ .char '\n'))
  | string {value : Text} {more : List Glyph} (hfront : front ≠ []) (hmore : more ≠ []) :
      Holding front behind (.token (.string value)) (front ++ (marker.glyphs ++ more))
  | name (hfront : front ≠ []) :
      Holding front behind (.token .identifier) (front ++ commentWord.glyphs)

/-- A run that reaches past the front takes in the front. -/
theorem takeWhile_append_of_le {α : Type} {P : α → Bool} {front more : List α}
    (h : front.length ≤ ((front ++ more).takeWhile P).length) :
    (front ++ more).takeWhile P = front ++ more.takeWhile P := by
  rw [List.takeWhile_append] at h ⊢
  split at h
  · next heq => rw [if_pos heq]
  · next hne =>
    exact absurd (Nat.le_antisymm (List.takeWhile_prefix P).length_le h) hne

namespace Content

variable {first : Glyph} {rest front behind : List Glyph}

/-- No word of the language is longer than `aside` and ends in it. -/
theorem lookup_of_suffix {spelling : Text} (h : commentWord <:+ spelling) :
    keywords.lookup spelling = none := by
  have hnone : ∀ entry ∈ keywords, ¬ commentWord <:+ entry.1 := by decide
  rw [List.lookup_eq_none_iff]
  intro entry hentry
  simp only [bne_iff_ne, ne_eq]
  rintro rfl
  exact hnone entry hentry h

/-- The longest run of a kind, where it takes in all that stands in front of the words. -/
theorem run_eq {P : Glyph → Bool} {more : List Glyph} (hfirst : P first = true)
    (h : first :: rest = front ++ more) (hle : front.length ≤ (rest.takeWhile P).length) :
    first :: rest.takeWhile P = front ++ more.takeWhile P := by
  have hrun : first :: rest.takeWhile P = (front ++ more).takeWhile P := by
    rw [← h, List.takeWhile_cons_of_pos hfirst]
  rw [hrun]
  exact takeWhile_append_of_le (by rw [← hrun]; exact Nat.le_succ_of_le hle)

theorem take_takeWhile (P : Glyph → Bool) :
    rest.take (rest.takeWhile P).length = rest.takeWhile P :=
  (List.prefix_iff_eq_take.mp (List.takeWhile_prefix P)).symm

/-- A word that the words stand in is the start of a comment, or a name that ends in the first of
them. -/
theorem word_holding (hletter : first.isLetter = true)
    (h : first :: rest = front ++ (marker.glyphs ++ behind))
    (hle : front.length ≤ (word first rest).2) :
    Holding front behind (word first rest).1 (first :: rest.take (word first rest).2) := by
  unfold word at hle ⊢
  simp only at hle ⊢
  split at hle
  · next hspelling =>
    have hline : first ≠ .char '\n' := by
      rintro rfl
      exact absurd hletter (by decide)
    rw [if_pos hspelling, take_takeWhile, run_eq (decide_eq_true hline) h hle]
    exact .comment
  · next hspelling =>
    have hwhole := run_eq (P := Glyph.isWord) (by simp [Glyph.isWord, hletter]) h hle
    have haside : (marker.glyphs ++ behind).takeWhile Glyph.isWord
        = commentWord.glyphs := by
      rw [marker_glyphs]
      rfl
    rw [haside] at hwhole
    have hfront : front ≠ [] := by
      rintro rfl
      rw [hwhole] at hspelling
      exact hspelling (by simp)
    rw [if_neg hspelling, take_takeWhile, hwhole,
      lookup_of_suffix ⟨Text.ofGlyphs front, by simp⟩]
    exact .name hfront

/-- A string that is closed goes on to the next quote. -/
theorem string_closed (h : ∀ cause, (string rest).1 ≠ .refused cause) :
    ∃ body closing more, rest.takeWhile (· ≠ .char '"') = body ∧ rest = body ++ closing :: more
      ∧ string rest = (.token (.string (Text.ofGlyphs body)), body.length + 1) := by
  unfold string at h ⊢
  simp only at h ⊢
  split at h
  · exact absurd rfl (h .unterminatedString)
  · next hlt =>
    obtain ⟨more, hmore⟩ := List.takeWhile_prefix (l := rest) (· ≠ Glyph.char '"')
    cases more with
    | nil =>
      rw [List.append_nil] at hmore
      exact absurd (by rw [hmore]) hlt
    | cons closing more => exact ⟨_, closing, more, rfl, hmore.symm, by rw [if_neg hlt]⟩

/-- A string that the words stand in goes on behind them. -/
theorem string_holding (h : .char '"' :: rest = front ++ (marker.glyphs ++ behind))
    (hle : front.length ≤ (string rest).2) (hclosed : ∀ cause, (string rest).1 ≠ .refused cause) :
    Holding front behind (string rest).1 (.char '"' :: rest.take (string rest).2) := by
  obtain ⟨body, closing, more, hbody, hrest, hstring⟩ := string_closed hclosed
  rw [hstring] at hle ⊢
  cases front with
  | nil => exact absurd (List.cons.inj h).1 (by decide)
  | cons quote front =>
    obtain ⟨rfl, hfront⟩ := List.cons.inj h
    have hmarker : (marker.glyphs ++ behind).takeWhile (· ≠ .char '"')
        = marker.glyphs ++ behind.takeWhile (· ≠ .char '"') := by
      rw [marker_glyphs]
      rfl
    have hwords : body = front
        ++ (marker.glyphs ++ behind.takeWhile (· ≠ .char '"')) := by
      rw [← hbody, hfront, ← hmarker]
      refine takeWhile_append_of_le ?_
      change front.length ≤ ((front.append _).takeWhile _).length
      rw [← hfront, hbody]
      exact Nat.le_of_succ_le_succ hle
    have htake : rest.take (body.length + 1)
        = front ++ (marker.glyphs ++ (behind.takeWhile (· ≠ .char '"') ++ [closing])) := by
      rw [hrest, List.take_length_add_append, hwords]
      simp
    rw [htake, ← List.cons_append]
    exact .string (by simp) (by simp)

/-- What a numeral takes behind its first digit are digits and a point. -/
theorem mem_numeral {g : Glyph} (hg : g ∈ rest.take (numeral first rest).2) :
    g.isDigit = true ∨ g = .char '.' := by
  have hdigit : ∀ gs : List Glyph, g ∈ gs.takeWhile Glyph.isDigit → g.isDigit = true :=
    fun gs hg => List.mem_takeWhile_imp hg
  rw [numeral_length, List.take_add] at hg
  rcases List.mem_append.mp hg with hg | hg
  · rw [take_takeWhile] at hg
    exact .inl (hdigit _ hg)
  · split at hg
    · simp at hg
    · next hplaces =>
      unfold fraction at hplaces hg
      split at hg
      · next places heq =>
        rw [heq, List.take_succ_cons, take_takeWhile] at hg
        rcases List.mem_cons.mp hg with rfl | hg
        · exact .inr rfl
        · exact .inl (hdigit _ hg)
      · next hnone =>
        split at hplaces
        · next heq => exact absurd heq (hnone _)
        · simp at hplaces

/-- Where the words start behind the first character, their first letter is among the others. -/
theorem letter_mem {n : Nat} (h : first :: rest = front ++ (marker.glyphs ++ behind))
    (hfront : front ≠ []) (hle : front.length ≤ n) : .char 'a' ∈ rest.take n := by
  obtain ⟨g, front, rfl⟩ := List.exists_cons_of_ne_nil hfront
  obtain ⟨m, rfl⟩ := Nat.exists_eq_add_of_le hle
  have hrest : rest = front ++ (marker.glyphs ++ behind) := (List.cons.inj h).2
  rw [hrest, List.length_cons, Nat.add_assoc, List.take_length_add_append, marker_glyphs,
    Nat.add_comm 1 m]
  exact List.mem_append_right _ List.mem_cons_self

/-- Only a word and a string have a letter behind their first character. -/
theorem front_of_letter (h : .char 'a' ∈ rest.take (Content.front first rest).2) :
    (first.isLetter = true ∧ Content.front first rest = word first rest)
      ∨ (first = .char '"' ∧ Content.front first rest = string rest) := by
  unfold Content.front at h ⊢
  split at h
  · simp at h
  next hspace =>
  split at h
  · exact absurd (mem_numeral h) (by decide)
  next hdigit =>
  split at h
  · next hletter => exact .inl ⟨hletter, by rw [if_neg hspace, if_neg hdigit, if_pos hletter]⟩
  next hletter =>
  split at h
  · next hquote =>
    exact .inr ⟨hquote, by rw [if_neg hspace, if_neg hdigit, if_neg hletter, if_pos hquote]⟩
  split at h
  · simp at h
  · split at h
    · next hequals =>
      cases rest with
      | nil => simp at h
      | cons g rest => simp_all
    · simp at h
  · split at h <;> simp at h

/-- **What holds the words `aside expect`**, unless it is refused. -/
theorem front_holding (h : first :: rest = front ++ (marker.glyphs ++ behind))
    (hle : front.length ≤ (Content.front first rest).2)
    (hclean : ∀ cause, (Content.front first rest).1 ≠ .refused cause) :
    Holding front behind (Content.front first rest).1
      (first :: rest.take (Content.front first rest).2) := by
  by_cases hfront : front = []
  · subst hfront
    obtain ⟨rfl, -⟩ := List.cons.inj h
    exact word_holding (by decide) h hle
  obtain ⟨hletter, hword⟩ | ⟨rfl, hstring⟩ := front_of_letter (letter_mem h hfront hle)
  · rw [hword] at hle ⊢
    exact word_holding hletter h hle
  · rw [hstring] at hle hclean ⊢
    exact string_holding h hle hclean

end Content

/-- The `#!` line is all that stands in front of the first newline. -/
theorem hashBang_eq {gs : List Glyph} (h : hashBang gs ≠ []) :
    hashBang gs = gs.takeWhile (· ≠ .char '\n') := by
  unfold hashBang at h ⊢
  split
  · rfl
  · next hnone =>
    split at h
    · exact absurd rfl (hnone _)
    · simp at h

theorem content_ne_refused {source : Text} (hclean : (scan source).diagnostics = []) {piece : Piece}
    (hpiece : piece ∈ pieces source.glyphs) (cause : LexicalCause) :
    piece.content ≠ .refused cause := by
  intro hcontent
  have := List.filterMap_eq_nil_iff.mp hclean piece hpiece
  simp [Piece.diagnostic?, hcontent] at this

/-- **Some piece of a source holds an occurrence of the words.** -/
theorem exists_holding {source front behind : Text} (hclean : (scan source).diagnostics = [])
    (h : source = front ++ (marker ++ behind)) : ∃ before piece rest inside,
    pieces source.glyphs = before ++ piece :: rest
      ∧ front.glyphs = before.flatMap Piece.glyphs ++ inside
      ∧ Content.Holding inside behind.glyphs piece.content piece.glyphs := by
  have hglyphs : source.glyphs = front.glyphs ++ (marker.glyphs ++ behind.glyphs) := by
    rw [h, ← Text.glyphs_append_of_ascii marker_ascii]
    exact Text.glyphs_append_ascii front _ (by decide)
  have hwhole := flatMap_glyphs_pieces source.glyphs
  have hin : front.glyphs.length < ((pieces source.glyphs).flatMap Piece.glyphs).length := by
    rw [hwhole, hglyphs, List.length_append, List.length_append, marker_glyphs,
      List.length_append, List.length_cons]
    omega
  -- The piece that the first letter of the words falls into.
  obtain ⟨before, piece, rest, hpieces, hle, hlt⟩ :=
    exists_of_lt_length_flatMap Piece.glyphs _ _ hin
  obtain ⟨inside, hinside⟩ : before.flatMap Piece.glyphs <+: front.glyphs := by
    refine List.prefix_of_prefix_length_le ?_ ⟨_, hglyphs.symm⟩ hle
    rw [← hwhole, hpieces, List.flatMap_append]
    exact List.prefix_append _ _
  refine ⟨before, piece, rest, inside, hpieces, hinside.symm, ?_⟩
  rw [← hinside, List.length_append, Nat.add_lt_add_iff_left] at hlt
  obtain ⟨rfl, hcontent, hbang⟩ | ⟨g, more, hmore, hcontent, hpiece⟩ := Piece.origin hpieces
  · have hbang' : hashBang source.glyphs ≠ [] := by
      rw [← hbang]
      exact List.ne_nil_of_length_pos (Nat.zero_lt_of_lt hlt)
    have hline : source.glyphs = inside ++ (marker.glyphs ++ behind.glyphs) := by
      rw [hglyphs, ← hinside]
      rfl
    rw [hbang, hashBang_eq hbang', hline] at hlt
    rw [hcontent, hbang, hashBang_eq hbang', hline, takeWhile_append_of_le (Nat.le_of_lt hlt)]
    exact .comment
  · have hfront : g :: more = inside ++ (marker.glyphs ++ behind.glyphs) := by
      rw [← List.append_cancel_left_eq (before.flatMap Piece.glyphs), ← hmore, hglyphs, ← hinside,
        List.append_assoc]
    have hmem : piece ∈ pieces source.glyphs := by simp [hpieces]
    rw [hpiece, List.length_cons, List.length_take] at hlt
    rw [hcontent, hpiece]
    refine Content.front_holding hfront (by omega) fun cause => ?_
    rw [← hcontent]
    exact content_ne_refused hclean hmem cause

/-! ## Where the words stand -/

/-- Where the words `aside expect` stand in a source: they start at one byte, and the line goes on up to
another. -/
inductive Annotated (source : Text) (first last : Nat) : Prop
  /-- In a comment; neither the words nor the rest of the line is a token's. -/
  | comment (h : Clear source first last)
  /-- Inside a string. -/
  | string {start : Nat} {t : Token} {value : Text} (ht : TokenAt source start t)
      (hkind : t.kind = .string value) (hstart : start < first)
      (hend : first + marker.length < start + t.lexeme.length)
  /-- At the end of a name and behind it. -/
  | name {start : Nat} {t : Token} (ht : TokenAt source start t) (hkind : t.kind = .identifier)
      (hstart : start < first) (hend : start + t.lexeme.length = first + commentWord.length)

/-- The rest of a line is read up to the newline. -/
theorem takeWhile_glyphs {line after : Text} (hline : Text.newline ∉ line)
    (hafter : after = [] ∨ ∃ more, after = Text.newline :: more) :
    (Text.glyphs (line ++ after)).takeWhile (· ≠ .char '\n') = line.glyphs := by
  have hall : ∀ g ∈ line.glyphs, (g ≠ .char '\n' : Bool) = true := by
    intro g hg
    rw [decide_eq_true_eq]
    rintro rfl
    exact Text.newline_not_mem_glyphs hline hg
  obtain rfl | ⟨more, rfl⟩ := hafter
  · rw [List.append_nil, List.takeWhile_eq_self_iff.mpr hall]
  · rw [Text.glyphs_append_newline, takeWhile_append_stop (by simp),
      List.takeWhile_eq_self_iff.mpr hall]

theorem annotated_of_occurrence {source front behind after : Text}
    (hclean : (scan source).diagnostics = [])
    (h : source = front ++ (marker ++ (behind ++ after)))
    (hbehind : Text.newline ∉ behind)
    (hafter : after = [] ∨ ∃ more, after = Text.newline :: more) :
    Annotated source front.length (front.length + (marker ++ behind).length) := by
  obtain ⟨before, piece, rest, inside, hpieces, hfront, hholding⟩ := exists_holding hclean h
  have hlength : front.length = (before.flatMap Piece.text).length + (Text.ofGlyphs inside).length := by
    rw [← Text.ofGlyphs_glyphs front, hfront, Text.ofGlyphs_append, Text.ofGlyphs_flatMap,
      List.length_append]
    rfl
  have htoken : ∀ kind, piece.content = .token kind →
      TokenAt source (before.flatMap Piece.text).length ⟨kind, piece.text, piece.place⟩ := by
    intro kind hkind
    exact ⟨before, piece, rest, hpieces, by simp [Piece.token?, hkind, Piece.text], rfl⟩
  generalize hcontent : piece.content = content, hglyphs : piece.glyphs = gs at hholding
  -- Where the marker stands is told by the piece that holds its first character.
  cases hholding with
  | comment =>
    have hline : Text.newline ∉ marker ++ behind := by
      rw [List.mem_append, not_or]
      exact ⟨by decide, hbehind⟩
    rw [← Text.glyphs_append_of_ascii marker_ascii, ← List.append_assoc,
      takeWhile_glyphs hline hafter] at hglyphs
    have htext : piece.text = Text.ofGlyphs inside ++ (marker ++ behind) := by
      rw [Piece.text, hglyphs, Text.ofGlyphs_append, Text.ofGlyphs_glyphs]
    refine .comment (clear_of_piece hpieces (by simp [Piece.token?, hcontent]) (by omega) ?_)
    simp only [htext, List.length_append]
    omega
  -- Both quotes are outside of it, so the string reaches further on either side.
  | @string value more hinside hmore =>
    have htext : piece.text = Text.ofGlyphs inside ++ (marker ++ Text.ofGlyphs more) := by
      simp [Piece.text, hglyphs]
    have hinside := Text.length_ofGlyphs_pos hinside
    have hmore := Text.length_ofGlyphs_pos hmore
    refine .string (htoken _ hcontent) rfl (by omega) ?_
    rw [htext, List.length_append, List.length_append]
    omega
  | name hinside =>
    have htext : piece.text = Text.ofGlyphs inside ++ commentWord := by
      simp [Piece.text, hglyphs]
    have hinside := Text.length_ofGlyphs_pos hinside
    refine .name (htoken _ hcontent) rfl (by omega) ?_
    rw [htext, List.length_append]
    omega

/-! ## Lines -/

/-- A part of a list that is cut at some of its members: it stands between two of them. -/
theorem splitOnP_getElem? {α : Type} {P : α → Bool} : ∀ (xs : List α) (i : Nat) (part : List α),
    (xs.splitOnP P)[i]? = some part → ∃ front after, xs = front ++ (part ++ after)
      ∧ front.length = (((xs.splitOnP P).take i).map (·.length + 1)).sum ∧ (∀ x ∈ part, P x = false)
      ∧ (after = [] ∨ ∃ x more, after = x :: more ∧ P x = true)
  | [], 0, part, h => by
      obtain rfl : [] = part := by simpa using h
      exact ⟨[], [], by simp⟩
  | [], i + 1, part, h => by simp at h
  | x :: xs, i, part, h => by
      rw [List.splitOnP_cons_eq_if_modifyHead] at h ⊢
      split at h
      · next hx =>
        rw [if_pos hx]
        cases i with
        | zero =>
          obtain rfl : [] = part := by simpa using h
          exact ⟨[], x :: xs, rfl, rfl, by simp, .inr ⟨x, xs, rfl, hx⟩⟩
        | succ i =>
          obtain ⟨front, after, hxs, hlength, hpart⟩ := splitOnP_getElem? xs i part (by simpa using h)
          refine ⟨x :: front, after, by rw [hxs]; rfl, ?_, hpart⟩
          simp [hlength, Nat.add_comm]
      · next hx =>
        rw [if_neg hx]
        obtain ⟨p, ps, hps⟩ := List.exists_cons_of_ne_nil (List.splitOnP_ne_nil P xs)
        rw [hps, List.modifyHead_cons] at h ⊢
        cases i with
        | zero =>
          obtain rfl : x :: p = part := by simpa using h
          obtain ⟨front, after, hxs, hlength, hpart, hafter⟩ :=
            splitOnP_getElem? xs 0 p (by rw [hps]; rfl)
          obtain rfl : front = [] := List.length_eq_zero_iff.mp hlength
          exact ⟨[], after, by rw [hxs]; rfl, rfl, by simpa [hx] using hpart, hafter⟩
        | succ i =>
          obtain ⟨front, after, hxs, hlength, hpart⟩ :=
            splitOnP_getElem? xs (i + 1) part (by rw [hps]; simpa using h)
          refine ⟨x :: front, after, by rw [hxs]; rfl, ?_, hpart⟩
          rw [List.length_cons, hlength, hps]
          simp
          omega

/-- The number of bytes in front of a line of a text. -/
def Text.lineStart (t : Text) (i : Nat) : Nat :=
  ((t.lines.take i).map (·.length + 1)).sum

/-- The lines of a text that is told byte by byte. -/
theorem Text.lines_map {α : Type} {f : α → UInt8} {P : α → Bool}
    (hf : ∀ x, P x = true ↔ f x = newline) (xs : List α) :
    Text.lines (xs.map f) = (xs.splitOnP P).map (·.map f) := by
  induction xs with
  | nil => rfl
  | cons x xs ih =>
    rw [List.map_cons, lines, splitOn, ← lines, ih, List.splitOnP_cons_eq_if_modifyHead]
    by_cases hx : f x = newline
    · rw [if_pos hx, if_pos ((hf x).mpr hx), List.map_cons, List.map_nil]
    · rw [if_neg hx, if_neg (mt (hf x).mp hx)]
      obtain ⟨p, ps, hps⟩ := List.exists_cons_of_ne_nil (List.splitOnP_ne_nil P xs)
      rw [hps]
      rfl

/-! ## Veiled tokens

Dots take the place of a token's bytes; its newlines stay, so the lines stay apart, and so does what
is in comments. -/

/-- The bytes of a piece, each with whether it is a token's. -/
def Piece.marked (p : Piece) : List (UInt8 × Bool) := p.text.map fun b => (b, p.token?.isSome)

/-- The bytes of a source, each with whether it is a token's. -/
def marked (source : Text) : List (UInt8 × Bool) := (pieces source.glyphs).flatMap Piece.marked

/-- A token's byte is hidden behind a dot, unless it ends a line. -/
def veil (m : UInt8 × Bool) : UInt8 := if m.2 && m.1 ≠ Text.newline then 0x2E else m.1

/-- A source whose tokens are dots all through, on as many lines. -/
def veiled (source : Text) : Text := (marked source).map veil

theorem map_fst_marked (source : Text) : (marked source).map Prod.fst = source := by
  have hpiece : (fun p : Piece => p.marked.map Prod.fst) = Piece.text := by
    funext p
    simp [Piece.marked, Function.comp_def]
  rw [marked, List.map_flatMap, hpiece, flatMap_text_pieces]

theorem length_flatMap_marked (ps : List Piece) :
    (ps.flatMap Piece.marked).length = (ps.flatMap Piece.text).length := by
  simp [List.length_flatMap, Piece.marked]

/-- A byte that is a token's is where a token is. -/
theorem Clear.not_marked {source : Text} {first last n : Nat} {m : UInt8 × Bool}
    (h : Clear source first last) (hm : (marked source)[n]? = some m) (hfirst : first ≤ n)
    (hlast : n < last) : m.2 = false := by
  obtain ⟨hlt, -⟩ := List.getElem?_eq_some_iff.mp hm
  obtain ⟨before, piece, behind, hpieces, hle, hlt'⟩ := exists_of_lt_length_flatMap _ _ _ hlt
  have hmem : m ∈ piece.marked := by
    rw [marked, hpieces, List.flatMap_append, List.flatMap_cons, List.getElem?_append_right hle,
      List.getElem?_append_left (by omega)] at hm
    exact List.mem_of_getElem? hm
  obtain ⟨b, -, rfl⟩ := List.mem_map.mp hmem
  cases ht : piece.token? with
  | none => simp
  | some t =>
    rw [length_flatMap_marked] at hle hlt'
    have hlexeme := (Piece.lexeme_of_token? ht).2
    have hlength : piece.marked.length = piece.text.length := by simp [Piece.marked]
    have := h _ t ⟨before, piece, behind, hpieces, ht, rfl⟩
    rw [hlexeme] at this
    omega

theorem veil_eq_newline_iff (m : UInt8 × Bool) : m.1 = Text.newline ↔ veil m = Text.newline := by
  unfold veil
  split
  · next h =>
    rw [Bool.and_eq_true, decide_eq_true_eq] at h
    exact iff_of_false h.2 (by decide)
  · rfl

/-- The words are not written with dots, so a veil hides occurrences and makes none. -/
theorem map_veil_eq_marker {ms : List (UInt8 × Bool)} (h : ms.map veil = marker) :
    ms.map Prod.fst = marker := by
  rw [← h]
  refine List.map_congr_left fun m hm => ?_
  have hdot : veil m ≠ 0x2E := by
    have hmem : veil m ∈ marker := h ▸ List.mem_map_of_mem hm
    rintro heq
    rw [heq] at hmem
    exact absurd hmem (by decide)
  unfold veil at hdot ⊢
  split
  · next hveiled => exact absurd (if_pos hveiled) hdot
  · rfl

theorem occurrence_of_veiled {ms : List (UInt8 × Bool)} {x y : Text}
    (h : ms.map veil = x ++ (marker ++ y)) :
    ∃ x' y', ms.map Prod.fst = x' ++ (marker ++ y') ∧ x'.length = x.length := by
  obtain ⟨front, rest, rfl, rfl, hrest⟩ := List.map_eq_append_iff.mp h
  obtain ⟨words, behind, rfl, hwords, -⟩ := List.map_eq_append_iff.mp hrest
  refine ⟨front.map Prod.fst, behind.map Prod.fst, ?_, by simp⟩
  rw [List.map_append, List.map_append, map_veil_eq_marker hwords]

/-- **A line whose words stand behind all tokens carries the same expectation without them.** -/
theorem ofLine?_veiled {ms : List (UInt8 × Bool)}
    (hclear : ∀ front behind, Text.cut marker (ms.map Prod.fst) = some (front, behind) →
      ∀ m ∈ ms.drop front.length, m.2 = false) :
    ofLine? (ms.map veil) = ofLine? (ms.map Prod.fst) := by
  have hmarker : marker ≠ [] := by decide
  unfold ofLine?
  cases hcut : Text.cut marker (ms.map Prod.fst) with
  | none =>
    have hnone : Text.cut marker (ms.map veil) = none := by
      rw [Text.cut_eq_none_iff hmarker] at hcut ⊢
      rintro ⟨x, y, hxy⟩
      obtain ⟨x', y', h, -⟩ := occurrence_of_veiled (hxy.symm.trans (List.append_assoc _ _ _))
      exact hcut ⟨x', y', by rw [h, List.append_assoc]⟩
    rw [hnone]
  | some found =>
    obtain ⟨front, behind⟩ := found
    obtain ⟨hline, hfirst⟩ := Text.of_cut hcut
    have hclear := hclear front behind hcut
    obtain ⟨hidden, shown, rfl, rfl, hshown⟩ := List.map_eq_append_iff.mp hline
    rw [List.length_map, List.drop_left] at hclear
    have hveil : shown.map veil = marker ++ behind := by
      rw [← hshown]
      refine List.map_congr_left fun m hm => ?_
      simp [veil, hclear m hm]
    -- What the veil leaves of the line in front has no earlier occurrence, for it would be one there.
    have hcut' : Text.cut marker ((hidden ++ shown).map veil)
        = some (hidden.map veil, behind) := by
      refine Text.cut_eq_some hmarker (by rw [List.map_append, hveil]) fun x y hxy => ?_
      obtain ⟨x', y', h, hlength⟩ := occurrence_of_veiled hxy
      rw [← hlength, List.length_map]
      simpa using hfirst x' y' h
    rw [hcut']
    rfl

/-- All occurrences that a reader of the lines finds stand in comments. -/
def InComments (source : Text) : Prop :=
  ∀ i line front behind, source.lines[i]? = some line →
    Text.cut marker line = some (front, behind) →
      Clear source (source.lineStart i + front.length) (source.lineStart i + line.length)

theorem ofLines_map {α : Type} {f g : α → Text} : ∀ (xs : List α) (number : Nat),
    (∀ x ∈ xs, ofLine? (f x) = ofLine? (g x)) →
      ofLines number (xs.map f) = ofLines number (xs.map g)
  | [], _, _ => rfl
  | x :: xs, number, h => by
      obtain ⟨hx, hxs⟩ := List.forall_mem_cons.mp h
      simp only [List.map_cons, ofLines, hx, ofLines_map xs (number + 1) hxs]

/-- The parts of a marked source that are its lines. -/
def markedLines (source : Text) : List (List (UInt8 × Bool)) :=
  (marked source).splitOnP fun m => m.1 = Text.newline

theorem lines_eq_markedLines (source : Text) :
    source.lines = (markedLines source).map (·.map Prod.fst) := by
  have h : Text.lines ((marked source).map Prod.fst) = (markedLines source).map (·.map Prod.fst) :=
    Text.lines_map (fun _ => decide_eq_true_iff) (marked source)
  rwa [map_fst_marked] at h

theorem lines_veiled (source : Text) :
    (veiled source).lines = (markedLines source).map (·.map veil) :=
  Text.lines_map (fun m => decide_eq_true_iff.trans (veil_eq_newline_iff m)) (marked source)

theorem lineStart_eq (source : Text) (i : Nat) :
    source.lineStart i = (((markedLines source).take i).map (·.length + 1)).sum := by
  rw [Text.lineStart, lines_eq_markedLines, ← List.map_take, List.map_map]
  simp [Function.comp_def]

/-- **Expectations that stand in comments are the same whatever the tokens say.** -/
theorem ofLines_veiled {source : Text} (h : InComments source) (number : Nat) :
    ofLines number (veiled source).lines = ofLines number source.lines := by
  rw [lines_veiled, lines_eq_markedLines]
  refine ofLines_map _ _ fun ms hms => ofLine?_veiled fun front behind hcut m hm => ?_
  obtain ⟨i, hi⟩ := List.getElem?_of_mem hms
  obtain ⟨ahead, after, hsource, hlength, -⟩ := splitOnP_getElem? _ i ms hi
  have hclear := h i (ms.map Prod.fst) front behind (by simp [lines_eq_markedLines, hi]) hcut
  obtain ⟨j, hj⟩ := List.getElem?_of_mem hm
  rw [List.getElem?_drop] at hj
  obtain ⟨hlt, -⟩ := List.getElem?_eq_some_iff.mp hj
  -- The byte's place in the source, from its place in the line.
  have hat : (marked source)[ahead.length + (front.length + j)]? = some m := by
    rw [hsource, List.getElem?_append_right (by omega), Nat.add_sub_cancel_left,
      List.getElem?_append_left hlt, hj]
  have hstart : source.lineStart i = ahead.length := (lineStart_eq source i).trans hlength.symm
  rw [hstart, List.length_map] at hclear
  exact hclear.not_marked hat (by omega) (by omega)

/-- The place of a line in a source. -/
theorem line_split {source line : Text} {i : Nat} (h : source.lines[i]? = some line) :
    ∃ ahead after, source = ahead ++ (line ++ after) ∧ ahead.length = source.lineStart i
      ∧ Text.newline ∉ line ∧ (after = [] ∨ ∃ more, after = Text.newline :: more) := by
  rw [lines_eq_markedLines, List.getElem?_map] at h
  obtain ⟨ms, hms, rfl⟩ := Option.map_eq_some_iff.mp h
  obtain ⟨ahead, after, hsource, hlength, hline, hafter⟩ := splitOnP_getElem? _ i ms hms
  refine ⟨ahead.map Prod.fst, after.map Prod.fst, ?_, ?_, ?_, ?_⟩
  · rw [← List.map_append, ← List.map_append, ← hsource, map_fst_marked]
  · rw [List.length_map, hlength, lineStart_eq]
    rfl
  · intro hmem
    obtain ⟨m, hm, heq⟩ := List.mem_map.mp hmem
    simpa [heq] using hline m hm
  · obtain rfl | ⟨m, more, rfl, hm⟩ := hafter
    · exact .inl rfl
    · exact .inr ⟨more.map Prod.fst, by simpa using hm⟩

/-- The expectations of a script, and nothing else of it. -/
theorem ofSource_veiled {source : Text} (h : InComments source) (path : Text) :
    Script.ofSource path (veiled source)
      = (Script.ofSource path source).map fun script => { script with source := veiled source } := by
  unfold Script.ofSource
  rw [ofLines_veiled h]
  cases ofLines 1 source.lines with
  | error e => rfl
  | ok annotations =>
    simp only [bind, Except.bind]
    split <;> rfl

/-- **Where the expectations of a script come from.**  In a source without lexical mistakes the words
that a line takes an expectation from stand in a comment, inside a string, or at the end of a name and
behind it.  Where all of them stand in comments, what the tokens say changes none of the expectations,
and not whether they make sense either. -/
theorem expectations_stand {source : Text} (h : (scan source).diagnostics = []) :
    (∀ i line found, source.lines[i]? = some line → ofLine? line = some found →
      ∃ front behind, Text.cut marker line = some (front, behind)
        ∧ Annotated source (source.lineStart i + front.length) (source.lineStart i + line.length))
    ∧ (InComments source → ∀ path, Script.ofSource path (veiled source)
      = (Script.ofSource path source).map fun script =>
        { script with source := veiled source }) := by
  refine ⟨fun i line found hline hfound => ?_, ofSource_veiled⟩
  obtain ⟨⟨front, behind⟩, hcut, -⟩ := Option.map_eq_some_iff.mp hfound
  refine ⟨front, behind, hcut, ?_⟩
  obtain ⟨ahead, after, hsource, hstart, hnewline, hafter⟩ := line_split hline
  obtain ⟨rfl, -⟩ := Text.of_cut hcut
  have hbehind : Text.newline ∉ behind := fun hmem => hnewline (by simp [hmem])
  have hplace : source = (ahead ++ front) ++ (marker ++ (behind ++ after)) := by
    simpa using hsource
  have := annotated_of_occurrence h hplace hbehind hafter
  rwa [List.length_append, hstart, Nat.add_assoc, ← List.length_append] at this

/-- A string is taken for a comment; and a comment is read whatever is printed in front of it. -/
theorem expectations_stand_string :
    (scan "tell \"aside expect: x\";").diagnostics = []
      ∧ ofLine? "tell \"aside expect: x\";" = some (.ok (.line "x\";"))
      ∧ Annotated "tell \"aside expect: x\";" 6 23
      ∧ (scan "tell \"a\"; aside expect: a").diagnostics = []
      ∧ InComments "tell \"a\"; aside expect: a"
      ∧ veiled "tell \"a\"; aside expect: a" = (".... .... aside expect: a" : String)
      ∧ Script.ofSource "s" (veiled "tell \"a\"; aside expect: a")
        = (Script.ofSource "s" "tell \"a\"; aside expect: a").map fun script =>
          { script with source := veiled "tell \"a\"; aside expect: a" } := by
  have hstring : (scan "tell \"aside expect: x\";").diagnostics = [] := by decide +kernel
  have hcomment : (scan "tell \"a\"; aside expect: a").diagnostics = [] := by decide +kernel
  have htaken : ofLine? "tell \"aside expect: x\";" = some (.ok (.line "x\";")) := by
    decide +kernel
  have hstands : InComments "tell \"a\"; aside expect: a" := by
    intro i line front behind hline hcut
    have hlines : Text.lines "tell \"a\"; aside expect: a"
        = [Text.ofString "tell \"a\"; aside expect: a"] := by decide +kernel
    obtain ⟨rfl, rfl⟩ : i = 0 ∧ line = "tell \"a\"; aside expect: a" := by
      rw [hlines, List.getElem?_singleton] at hline
      simpa [eq_comm] using hline
    have hfront : Text.cut marker "tell \"a\"; aside expect: a"
        = some (Text.ofString "tell \"a\"; ", Text.ofString ": a") := by decide +kernel
    obtain ⟨rfl, rfl⟩ := Prod.mk.inj (Option.some.inj (hcut.symm.trans hfront))
    have hpieces : pieces (Text.glyphs "tell \"a\"; aside expect: a")
        = (pieces (Text.glyphs "tell \"a\"; aside expect: a")).take 5
          ++ ⟨.gap, ⟨1, 11⟩, Text.glyphs "aside expect: a"⟩ :: [] := by rfl
    exact clear_of_piece hpieces rfl (by decide +kernel) (by decide +kernel)
  refine ⟨hstring, htaken, ?_, hcomment, hstands, by decide +kernel,
    (expectations_stand hcomment).2 hstands "s"⟩
  obtain ⟨front, behind, hcut, hplace⟩ :=
    (expectations_stand hstring).1 0 _ _ (by decide +kernel) htaken
  have hfront : Text.cut marker "tell \"aside expect: x\";"
      = some (Text.ofString "tell \"", Text.ofString ": x\";") := by decide +kernel
  obtain ⟨rfl, rfl⟩ := Prod.mk.inj (Option.some.inj (hcut.symm.trans hfront))
  exact hplace

end YouthLang

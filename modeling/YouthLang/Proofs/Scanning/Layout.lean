import Mathlib.Data.List.DropRight
import YouthLang.Proofs.Scanning.Numeral
import YouthLang.Proofs.Scanning.Places

/-!
# Proofs/Scanning/Layout — how a source is laid out

A source is its tokens with runs of other bytes in front, between and behind: white space, comments,
the `#!` line, and the pieces that were refused, each with one mistake (`Laid`).  The place of a token
is told by the newlines in front of it and the characters since the last one (`Text.endPlace`); a run
of characters of a text is read again by itself (`Text.glyphs_infix`), so counting there is counting
in the source.
-/

namespace YouthLang

/-! ## Runs of characters -/

namespace Glyph

theorem readFrom_drop : ∀ (t : Text) (skip : Nat), readFrom skip t = Text.glyphs (t.drop skip)
  | [], skip => by simp [readFrom, Text.glyphs]
  | _ :: rest, skip + 1 => by simp [readFrom, readFrom_drop rest skip]
  | _ :: _, 0 => rfl

/-- A glyph is told by its own bytes, whatever is cut off behind them. -/
theorem front_take (a : UInt8) (rest : Text) {k : Nat} (hk : (front a rest).2 ≤ k) :
    front a (rest.take k) = front a rest := by
  unfold front at hk ⊢
  split
  · rfl
  · next hascii =>
    rw [if_neg hascii] at hk
    match rest, k with
    | [], _ => rw [List.take_nil]
    | [b], 0 => cases h : two? a b <;> simp [h] at hk ⊢
    | [_], _ + 1 => simp
    | [b, c], 0 => cases h : two? a b <;> cases h' : three? a b c <;> simp [h, h'] at hk ⊢
    | [b, c], 1 => cases h : two? a b <;> cases h' : three? a b c <;> simp [h, h'] at hk ⊢
    | [_, _], _ + 2 => simp
    | b :: c :: d :: _, 0 =>
      cases h : two? a b <;> cases h' : three? a b c <;> cases h'' : four? a b c d <;>
        simp [h, h', h''] at hk ⊢
    | b :: c :: d :: _, 1 =>
      cases h : two? a b <;> cases h' : three? a b c <;> cases h'' : four? a b c d <;>
        simp [h, h', h''] at hk ⊢
    | b :: c :: d :: _, 2 =>
      cases h : two? a b <;> cases h' : three? a b c <;> cases h'' : four? a b c d <;>
        simp [h, h', h''] at hk ⊢
    | _ :: _ :: _ :: _, _ + 3 => rfl

end Glyph

namespace Text

variable {t : Text} {g : Glyph} {gs hs before behind : List Glyph}

theorem glyphs_cons (a : UInt8) (rest : Text) : Text.glyphs (a :: rest)
    = (Glyph.front a rest).1 :: Text.glyphs (rest.drop (Glyph.front a rest).2) := by
  rw [← Glyph.readFrom_drop]
  rfl

/-- The end of a text, from a character on, is read as it was. -/
theorem glyphs_suffix (h : t.glyphs = gs ++ hs) : (ofGlyphs hs).glyphs = hs := by
  induction gs generalizing t with
  | nil =>
    obtain rfl : t.glyphs = hs := h
    rw [ofGlyphs_glyphs]
  | cons g gs ih =>
    cases t with
    | nil => exact absurd h (List.cons_ne_nil _ _).symm
    | cons a rest =>
      rw [glyphs_cons] at h
      exact ih (List.cons.inj h).2

/-- The start of a text, up to a character, is read as it was. -/
theorem glyphs_prefix (h : t.glyphs = gs ++ hs) : (ofGlyphs gs).glyphs = gs := by
  induction gs generalizing t with
  | nil => rfl
  | cons g gs ih =>
    cases t with
    | nil => exact absurd h (List.cons_ne_nil _ _).symm
    | cons a rest =>
      rw [glyphs_cons] at h
      obtain ⟨rfl, hrest⟩ := List.cons.inj h
      have hbytes : rest.drop (Glyph.front a rest).2 = ofGlyphs gs ++ ofGlyphs hs := by
        rw [← ofGlyphs_append, ← ofGlyphs_glyphs (rest.drop _)]
        exact congrArg ofGlyphs hrest
      -- the bytes of the first character, and those of the other ones
      have htake : rest.take (Glyph.front a rest).2 ++ ofGlyphs gs
          = rest.take ((Glyph.front a rest).2 + (ofGlyphs gs).length) := by
        rw [List.take_add, hbytes, List.take_left]
      have hfront := Glyph.front_take a rest (Nat.le_add_right _ (ofGlyphs gs).length)
      rw [ofGlyphs_cons, Glyph.encode_front, List.cons_append, htake, glyphs_cons, hfront, ← htake,
        List.drop_left' (List.length_take_of_le (Glyph.front_le a rest)), ih hrest]

/-- **A run of characters of a text is read by itself as it was.** -/
theorem glyphs_infix (h : t.glyphs = before ++ (gs ++ behind)) : (ofGlyphs gs).glyphs = gs :=
  glyphs_prefix (glyphs_suffix h)

/-! ## Places

The place of a piece is counted along the characters before it, which are those of the bytes before
it. -/

/-- The place behind some bytes: newlines count the lines, and characters since the last of them the
columns. -/
def endPlace (t : Text) : Position :=
  ⟨t.count newline + 1, (glyphs (t.rtakeWhile (· ≠ newline))).length + 1⟩

/-- A byte below `0x80` is in no character of a text but its own. -/
theorem not_mem_ofGlyphs {b : UInt8} (hb : b < 0x80) (hgs : ∀ g ∈ gs, g ∈ t.glyphs)
    (hne : ∀ g ∈ gs, g ≠ .char (Char.ofNat b.toNat)) : b ∉ ofGlyphs gs := by
  intro hmem
  obtain ⟨g, hg, hbyte⟩ := List.mem_flatMap.mp hmem
  exact hne g hg (eq_of_mem_encode hb hbyte (hgs g hg))

theorem rtakeWhile_append {α : Type} {p : α → Bool} (xs : List α) {ys : List α}
    (h : ∀ y ∈ ys, p y = true) : (xs ++ ys).rtakeWhile p = xs.rtakeWhile p ++ ys := by
  unfold List.rtakeWhile
  rw [List.reverse_append, List.takeWhile_append_of_pos (by simpa using h), List.reverse_append,
    List.reverse_reverse]

/-- **Walking over the characters of a text counts its lines and columns.** -/
theorem after_eq_endPlace (h : t.glyphs = gs ++ hs) :
    Position.start.after gs = (ofGlyphs gs).endPlace := by
  have hcounted : Position.start.after gs = ⟨(ofGlyphs gs).count newline + 1,
        (gs.rtakeWhile (· ≠ .char '\n')).length + 1⟩
      ∧ (ofGlyphs gs).rtakeWhile (· ≠ newline) = ofGlyphs (gs.rtakeWhile (· ≠ .char '\n')) := by
    induction gs using List.reverseRecOn generalizing hs with
    | nil => exact ⟨rfl, rfl⟩
    | append_singleton gs g ih =>
      rw [List.append_assoc] at h
      obtain ⟨hplace, hline⟩ := ih h
      rw [Position.after_append, hplace, ofGlyphs_append, List.count_append]
      by_cases hg : g = .char '\n'
      · subst hg
        rw [List.rtakeWhile_concat_neg _ _ _ (by simp)]
        have hbytes : ofGlyphs [Glyph.char '\n'] = [newline] := rfl
        rw [hbytes, List.rtakeWhile_concat_neg _ _ _ (by simp)]
        exact ⟨rfl, rfl⟩
      · have hmem : ∀ g' ∈ [g], g' ∈ t.glyphs := by simp [h]
        have hfree : newline ∉ ofGlyphs [g] := not_mem_ofGlyphs (by decide) hmem
          (List.forall_mem_singleton.mpr hg)
        rw [List.rtakeWhile_concat_pos _ _ _ (by simpa using hg), List.count_eq_zero.mpr hfree,
          rtakeWhile_append _ fun b hb => by simpa using ne_of_mem_of_not_mem hb hfree, hline,
          ofGlyphs_append]
        exact ⟨by simp [Position.next, hg], rfl⟩
  obtain ⟨hplace, hline⟩ := hcounted
  have hlast : glyphs ((ofGlyphs gs).rtakeWhile (· ≠ newline))
      = gs.rtakeWhile (· ≠ .char '\n') := by
    rw [hline]
    have hsplit : t.glyphs = gs.rdropWhile (· ≠ .char '\n')
        ++ (gs.rtakeWhile (· ≠ .char '\n') ++ hs) := by
      rw [h, ← List.append_assoc, List.rdropWhile_append_rtakeWhile]
    exact glyphs_infix hsplit
  rw [hplace, endPlace, hlast]

end Text

/-! ## What stands in front -/

/-- The characters that white space, a word, a numeral, a string or a symbol starts with. -/
def Glyph.begins (g : Glyph) : Bool :=
  g.isSpace || g.isWord || g ∈ Text.glyphs "\"(),.:;+-*/=!<>"

namespace Content

variable {first : Glyph} {rest : List Glyph}

/-- The ways to find what stands at the front of some characters. -/
inductive Cases (first : Glyph) (rest : List Glyph) : Content × Nat → Prop
  | space (h : first.isSpace = true) : Cases first rest (.gap, 0)
  | numeral (h : first.isDigit = true) : Cases first rest (numeral first rest)
  | word (h : first.isLetter = true) : Cases first rest (word first rest)
  | string (h : first = .char '"') : Cases first rest (string rest)
  | symbol {kind} (h : symbol? first = some kind) : Cases first rest (.token kind, 0)
  | comparison {alone withEqual} (h : comparison? first = some (alone, withEqual)) :
      Cases first rest (if rest.head? = some (.char '=') then (.token withEqual, 1)
        else (.token alone, 0))
  | unexpected {c} (h : first = .char c) (hbegins : first.begins = false) :
      Cases first rest (.refused (.unexpected c), 0)
  | stray {b} (h : first = .stray b) : Cases first rest (.refused .malformedEncoding, 0)

theorem begins_eq_false (hspace : first.isSpace = false) (hword : first.isWord = false)
    (hquote : first ≠ .char '"') (hsymbol : symbol? first = none)
    (hcomparison : comparison? first = none) : first.begins = false := by
  have hlist : Text.glyphs "\"(),.:;+-*/=!<>" = [.char '"', .char '(', .char ')', .char ',',
      .char '.', .char ':', .char ';', .char '+', .char '-', .char '*', .char '/', .char '=',
      .char '!', .char '<', .char '>'] := by decide
  have hnone : first ∉ Text.glyphs "\"(),.:;+-*/=!<>" := by
    intro hmem
    simp only [hlist, List.mem_cons, List.not_mem_nil, or_false] at hmem
    obtain rfl | rfl | rfl | rfl | rfl | rfl | rfl | rfl | rfl | rfl | rfl | rfl | rfl | rfl | rfl
      := hmem <;> simp [symbol?, comparison?] at hquote hsymbol hcomparison
  simp [Glyph.begins, hspace, hword, hnone]

theorem front_cases (first : Glyph) (rest : List Glyph) : Cases first rest (front first rest) := by
  unfold front
  split
  · next h => exact .space h
  next hspace =>
  split
  · next h => exact .numeral h
  next hdigit =>
  split
  · next h => exact .word h
  next hletter =>
  split
  · next h => exact .string h
  next hquote =>
  split
  · next h => exact .symbol h
  · next h => exact .comparison h
  · next hsymbol hcomparison =>
    have hword : first.isWord = false := by simp [Glyph.isWord, hletter, hdigit]
    have hbegins := begins_eq_false (Bool.eq_false_iff.mpr hspace) hword hquote hsymbol hcomparison
    cases first with
    | char c => exact .unexpected rfl hbegins
    | stray b => exact .stray rfl

end Content

/-! ## What is no token

Each kind of run says what it may contain and what has to follow it: a comment ends with its line,
and the `#!` line starts the source. -/

/-- Some bytes are at the end of a line: at a newline, or at the end of all. -/
def Text.EndsLine (behind : Text) : Prop := ∀ b ∈ behind.head?, b = Text.newline

/-- A run of bytes that says nothing, between the bytes in front of it and those behind: a blank, the
`#!` line at the very start, or a comment to the end of its line. -/
inductive Gap (before : Text) : Text → Text → Prop
  | blank {b behind} (h : b ∈ ([0x20, 0x09, 0x0D, Text.newline] : Text)) : Gap before [b] behind
  | hashBang {rest behind} (hbefore : before = []) (hline : Text.newline ∉ rest)
      (hend : behind.EndsLine) : Gap before ("#!" ++ rest) behind
  | comment {rest behind} (hword : ∀ g ∈ rest.glyphs.head?, g.isWord = false)
      (hline : Text.newline ∉ rest) (hend : behind.EndsLine) :
      Gap before (commentWord ++ rest) behind

/-- A run of bytes that is refused, and why: a byte that belongs to no character, a character that
nothing begins with, a numeral with no number near it, or a string that is open to the end. -/
inductive Refusal : LexicalCause → Text → Text → Prop
  | stray {b behind} (h : (Text.glyphs (b :: behind)).head? = some (.stray b)) :
      Refusal .malformedEncoding [b] behind
  | unexpected {c behind} (h : (Glyph.char c).begins = false) :
      Refusal (.unexpected c) (Glyph.char c).encode behind
  | numeral {whole fraction behind : Text} (hne : whole ≠ []) (hwhole : whole.IsDigits)
      (hfraction : fraction.IsDigits) (h : Number.ofNumeral? whole fraction = none) :
      Refusal (.unrepresentable (Text.numeral whole fraction)) (Text.numeral whole fraction) behind
  | string {body : Text} (h : Text.quote ∉ body) :
      Refusal .unterminatedString (Text.quote :: body) []

/-- The bytes in front of the place where a refused run is reported: an open string is reported at its
end, anything else at its start. -/
def LexicalCause.front (cause : LexicalCause) (before text : Text) : Text :=
  if cause = .unterminatedString then before ++ text else before

/-- The mistake of a refused run. -/
def Diagnostic.lexical (cause : LexicalCause) (p : Position) : Diagnostic :=
  { cause := .lexical cause, line := p.line, column := p.column }

/-- **How a source is laid out.**  Behind some bytes, others are laid out as tokens, with runs between
them that are no tokens; each refused run is one mistake.  A token stands at the end of the bytes in
front of it, and the mark of the end stands behind all bytes. -/
inductive Laid : Text → Text → List Token → List Diagnostic → Prop
  | ends (before : Text) : Laid before [] [⟨.endOfSource, [], before.endPlace⟩] []
  | token {before lexeme behind kind tokens mistakes} (hne : lexeme ≠ [])
      (hkind : kind ≠ .endOfSource)
      (hstring : ∀ value, kind = .string value → lexeme = Text.quote :: value ++ [Text.quote])
      (h : Laid (before ++ lexeme) behind tokens mistakes) :
      Laid before (lexeme ++ behind) (⟨kind, lexeme, before.endPlace⟩ :: tokens) mistakes
  | gap {before text behind tokens mistakes} (hgap : Gap before text behind)
      (h : Laid (before ++ text) behind tokens mistakes) :
      Laid before (text ++ behind) tokens mistakes
  | refused {before text behind cause tokens mistakes} (hrefusal : Refusal cause text behind)
      (h : Laid (before ++ text) behind tokens mistakes) :
      Laid before (text ++ behind) tokens
        (.lexical cause (cause.front before text).endPlace :: mistakes)

theorem drop_length_takeWhile {α : Type} (p : α → Bool) (xs : List α) :
    xs.drop (xs.takeWhile p).length = xs.dropWhile p :=
  List.append_cancel_left ((List.prefix_iff_eq_append.mp (List.takeWhile_prefix p)).trans
    List.takeWhile_append_dropWhile.symm)

/-- The rest of a line holds no newline, and a newline or nothing follows it. -/
theorem rest_of_line {t : Text} {before gs : List Glyph} (h : t.glyphs = before ++ gs) :
    Text.newline ∉ Text.ofGlyphs (gs.takeWhile (· ≠ .char '\n'))
      ∧ (Text.ofGlyphs (gs.drop (gs.takeWhile (· ≠ .char '\n')).length)).EndsLine := by
  constructor
  · have hmem : ∀ g ∈ gs.takeWhile (· ≠ .char '\n'), g ∈ t.glyphs := fun g hg => by
      rw [h]
      exact List.mem_append_right _ ((List.takeWhile_prefix _).subset hg)
    exact Text.not_mem_ofGlyphs (by decide) hmem fun g hg =>
      of_decide_eq_true (List.mem_takeWhile_imp hg :)
  · rw [drop_length_takeWhile]
    have hhead := List.head?_dropWhile_not (· ≠ Glyph.char '\n') gs
    cases hrest : gs.dropWhile (· ≠ Glyph.char '\n') with
    | nil => simp [Text.EndsLine]
    | cons g rest =>
      rw [hrest] at hhead
      obtain rfl : g = .char '\n' := by simpa using hhead
      simp [Text.EndsLine, Glyph.encode, Text.newline, String.utf8EncodeChar]

/-- The bytes of a word's characters. -/
theorem Glyph.isSpace_cases {g : Glyph} (h : g.isSpace = true) :
    ∃ b ∈ ([0x20, 0x09, 0x0D, Text.newline] : Text), g.encode = [b] := by
  simp only [isSpace, Bool.or_eq_true, decide_eq_true_eq] at h
  obtain ((rfl | rfl) | rfl) | rfl := h <;> exact ⟨_, by decide, rfl⟩

/-- The kinds of the tokens that stand for a value. -/
def TokenKind.hasValue : TokenKind → Bool
  | .string _ | .number _ => true
  | _ => false

namespace Content

variable {source : Text} {before rest : List Glyph} {first : Glyph}

/-- A comment is the word that opens it and the rest of its line. -/
theorem gap_of_comment (hsource : source.glyphs = before ++ first :: rest)
    (hspelling : Text.ofGlyphs (first :: rest.takeWhile Glyph.isWord) = commentWord) :
    Gap (Text.ofGlyphs before)
      (Text.ofGlyphs (first :: rest.take (rest.takeWhile (· ≠ .char '\n')).length))
      (Text.ofGlyphs (rest.drop (rest.takeWhile (· ≠ .char '\n')).length)) := by
  have hsplit : rest = rest.takeWhile Glyph.isWord ++ rest.dropWhile Glyph.isWord :=
    List.takeWhile_append_dropWhile.symm
  have hnext := List.head?_dropWhile_not Glyph.isWord rest
  have hword : ∀ g ∈ rest.takeWhile Glyph.isWord, decide (g ≠ .char '\n') = true := by
    intro g hg
    have := List.mem_takeWhile_imp hg
    rw [decide_eq_true_eq]
    rintro rfl
    exact absurd this (by decide)
  generalize rest.takeWhile Glyph.isWord = more at hsplit hspelling hword
  generalize rest.dropWhile Glyph.isWord = behind at hsplit hnext
  subst hsplit
  have hbehind : source.glyphs = (before ++ first :: more) ++ behind := by simp [hsource]
  obtain ⟨hline, hend⟩ := rest_of_line hbehind
  rw [List.takeWhile_append_of_pos hword, List.length_append, List.take_length_add_append,
    List.drop_length_add_append, ← List.prefix_iff_eq_take.mp (List.takeWhile_prefix _),
    ← List.cons_append, Text.ofGlyphs_append, hspelling]
  refine .comment (fun g hg => ?_) hline hend
  have hread : (Text.ofGlyphs (behind.takeWhile (· ≠ .char '\n'))).glyphs
      = behind.takeWhile (· ≠ .char '\n') := by
    have hsplit := List.prefix_iff_eq_append.mp (List.takeWhile_prefix (l := behind)
      (· ≠ Glyph.char '\n'))
    exact Text.glyphs_prefix ((Text.glyphs_suffix hbehind).trans hsplit.symm)
  rw [hread, List.head?_takeWhile] at hg
  rw [(Option.eq_some_of_filter_eq_some hg :)] at hnext
  exact hnext

/-- **What says nothing is a gap.** -/
theorem gap_of_front (hsource : source.glyphs = before ++ first :: rest)
    (h : (front first rest).1 = .gap) :
    Gap (Text.ofGlyphs before) (Text.ofGlyphs (first :: rest.take (front first rest).2))
      (Text.ofGlyphs (rest.drop (front first rest).2)) := by
  have hcases := front_cases first rest
  generalize front first rest = found at h hcases ⊢
  cases hcases with
  | space hspace =>
    obtain ⟨b, hb, hencode⟩ := Glyph.isSpace_cases hspace
    simpa [hencode] using Gap.blank hb
  | numeral hdigit =>
    obtain ⟨whole, fraction, -, -, -, -, hfound⟩ := @numeral_eq first rest hdigit
    rw [hfound] at h
    cases hvalue : Number.ofNumeral? whole fraction <;> simp [hvalue] at h
  | word hletter =>
    unfold word at h ⊢
    simp only at h ⊢
    split at h
    · next hspelling =>
      rw [if_pos hspelling]
      exact gap_of_comment hsource hspelling
    · simp at h
  | string hquote =>
    unfold string at h
    simp only at h
    split at h <;> simp at h
  | comparison _ => split at h <;> simp at h
  | symbol _ | unexpected _ _ | stray _ => simp at h

/-- **What is refused is refused for a reason.** -/
theorem refusal_of_front {cause : LexicalCause} (hsource : source.glyphs = before ++ first :: rest)
    (h : (front first rest).1 = .refused cause) :
    Refusal cause (Text.ofGlyphs (first :: rest.take (front first rest).2))
      (Text.ofGlyphs (rest.drop (front first rest).2)) := by
  have hcases := front_cases first rest
  generalize front first rest = found at h hcases ⊢
  cases hcases with
  | space hspace => simp at h
  -- A numeral is refused only when its value is beyond all numbers.
  | numeral hdigit =>
    obtain ⟨whole, fraction, hne, hwhole, hfraction, hspelled, hfound⟩ :=
      @numeral_eq first rest hdigit
    rw [hfound] at h
    rw [hspelled]
    cases hvalue : Number.ofNumeral? whole fraction with
    | some value => simp [hvalue] at h
    | none =>
      rw [hvalue] at h
      obtain rfl := (refused.inj h).symm
      exact .numeral hne hwhole hfraction hvalue
  | word hletter =>
    unfold word at h
    simp only at h
    split at h <;> simp at h
  -- A string is refused only when no quote follows at all.
  | string hquote =>
    unfold string at h ⊢
    simp only at h ⊢
    split at h
    · next hall =>
      obtain rfl := (refused.inj h).symm
      rw [if_pos hall, List.take_length, List.drop_length, Text.ofGlyphs_cons, hquote]
      have hopen := List.takeWhile_eq_self_iff.mp ((List.takeWhile_prefix _).eq_of_length hall)
      have hmem : ∀ g ∈ rest, g ∈ source.glyphs := fun g hg => by
        rw [hsource]
        exact List.mem_append_right _ (List.mem_cons_of_mem _ hg)
      exact .string (Text.not_mem_ofGlyphs (by decide) hmem fun g hg =>
        of_decide_eq_true (hopen g hg :))
    · simp at h
  | symbol _ => simp at h
  | comparison _ => split at h <;> simp at h
  | unexpected hfirst hbegins =>
    obtain rfl := (refused.inj h).symm
    subst hfirst
    simpa using Refusal.unexpected hbegins
  | stray hfirst =>
    obtain rfl := (refused.inj h).symm
    subst hfirst
    refine .stray ?_
    have hread := Text.glyphs_suffix hsource
    exact congrArg List.head? hread

/-- A word of the language has no value. -/
theorem lookup_hasValue {spelling : Text} {kind : TokenKind}
    (h : keywords.lookup spelling = some kind) : kind.hasValue = false := by
  obtain ⟨front, behind, heq, -⟩ := List.lookup_eq_some_iff.mp h
  have hall : ∀ entry ∈ keywords, entry.2.hasValue = false := by decide
  exact hall (spelling, kind) (by simp [heq])

theorem symbol?_hasValue {kind : TokenKind} (h : symbol? first = some kind) :
    kind.hasValue = false := by
  unfold symbol? at h
  split at h <;> first | (obtain rfl := Option.some.inj h; rfl) | exact absurd h (by simp)

theorem comparison?_hasValue {alone withEqual : TokenKind}
    (h : comparison? first = some (alone, withEqual)) :
    alone.hasValue = false ∧ withEqual.hasValue = false := by
  unfold comparison? at h
  split at h <;> simp only [Option.some.injEq, Prod.mk.injEq, reduceCtorEq] at h
  all_goals
    obtain ⟨rfl, rfl⟩ := h
    exact ⟨rfl, rfl⟩

/-- Tokens with a value, and how their value is spelled. -/
inductive Spells : TokenKind → Text → Prop
  | string {value text : Text} (htext : text = Text.quote :: value ++ [Text.quote]) :
      Spells (.string value) text
  | number {whole fraction text : Text} {value : Float} (hne : whole ≠ [])
      (hwhole : whole.IsDigits) (hfraction : fraction.IsDigits)
      (htext : text = Text.numeral whole fraction)
      (h : Number.ofNumeral? whole fraction = some value) : Spells (.number value) text

/-- A string that is closed has a quote behind its value. -/
theorem take_string (hclosed : (rest.takeWhile (· ≠ .char '"')).length ≠ rest.length) :
    rest.take ((rest.takeWhile (· ≠ .char '"')).length + 1)
      = rest.takeWhile (· ≠ .char '"') ++ [.char '"'] := by
  have hsplit := List.takeWhile_append_dropWhile (p := (· ≠ Glyph.char '"')) (l := rest)
  have hnext := List.head?_dropWhile_not (· ≠ Glyph.char '"') rest
  generalize rest.takeWhile (· ≠ .char '"') = body at hsplit hclosed ⊢
  generalize rest.dropWhile (· ≠ .char '"') = behind at hsplit hnext
  subst hsplit
  cases behind with
  | nil => simp at hclosed
  | cons g more =>
    obtain rfl : g = .char '"' := by simpa using hnext
    rw [List.take_length_add_append]
    rfl

/-- **The text of a token spells its value**: a string is its value between quotes, and a number is
the one that its digits stand for. -/
theorem spells_of_front {kind : TokenKind} (h : (front first rest).1 = .token kind)
    (hvalue : kind.hasValue = true) :
    Spells kind (Text.ofGlyphs (first :: rest.take (front first rest).2)) := by
  have hcases := front_cases first rest
  generalize front first rest = found at h hcases ⊢
  cases hcases with
  | space hspace => simp at h
  -- A numeral that fits has the value that its digits spell.
  | numeral hdigit =>
    obtain ⟨whole, fraction, hne, hwhole, hfraction, hspelled, hfound⟩ :=
      @numeral_eq first rest hdigit
    rw [hfound] at h
    cases hvalue' : Number.ofNumeral? whole fraction with
    | none => simp [hvalue'] at h
    | some value =>
      rw [hvalue'] at h
      obtain rfl := token.inj h
      exact .number hne hwhole hfraction hspelled hvalue'
  -- Words have no value: an identifier is its text and a keyword nothing more.
  | word hletter =>
    unfold word at h
    simp only at h
    split at h
    · simp at h
    · have hkind := token.inj h
      cases hlookup : keywords.lookup (Text.ofGlyphs (first :: rest.takeWhile Glyph.isWord)) with
      | none =>
        obtain rfl : .identifier = kind := by rwa [hlookup] at hkind
        exact absurd hvalue (by decide)
      | some found =>
        obtain rfl : found = kind := by rwa [hlookup] at hkind
        rw [lookup_hasValue hlookup] at hvalue
        exact absurd hvalue (by decide)
  -- A string's value is what stands between its quotes.
  | string hquote =>
    unfold string at h ⊢
    simp only at h ⊢
    split at h
    · simp at h
    · next hclosed =>
      obtain rfl := token.inj h
      rw [if_neg hclosed, hquote, take_string hclosed, ← List.cons_append, Text.ofGlyphs_append]
      exact .string rfl
  | symbol hsymbol =>
    obtain rfl := token.inj h
    rw [symbol?_hasValue hsymbol] at hvalue
    exact absurd hvalue (by decide)
  | comparison hcomparison =>
    have := comparison?_hasValue hcomparison
    split at h
    · obtain rfl := token.inj h
      rw [this.2] at hvalue
      exact absurd hvalue (by decide)
    · obtain rfl := token.inj h
      rw [this.1] at hvalue
      exact absurd hvalue (by decide)
  | unexpected _ _ | stray _ => simp at h

end Content

/-! ## Sources -/

theorem piecesFrom_skip : ∀ (gs : List Glyph) (skip : Nat) (p : Position),
    piecesFrom skip p gs = piecesFrom 0 (p.after (gs.take skip)) (gs.drop skip)
  | [], skip, p => by simp [piecesFrom]
  | g :: gs, skip + 1, p => by simp [piecesFrom, piecesFrom_skip gs skip (p.next g)]
  | g :: gs, 0, p => rfl

/-- A piece that is found in front of what is laid out is laid out with it. -/
theorem laid_piece {source : Text} {before rest : List Glyph} {g : Glyph} {tokens : List Token}
    {mistakes : List Diagnostic} (hsource : source.glyphs = before ++ g :: rest)
    (h : Laid (Text.ofGlyphs (before ++ g :: rest.take (Content.front g rest).2))
      (Text.ofGlyphs (rest.drop (Content.front g rest).2)) tokens mistakes) :
    let piece : Piece := ⟨(Content.front g rest).1, Position.start.after before,
      g :: rest.take (Content.front g rest).2⟩
    Laid (Text.ofGlyphs before) (Text.ofGlyphs (g :: rest)) (piece.token?.toList ++ tokens)
      (piece.diagnostic?.toList ++ mistakes) := by
  intro piece
  -- Both ends of the piece, told by the bytes before them.
  have hplace : piece.place = (Text.ofGlyphs before).endPlace := Text.after_eq_endPlace hsource
  have hsplit : source.glyphs = (before ++ piece.glyphs) ++ rest.drop (Content.front g rest).2 := by
    simp [piece, hsource]
  have hbehind : piece.place.after piece.glyphs
      = (Text.ofGlyphs before ++ Text.ofGlyphs piece.glyphs).endPlace := by
    rw [← Position.after_append, ← Text.ofGlyphs_append]
    exact Text.after_eq_endPlace hsplit
  have hbytes : Text.ofGlyphs (g :: rest) = Text.ofGlyphs piece.glyphs
      ++ Text.ofGlyphs (rest.drop (Content.front g rest).2) := by
    rw [← Text.ofGlyphs_append, List.cons_append, List.take_append_drop]
  rw [Text.ofGlyphs_append] at h
  rw [hbytes]
  -- What a piece gives depends on its content alone: nothing, a token or a mistake.
  cases hfront : (Content.front g rest).1 with
  | gap =>
    have htoken : piece.token? = none := by simp only [piece, Piece.token?, hfront]
    have hmistake : piece.diagnostic? = none := by simp only [piece, Piece.diagnostic?, hfront]
    rw [htoken, hmistake]
    exact .gap (Content.gap_of_front hsource hfront) h
  | token kind =>
    have htoken : piece.token?
        = some ⟨kind, Text.ofGlyphs piece.glyphs, (Text.ofGlyphs before).endPlace⟩ := by
      rw [← hplace]
      simp only [piece, Piece.token?, hfront]
    have hmistake : piece.diagnostic? = none := by simp only [piece, Piece.diagnostic?, hfront]
    rw [htoken, hmistake]
    refine .token ?_ ?_ ?_ h
    · exact List.ne_nil_of_length_pos (Text.length_ofGlyphs_pos (List.cons_ne_nil _ _))
    · rintro rfl
      exact Content.front_ne_endOfSource g rest hfront
    · rintro value rfl
      obtain ⟨htext⟩ := Content.spells_of_front hfront rfl
      exact htext
  | refused cause =>
    have htoken : piece.token? = none := by simp only [piece, Piece.token?, hfront]
    -- An open string is reported where it ends, everything else where it starts.
    have hspot : (if cause = .unterminatedString then piece.place.after piece.glyphs else piece.place)
        = (cause.front (Text.ofGlyphs before) (Text.ofGlyphs piece.glyphs)).endPlace := by
      unfold LexicalCause.front
      split
      · exact hbehind
      · exact hplace
    have hmistake : piece.diagnostic? = some (.lexical cause
        (cause.front (Text.ofGlyphs before) (Text.ofGlyphs piece.glyphs)).endPlace) := by
      rw [← hspot]
      simp only [piece, Piece.diagnostic?, hfront]
      rfl
    rw [htoken, hmistake]
    exact .refused (Content.refusal_of_front hsource hfront) h

/-- What is found behind some characters of a source is laid out there. -/
theorem laid_piecesFrom {source : Text} : ∀ (gs before : List Glyph),
    source.glyphs = before ++ gs →
    Laid (Text.ofGlyphs before) (Text.ofGlyphs gs)
      ((piecesFrom 0 (Position.start.after before) gs).filterMap Piece.token?
        ++ [⟨.endOfSource, [], Position.start.after source.glyphs⟩])
      ((piecesFrom 0 (Position.start.after before) gs).filterMap Piece.diagnostic?)
  | [], before, hsource => by
      rw [List.append_nil] at hsource
      rw [hsource, Text.after_eq_endPlace (hsource.trans (List.append_nil before).symm)]
      exact .ends _
  | g :: rest, before, hsource => by
      have hsplit : source.glyphs = (before ++ g :: rest.take (Content.front g rest).2)
          ++ rest.drop (Content.front g rest).2 := by simp [hsource]
      have hlaid := laid_piece hsource (laid_piecesFrom (rest.drop (Content.front g rest).2) _ hsplit)
      rw [Position.after_append, Position.after_cons] at hlaid
      rw [piecesFrom, piecesFrom_skip rest]
      simpa only [List.filterMap_eq_flatMap_toList, List.flatMap_cons, List.append_assoc] using hlaid
  termination_by gs => gs.length

/-- The `#!` line of a script is a gap. -/
theorem gap_of_hashBang {source : Text} (hne : hashBang source.glyphs ≠ []) :
    Gap [] (Text.ofGlyphs (hashBang source.glyphs))
      (Text.ofGlyphs (source.glyphs.drop (hashBang source.glyphs).length)) := by
  generalize hsource : source.glyphs = gs at hne ⊢
  unfold hashBang at hne
  split at hne
  · next rest =>
    obtain ⟨hline, hend⟩ := @rest_of_line source [.char '#', .char '!'] rest hsource
    have hmark : Text.ofGlyphs [.char '#', .char '!'] = Text.ofString "#!" := by decide
    have hspelled : Text.ofGlyphs (.char '#' :: .char '!' :: rest.takeWhile (· ≠ .char '\n'))
        = "#!" ++ Text.ofGlyphs (rest.takeWhile (· ≠ .char '\n')) := by
      rw [← hmark, ← Text.ofGlyphs_append]
      rfl
    rw [hashBang, hspelled]
    exact .hashBang rfl hline hend
  · exact absurd rfl hne

/-- **A source is laid out as its tokens and mistakes say**: no byte is lost, and every token stands
where its place says. -/
theorem scan_laid (source : Text) :
    Laid [] source (scan source).tokens (scan source).diagnostics := by
  have hsplit := List.prefix_iff_eq_append.mp (hashBang_isPrefix source.glyphs)
  unfold scan pieces
  simp only
  split
  · have hlaid := @laid_piecesFrom source source.glyphs [] rfl
    rwa [Text.ofGlyphs_glyphs] at hlaid
  · next hne =>
    have hlaid := laid_piecesFrom _ _ hsplit.symm
    have hbytes := congrArg Text.ofGlyphs hsplit
    rw [Text.ofGlyphs_append, Text.ofGlyphs_glyphs] at hbytes
    rw [List.filterMap_cons_none rfl, List.filterMap_cons_none rfl]
    conv => arg 2; rw [← hbytes]
    exact .gap (gap_of_hashBang hne) hlaid

end YouthLang

import YouthLang.Proofs.Scanning.Layout

/-!
# Proofs/Scanning/Spacing — tokens do not depend on the space between them

The text of a token is a token by itself (`Text.IsLexeme`), and it stays the same one in front of a
blank, since no piece that is a token goes on over a blank (`Content.front_of_token`).  So the texts of
the tokens of a source, with any blanks between them, scan to those tokens (`scan_spaced`).
-/

namespace YouthLang

/-- What stands behind a run that can take in no more: nothing, or a blank. -/
def Stops (behind : List Glyph) : Prop := ∀ g ∈ behind.head?, g.isSpace = true

theorem stops_nil : Stops [] := nofun

/-- The longest run of a kind, up to something of another kind. -/
theorem takeWhile_append_of_boundary {α : Type} {p : α → Bool} {xs ys : List α}
    (h : ∀ x ∈ xs, p x = true) (hys : ∀ y ∈ ys.head?, p y = false) :
    (xs ++ ys).takeWhile p = xs := by
  rw [List.takeWhile_append_of_pos h]
  cases ys with
  | nil => exact List.append_nil xs
  | cons y ys => rw [List.takeWhile_cons_of_neg (by simp [hys y rfl]), List.append_nil]

namespace Content

variable {first : Glyph} {rest behind : List Glyph}

theorem ne_of_isSpace {g : Glyph} (h : g.isSpace = true) :
    g.isDigit = false ∧ g.isWord = false ∧ g ≠ .char '.' ∧ g ≠ .char '=' := by
  simp only [Glyph.isSpace, Bool.or_eq_true, decide_eq_true_eq] at h
  obtain ((rfl | rfl) | rfl) | rfl := h <;> decide

theorem fraction_of_stops (hstop : Stops behind) : fraction behind = [] := by
  unfold fraction
  split
  · next rest => exact absurd rfl (ne_of_isSpace (hstop _ rfl)).2.2.1
  · rfl

/-- A numeral is told by its digits and by the characters that it takes. -/
theorem numeral_congr {rest' : List Glyph}
    (hwhole : rest'.takeWhile Glyph.isDigit = rest.takeWhile Glyph.isDigit)
    (hplaces : fraction (rest'.drop (rest.takeWhile Glyph.isDigit).length)
      = fraction (rest.drop (rest.takeWhile Glyph.isDigit).length))
    (htaken : rest'.take (numeral first rest).2 = rest.take (numeral first rest).2) :
    numeral first rest' = numeral first rest := by
  rw [numeral_length] at htaken
  unfold numeral
  simp only [hwhole, hplaces, htaken]

/-- **A numeral stays the same in front of a blank.** -/
theorem numeral_of_stops (hstop : Stops behind) :
    numeral first (rest.take (numeral first rest).2 ++ behind) = numeral first rest := by
  have hsplit := whole_append_drop rest
  have hdigits : ∀ g ∈ rest.takeWhile Glyph.isDigit, g.isDigit = true :=
    fun g hg => List.mem_takeWhile_imp hg
  -- what a numeral takes behind its whole digits
  obtain ⟨places, hplaces, hpoint, hfraction⟩ : ∃ places : List Glyph,
      rest.take (numeral first rest).2 = rest.takeWhile Glyph.isDigit ++ places
        ∧ (∀ g ∈ (places ++ behind).head?, g.isDigit = false)
        ∧ fraction (places ++ behind)
          = fraction (rest.drop (rest.takeWhile Glyph.isDigit).length) := by
    rw [numeral_length]
    generalize rest.takeWhile Glyph.isDigit = whole at hsplit ⊢
    generalize rest.drop whole.length = more at hsplit ⊢
    subst hsplit
    rw [List.take_length_add_append]
    by_cases hnone : fraction more = []
    · refine ⟨[], by simp [hnone], fun g hg => (ne_of_isSpace (hstop g hg)).1, ?_⟩
      rw [hnone, List.nil_append, fraction_of_stops hstop]
    · obtain hnone' | ⟨_, hmore, hplaces⟩ := fraction_cases more
      · exact absurd hnone' hnone
      refine ⟨.char '.' :: fraction more, ?_, by simp [Glyph.isDigit], ?_⟩
      · rw [if_neg hnone]
        generalize fraction more = places at hmore ⊢
        rw [hmore, List.take_succ_cons, List.take_left' rfl]
      · exact takeWhile_append_of_boundary hplaces fun g hg => (ne_of_isSpace (hstop g hg)).1
  have hwhole : (rest.take (numeral first rest).2 ++ behind).takeWhile Glyph.isDigit
      = rest.takeWhile Glyph.isDigit := by
    rw [hplaces, List.append_assoc]
    exact takeWhile_append_of_boundary hdigits hpoint
  refine numeral_congr hwhole ?_ (List.take_left' (List.length_take_of_le (numeral_le first rest)))
  rw [hplaces, List.append_assoc, List.drop_left, hfraction]

/-- A word that is no comment stays the same in front of a blank. -/
theorem word_of_stops {kind : TokenKind} (h : (word first rest).1 = .token kind)
    (hstop : Stops behind) :
    word first (rest.take (word first rest).2 ++ behind) = word first rest := by
  have hword : ∀ g ∈ rest.takeWhile Glyph.isWord, g.isWord = true :=
    fun g hg => List.mem_takeWhile_imp hg
  unfold word at h ⊢
  simp only at h ⊢
  split at h
  · simp at h
  · next hspelling =>
    have hmore := takeWhile_append_of_boundary hword fun g hg => (ne_of_isSpace (hstop g hg)).2.1
    rw [if_neg hspelling, ← List.prefix_iff_eq_take.mp (List.takeWhile_prefix _), hmore,
      if_neg hspelling]

/-- A string that is closed stays the same whatever stands behind it. -/
theorem string_take {kind : TokenKind} (h : (string rest).1 = .token kind) :
    string (rest.take (string rest).2 ++ behind) = string rest := by
  unfold string at h
  simp only at h
  split at h
  · simp at h
  · next hclosed =>
    have hbody : ∀ g ∈ rest.takeWhile (· ≠ .char '"'), decide (g ≠ .char '"') = true :=
      fun g hg => (List.mem_takeWhile_imp hg :)
    have htaken : rest.take (string rest).2 ++ behind
        = rest.takeWhile (· ≠ .char '"') ++ .char '"' :: behind := by
      unfold string
      simp only [if_neg hclosed, take_string hclosed, List.append_assoc, List.singleton_append]
    have hfound : (rest.takeWhile (· ≠ .char '"') ++ .char '"' :: behind).takeWhile
        (· ≠ .char '"') = rest.takeWhile (· ≠ .char '"') :=
      takeWhile_append_of_boundary hbody (by simp)
    rw [htaken]
    unfold string
    simp only [hfound, if_neg hclosed]
    rw [if_neg (by simp)]

/-- **A token is found again in front of a blank**, or at the end. -/
theorem front_of_token {kind : TokenKind} (h : (front first rest).1 = .token kind)
    (hstop : Stops behind) :
    front first (rest.take (front first rest).2 ++ behind) = front first rest := by
  by_cases hspace : first.isSpace = true
  · simp [front, hspace] at h
  by_cases hdigit : first.isDigit = true
  · have hread : ∀ more, front first more = numeral first more := fun more => by
      unfold front
      rw [if_neg hspace, if_pos hdigit]
    rw [hread, hread]
    exact numeral_of_stops hstop
  by_cases hletter : first.isLetter = true
  · have hread : ∀ more, front first more = word first more := fun more => by
      unfold front
      rw [if_neg hspace, if_neg hdigit, if_pos hletter]
    rw [hread] at h ⊢
    rw [hread]
    exact word_of_stops h hstop
  by_cases hquote : first = .char '"'
  · have hread : ∀ more, front first more = string more := fun more => by
      unfold front
      rw [if_neg hspace, if_neg hdigit, if_neg hletter, if_pos hquote]
    rw [hread] at h ⊢
    rw [hread]
    exact string_take h
  -- a symbol, alone or with an equals sign
  have hequals : behind.head? ≠ some (.char '=') := fun heq =>
    (ne_of_isSpace (hstop _ heq)).2.2.2 rfl
  cases hsymbol : symbol? first with
  | some kind =>
    have hread : ∀ more, front first more = (.token kind, 0) := fun more => by
      unfold front
      rw [if_neg hspace, if_neg hdigit, if_neg hletter, if_neg hquote, hsymbol]
    rw [hread, hread]
  | none =>
    cases hcomparison : comparison? first with
    | some kinds =>
      have hread : ∀ more, front first more = if more.head? = some (.char '=')
          then (.token kinds.2, 1) else (.token kinds.1, 0) := fun more => by
        unfold front
        rw [if_neg hspace, if_neg hdigit, if_neg hletter, if_neg hquote, hsymbol,
          hcomparison]
      by_cases heq : rest.head? = some (.char '=')
      · obtain ⟨more, rfl⟩ : ∃ more, rest = .char '=' :: more := List.head?_eq_some_iff.mp heq
        simp [hread]
      · simp [hread, heq, hequals]
    | none =>
      unfold front at h
      rw [if_neg hspace, if_neg hdigit, if_neg hletter, if_neg hquote, hsymbol, hcomparison] at h
      cases first <;> simp at h

end Content

/-! ## Lexemes -/

/-- A text that is one token, all of it. -/
def Text.IsLexeme (kind : TokenKind) (t : Text) : Prop :=
  ∃ first rest, t.glyphs = first :: rest ∧ Content.front first rest = (.token kind, rest.length)

/-- **The text of a token is that token by itself.** -/
theorem isLexeme_of_mem_wordsOf {source : Text} {t : Token} (h : t ∈ wordsOf source) :
    t.lexeme.IsLexeme t.kind := by
  obtain ⟨piece, hpiece, ht⟩ := List.mem_filterMap.mp h
  obtain ⟨hcontent, hlexeme⟩ := Piece.lexeme_of_token? ht
  have hgap : piece.content ≠ .gap := by simp [hcontent]
  obtain ⟨first, rest, ⟨before, hsource, -⟩, hfound, hglyphs⟩ := Piece.located hpiece hgap
  have hkind : (Content.front first rest).1 = .token t.kind := by rw [← hfound, hcontent]
  have hsplit : source.glyphs = before ++ ((first :: rest.take (Content.front first rest).2)
      ++ rest.drop (Content.front first rest).2) := by simp [hsource]
  refine ⟨first, rest.take (Content.front first rest).2, ?_, ?_⟩
  · rw [hlexeme, Piece.text, hglyphs, Text.glyphs_infix hsplit]
  · have halone := Content.front_of_token hkind stops_nil
    rw [List.append_nil] at halone
    rw [halone, List.length_take_of_le (Content.front_le first rest), ← hkind]

/-- A lexeme in front of a blank is found there. -/
theorem piecesFrom_lexeme {kind : TokenKind} {t : Text} {behind : List Glyph}
    (h : t.IsLexeme kind) (hstop : Stops behind) (p : Position) :
    piecesFrom 0 p (t.glyphs ++ behind)
      = ⟨.token kind, p, t.glyphs⟩ :: piecesFrom 0 (p.after t.glyphs) behind := by
  obtain ⟨first, rest, hglyphs, hfront⟩ := h
  have hkind : (Content.front first rest).1 = .token kind := by rw [hfront]
  have hfound := Content.front_of_token hkind hstop
  rw [hfront, List.take_length] at hfound
  rw [hglyphs, List.cons_append, piecesFrom, hfound, piecesFrom_skip, List.take_left' rfl,
    List.drop_left' rfl, Position.after_cons]

/-! ## Blanks between tokens -/

/-- What may stand between two tokens: some spaces, tabs and newlines. -/
def Text.IsSeparator (t : Text) : Prop := t ≠ [] ∧ ∀ b ∈ t, b ∈ ([0x20, 0x09, newline] : Text)

/-- Texts with separators between them, a separator for each place. -/
def Text.spaced : (Nat → Text) → List Text → Text
  | _, [] => []
  | _, [t] => t
  | separator, t :: more => t ++ (separator 0 ++ spaced (fun n => separator (n + 1)) more)

/-- What a token says, wherever it stands. -/
def Token.reading (t : Token) : TokenKind × Text := ⟨t.kind, t.lexeme⟩

/-- The tokens without the one that marks the end. -/
def Scanned.words (found : Scanned) : List Token :=
  found.tokens.filter (·.kind ≠ .endOfSource)

theorem words_scan (source : Text) : (scan source).words = wordsOf source := by
  have hwords : (wordsOf source).filter (·.kind ≠ .endOfSource) = wordsOf source :=
    List.filter_eq_self.mpr fun t ht => decide_eq_true (of_mem_wordsOf t ht).1
  rw [Scanned.words, tokens_eq_wordsOf, List.filter_append, hwords]
  exact List.append_nil _

/-- Some characters read as some tokens, with no mistake, wherever they stand. -/
def ReadsAs (gs : List Glyph) (readings : List (TokenKind × Text)) : Prop :=
  ∀ p, (piecesFrom 0 p gs).filterMap Piece.diagnostic? = []
    ∧ ((piecesFrom 0 p gs).filterMap Piece.token?).map Token.reading = readings

namespace ReadsAs

variable {gs behind : List Glyph} {readings : List (TokenKind × Text)}

theorem nil : ReadsAs [] [] := fun _ => ⟨rfl, rfl⟩

theorem blank (hgs : ∀ g ∈ gs, g.isSpace = true) (h : ReadsAs behind readings) :
    ReadsAs (gs ++ behind) readings := by
  induction gs with
  | nil => exact h
  | cons g gs ih =>
    obtain ⟨hg, hgs⟩ := List.forall_mem_cons.mp hgs
    intro p
    have hfront : Content.front g (gs ++ behind) = (.gap, 0) := by
      unfold Content.front
      rw [if_pos hg]
    rw [List.cons_append, piecesFrom, hfront, List.filterMap_cons_none rfl,
      List.filterMap_cons_none rfl]
    exact ih hgs (p.next g)

theorem lexeme {kind : TokenKind} {t : Text} (ht : t.IsLexeme kind) (hstop : Stops behind)
    (h : ReadsAs behind readings) : ReadsAs (t.glyphs ++ behind) (⟨kind, t⟩ :: readings) := by
  intro p
  obtain ⟨hclean, hread⟩ := h (p.after t.glyphs)
  have htoken : Piece.token? ⟨.token kind, p, t.glyphs⟩ = some ⟨kind, t, p⟩ := by
    simp [Piece.token?]
  rw [piecesFrom_lexeme ht hstop, List.filterMap_cons_none rfl, List.filterMap_cons_some htoken,
    List.map_cons, hread]
  exact ⟨hclean, rfl⟩

end ReadsAs

/-- The bytes of separators are characters of their own, and blank. -/
theorem Text.isSpace_of_mem {b : UInt8} (h : b ∈ ([0x20, 0x09, newline] : Text)) :
    b < 0x80 ∧ (Glyph.char (Char.ofNat b.toNat)).isSpace = true := by
  simp only [List.mem_cons, List.not_mem_nil, or_false] at h
  obtain rfl | rfl | rfl := h <;> decide

/-- A separator is blanks, each of them one character. -/
theorem Text.IsSeparator.glyphs_append {t : Text} (h : t.IsSeparator) (p q : Text) :
    Text.glyphs (p ++ (t ++ q)) = p.glyphs ++ (t.glyphs ++ q.glyphs)
      ∧ (∀ g ∈ t.glyphs, g.isSpace = true) ∧ Stops (t.glyphs ++ q.glyphs) := by
  obtain ⟨hne, hblank⟩ := h
  have hascii : ∀ b ∈ t, b < 0x80 := fun b hb => (isSpace_of_mem (hblank b hb)).1
  have hspace : ∀ g ∈ t.glyphs, g.isSpace = true := by
    clear hne
    induction t with
    | nil => nofun
    | cons b t ih =>
      rw [List.forall_mem_cons] at hblank hascii
      rw [glyphs_cons_ascii hascii.1]
      exact List.forall_mem_cons.mpr ⟨(isSpace_of_mem hblank.1).2, ih hblank.2 hascii.2⟩
  obtain ⟨b, more, rfl⟩ := List.exists_cons_of_ne_nil hne
  have hb := (List.forall_mem_cons.mp hascii).1
  refine ⟨?_, hspace, ?_⟩
  · rw [← glyphs_append_of_ascii hascii q, List.cons_append, glyphs_append_ascii p _ hb]
  · rw [glyphs_cons_ascii hb] at hspace ⊢
    exact fun g hg => Option.some.inj hg ▸ (List.forall_mem_cons.mp hspace).1

/-- Lexemes with separators between them read as the tokens that they are. -/
theorem readsAs_spaced : ∀ (tokens : List Token) (separator : Nat → Text),
    (∀ n, (separator n).IsSeparator) → (∀ t ∈ tokens, t.lexeme.IsLexeme t.kind) →
    ReadsAs (Text.glyphs (Text.spaced separator (tokens.map Token.lexeme)))
      (tokens.map Token.reading)
  | [], _, _, _ => .nil
  | [t], separator, _, hall => by
      have halone := ReadsAs.lexeme (hall t (List.mem_singleton_self t)) stops_nil .nil
      rwa [List.append_nil] at halone
  | t :: t' :: more, separator, hsep, hall => by
      obtain ⟨ht, hmore⟩ := List.forall_mem_cons.mp hall
      have ih := readsAs_spaced (t' :: more) (fun n => separator (n + 1)) (fun n => hsep (n + 1))
        hmore
      obtain ⟨hglyphs, hspace, hstop⟩ := (hsep 0).glyphs_append t.lexeme
        (Text.spaced (fun n => separator (n + 1)) ((t' :: more).map Token.lexeme))
      rw [List.map_cons, List.map_cons, Text.spaced, ← List.map_cons, hglyphs]
      · exact .lexeme ht hstop (.blank hspace ih)
      · simp

/-- A source that reads as some tokens scans to them. -/
theorem scan_of_readsAs {source : Text} {readings : List (TokenKind × Text)}
    (h : ReadsAs source.glyphs readings) : (scan source).diagnostics = []
      ∧ (scan source).tokens.map Token.reading = readings ++ [⟨.endOfSource, []⟩] := by
  obtain ⟨hclean, hread⟩ := h .start
  have hpieces : pieces source.glyphs = piecesFrom 0 .start source.glyphs := by
    simp [pieces, hashBang_eq_nil_of_piecesFrom hclean]
  rw [← hpieces] at hclean hread
  refine ⟨hclean, ?_⟩
  rw [tokens_eq_wordsOf, List.map_append, ← hread]
  rfl

/-- **Tokens do not depend on the space between them**: the texts of the tokens of a source, with any
blanks between them, scan without mistakes to tokens of the same kinds, texts and values. -/
theorem scan_spaced (source : Text) (separator : Nat → Text)
    (hseparator : ∀ n, (separator n).IsSeparator) :
    (scan (Text.spaced separator ((scan source).words.map Token.lexeme))).diagnostics = []
      ∧ (scan (Text.spaced separator ((scan source).words.map Token.lexeme))).tokens.map
          Token.reading = (scan source).tokens.map Token.reading := by
  rw [words_scan, tokens_eq_wordsOf source, List.map_append]
  exact scan_of_readsAs (readsAs_spaced (wordsOf source) separator hseparator
    fun t ht => isLexeme_of_mem_wordsOf ht)

/-- Separators that are a tab and a newline with a space, in turn. -/
def Text.inTurn (n : Nat) : Text := if n % 2 = 0 then "\t" else " \n"

/-- A source with points behind a numeral, a string with a newline and a comment. -/
theorem scan_spaced_inTurn :
    (∀ n, (Text.inTurn n).IsSeparator)
      ∧ (scan (Text.spaced Text.inTurn
          ((scan "1.5.x is!=\"é\n\"aside y").words.map Token.lexeme))).diagnostics = []
      ∧ (scan (Text.spaced Text.inTurn
          ((scan "1.5.x is!=\"é\n\"aside y").words.map Token.lexeme))).tokens.map Token.reading
        = (scan "1.5.x is!=\"é\n\"aside y").tokens.map Token.reading := by
  have hseparator : ∀ n, (Text.inTurn n).IsSeparator := by
    intro n
    unfold Text.inTurn
    split
    · exact ⟨List.cons_ne_nil _ _, List.forall_mem_singleton.mpr (by decide)⟩
    · exact ⟨List.cons_ne_nil _ _, List.forall_mem_cons.mpr
        ⟨by decide, List.forall_mem_singleton.mpr (by decide)⟩⟩
  exact ⟨hseparator, scan_spaced _ Text.inTurn hseparator⟩

end YouthLang

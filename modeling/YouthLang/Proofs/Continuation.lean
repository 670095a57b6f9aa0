import YouthLang.Proofs.Foresight.Rules
import YouthLang.Proofs.Grammar.Exact
import YouthLang.Proofs.Rejection
import YouthLang.Proofs.Scanning.Joined

/-!
# Proofs/Continuation — sources that go on in further lines

A source whose mistakes are all about its end may be continued in further lines, and one with any other
mistake may not.  The second is true as it stands (`mistakes_append_newline`): the words of a source are
the first words of every continuation, so a mistake at one of them stays.  The first is true of what the
parser asks for, with two gaps (`isIncomplete_mendable`): a string that is left open is not among the
words, so nothing is known of a source that has it as a word; and three mistakes are complaints about
what was read before, and come too late to be seen.
-/

namespace YouthLang

open YouthLang.Parser

/-! ## Programs -/

section Programs

variable {node : Nat} {ts : List Token} {last : Token}

theorem diagnostics_parse : (parse node (ts ++ [last])).diagnostics
    = (looped programAt [] (Grammar.start node ts last)).cursor.mistakes.reverse := by
  rw [Grammar.parse_eq_programFrom]
  rfl

/-- **Of a program that ends too early it is known** whether it can be continued: either there is a
mistake at one of its words, and one in every longer program, or all mistakes are about the end, and
some words can be added so that nothing is missing. -/
theorem parse_foreseen (node : Nat) (hwords : ∀ t ∈ ts, t.kind ≠ .endOfSource)
    (hlast : last.kind = .endOfSource) :
    ((∃ d ∈ (parse node (ts ++ [last])).diagnostics, d.atEnd = false)
      ∧ ∀ (us : List Token) (last' : Token), last'.kind = .endOfSource →
        (parse node (ts ++ us ++ [last'])).diagnostics ≠ [])
    ∨ ((∀ d ∈ (parse node (ts ++ [last])).diagnostics, d.atEnd = true)
      ∧ ∃ ks : List Filler, ∀ (us : List Token) (last' : Token),
        us.map Token.kind = ks.map Filler.kind → last'.kind = .endOfSource →
        ∀ d ∈ (parse node (ts ++ us ++ [last'])).diagnostics, d.IsComplaint) := by
  have hbefore : (Grammar.start node ts last).Before ts :=
    ⟨⟨last, Grammar.tokens_start, hlast⟩, hwords⟩
  have hbeyond : ∀ us last', last'.kind = .endOfSource →
      (Grammar.start node ts last).Beyond ts (us ++ [last'])
        (Grammar.start node (ts ++ us) last') := by
    intro us last' hlast'
    have htokens : (Grammar.start node (ts ++ us) last').tokens = ts ++ (us ++ [last']) := by
      rw [Grammar.tokens_start, List.append_assoc]
    refine ⟨⟨⟨last', ?_, hlast'⟩, fun _ _ => trivial⟩, htokens, rfl, rfl⟩
    rw [htokens, ← List.append_assoc, List.getLast?_concat]
  simp only [diagnostics_parse, List.mem_reverse, ne_eq, List.reverse_eq_nil_iff]
  -- One loop read twice: to its end, and on behind it with the tokens that are filled in.
  cases (viable_programLoop ts.length []).foresees hbefore (Nat.le_refl _) with
  | same hdone _ hmore =>
    have hclean : ∀ last', last'.kind = .endOfSource →
        (looped programAt [] (Grammar.start node ts last')).cursor.mistakes = [] := by
      intro last' hlast'
      obtain ⟨d', hd', -, hclean⟩ := hmore (by simpa using hbeyond [] last' hlast')
      rw [hd']
      exact hclean
    refine .inr ⟨by simp [hclean last hlast], [], fun us last' hus hlast' => ?_⟩
    obtain rfl := List.map_eq_nil_iff.mp hus
    simp [hclean last' hlast']
  | ended ks _ hadds hmore =>
    obtain ⟨new, hnew, hatEnd⟩ := hadds
    refine .inr ⟨fun d hd => hatEnd d ?_, ks, ?_⟩
    · rw [hnew] at hd
      simpa [Grammar.start] using hd
    intro us last' hus hlast' d hd
    obtain ⟨_, d', hd', -, new', hnew', hcomplaint⟩ := hmore hus hlast' (hbeyond us last' hlast')
    rw [hd'] at hd
    exact hcomplaint d (by simpa [Parsing.cursor, hnew', Grammar.start] using hd)
  -- A mistake before the end stays, whatever follows.
  | spoiled hmistake hmore =>
    exact .inl ⟨hmistake, fun us last' hlast' => hmore (hbeyond us last' hlast')⟩

end Programs

/-! ## Pieces -/

/-- A string without its closing quote. -/
def Piece.isOpen (p : Piece) : Bool := p.content = .refused .unterminatedString

section Pieces

variable {g : Glyph} {gs : List Glyph}

/-- Only a quote opens a string, and a string that is left open takes all that is left. -/
theorem Content.eq_of_front_open (h : (Content.front g gs).1 = .refused .unterminatedString) :
    g = .char '"' ∧ gs.takeWhile (· ≠ .char '"') = gs ∧ (Content.front g gs).2 = gs.length := by
  unfold Content.front at h ⊢
  split at h
  · simp at h
  split at h
  · unfold Content.numeral at h
    simp only at h
    split at h <;> simp at h
  split at h
  · unfold Content.word at h
    simp only at h
    split at h <;> simp at h
  split at h
  · next hspace hdigit hletter hquote =>
    rw [if_neg hspace, if_neg hdigit, if_neg hletter, if_pos hquote]
    unfold Content.string at h ⊢
    simp only at h ⊢
    split at h
    · next hlength =>
      rw [if_pos hlength]
      exact ⟨hquote, (List.takeWhile_prefix _).eq_of_length hlength, rfl⟩
    · simp at h
  split at h
  · simp at h
  · split at h <;> simp at h
  · split at h <;> simp at h

/-- A quote closes a string on the next line. -/
theorem Content.front_closed (h : gs.takeWhile (· ≠ .char '"') = gs) :
    Content.front (.char '"') (gs ++ [Glyph.char '\n', .char '"'])
      = (.token (.string (Text.ofGlyphs (gs ++ [Glyph.char '\n']))), gs.length + 2) := by
  have hbody : (gs ++ [Glyph.char '\n', .char '"']).takeWhile (· ≠ .char '"')
      = gs ++ [.char '\n'] := by
    rw [List.takeWhile_append, h, if_pos rfl]
    rfl
  change Content.string _ = _
  unfold Content.string
  simp only [hbody]
  simp

theorem piecesFrom_eq_nil : ∀ (gs : List Glyph) (skip : Nat) (p : Position), gs.length ≤ skip →
    piecesFrom skip p gs = []
  | [], skip, p, _ => by simp [piecesFrom]
  | g :: gs, skip + 1, p, h => piecesFrom_eq_nil gs skip _ (Nat.le_of_succ_le_succ h)

theorem piecesFrom_closed (p : Position) (h : gs.takeWhile (· ≠ .char '"') = gs) :
    piecesFrom 0 p (.char '"' :: (gs ++ [Glyph.char '\n', .char '"']))
      = [⟨.token (.string (Text.ofGlyphs (gs ++ [Glyph.char '\n']))), p,
        .char '"' :: (gs ++ [Glyph.char '\n', .char '"']).take (gs.length + 2)⟩] := by
  rw [piecesFrom, Content.front_closed h, piecesFrom_eq_nil _ _ _ (by simp)]

/-- What was found before a newline is found whatever comes behind it, except a string that was left
open.  Closing that string makes a token of it. -/
theorem piecesFrom_continued (more : List Glyph) : ∀ (gs : List Glyph) (skip : Nat) (p : Position),
    skip ≤ gs.length → ∃ rest,
      piecesFrom skip p (gs ++ .char '\n' :: more)
        = (piecesFrom skip p gs).filter (!·.isOpen) ++ rest
      ∧ ((∃ piece ∈ piecesFrom skip p gs, piece.isOpen = true) → more = [.char '"'] →
        ∃ piece s, piece.content = .token (.string s) ∧ rest = [piece])
  | [], skip, p, hskip => by
      obtain rfl : skip = 0 := Nat.le_zero.mp hskip
      exact ⟨_, rfl, by simp [piecesFrom]⟩
  | g :: gs, skip + 1, p, hskip =>
      piecesFrom_continued more gs skip _ (Nat.le_of_succ_le_succ hskip)
  | g :: gs, 0, p, _ => by
      by_cases hopen : (Content.front g gs).1 = .refused .unterminatedString
      · obtain ⟨rfl, hbody, hlength⟩ := Content.eq_of_front_open hopen
        have hnone : (piecesFrom 0 p (.char '"' :: gs)).filter (!·.isOpen) = [] := by
          simp [piecesFrom, hlength, piecesFrom_eq_nil, Piece.isOpen, hopen]
        rw [hnone]
        refine ⟨_, rfl, ?_⟩
        rintro - rfl
        exact ⟨_, _, rfl, piecesFrom_closed p hbody⟩
      · have hfront := Content.front_append_newline g gs more hopen
        obtain ⟨rest, hrest, hclosed⟩ :=
          piecesFrom_continued more gs (Content.front g gs).2 (p.next g) (Content.front_le g gs)
        refine ⟨rest, ?_, ?_⟩
        · simp only [List.cons_append, piecesFrom, hfront, hrest,
            List.take_append_of_le_length (Content.front_le g gs)]
          rw [List.filter_cons_of_pos (by simp [Piece.isOpen, hopen]), List.cons_append]
        · rintro ⟨piece, hpiece, hisOpen⟩ hmore
          refine hclosed ⟨piece, ?_, hisOpen⟩ hmore
          obtain rfl | hpiece := List.mem_cons.mp hpiece
          · simp [Piece.isOpen, hopen] at hisOpen
          · exact hpiece

theorem pieces_continued (gs more : List Glyph) : ∃ rest,
    pieces (gs ++ .char '\n' :: more) = (pieces gs).filter (!·.isOpen) ++ rest
      ∧ ((∃ piece ∈ pieces gs, piece.isOpen = true) → more = [.char '"'] →
        ∃ piece s, piece.content = .token (.string s) ∧ rest = [piece]) := by
  unfold pieces
  simp only [hashBang_append_newline]
  split
  · exact piecesFrom_continued more gs 0 _ (Nat.zero_le _)
  · next hbang =>
    rw [List.drop_append_of_le_length (hashBang_isPrefix gs).length_le]
    obtain ⟨rest, hrest, hclosed⟩ := piecesFrom_continued more (gs.drop (hashBang gs).length) 0
      (Position.start.after (hashBang gs)) (Nat.zero_le _)
    refine ⟨rest, by rw [hrest]; rfl, ?_⟩
    rintro ⟨piece, hpiece, hisOpen⟩
    obtain rfl | hpiece := List.mem_cons.mp hpiece
    · exact absurd hisOpen (by simp [Piece.isOpen])
    · exact hclosed ⟨piece, hpiece, hisOpen⟩

end Pieces

/-! ## Words -/

section Words

variable {s t : Text} {d : Diagnostic}

/-- A string that is left open is no word. -/
theorem filterMap_token?_filter (ps : List Piece) :
    (ps.filter (!·.isOpen)).filterMap Piece.token? = ps.filterMap Piece.token? := by
  rw [List.filterMap_filter]
  refine List.filterMap_congr fun p _ => ?_
  by_cases hopen : p.isOpen = true
  · have hcontent : p.content = .refused .unterminatedString := by simpa [Piece.isOpen] using hopen
    simp [hopen, Piece.token?, hcontent]
  · simp [hopen]

/-- A mistake in a piece is one in its text, and tells whether the piece is a string left open. -/
theorem Piece.isOpen_of_diagnostic? {p : Piece} (h : p.diagnostic? = some d) :
    p.isOpen = true ↔ d.cause = .lexical .unterminatedString := by
  unfold Piece.diagnostic? at h
  split at h
  · next cause hcontent =>
    obtain rfl := Option.some.inj h
    simp [Piece.isOpen, hcontent]
  · simp at h

/-- **The words of a source are the first words of all that it is continued to.** -/
theorem wordsOf_continued (s t : Text) :
    ∃ more, wordsOf (s ++ Text.newline :: t) = wordsOf s ++ more := by
  obtain ⟨rest, hrest, -⟩ := pieces_continued s.glyphs t.glyphs
  refine ⟨rest.filterMap Piece.token?, ?_⟩
  rw [wordsOf, Text.glyphs_append_newline, hrest, List.filterMap_append, filterMap_token?_filter]
  rfl

/-- A lexical mistake stays, except a string that is left open. -/
theorem mem_scan_continued (t : Text) (hd : d ∈ (scan s).diagnostics)
    (hopen : d.cause ≠ .lexical .unterminatedString) :
    d ∈ (scan (s ++ Text.newline :: t)).diagnostics := by
  obtain ⟨rest, hrest, -⟩ := pieces_continued s.glyphs t.glyphs
  obtain ⟨piece, hpiece, hdiagnostic⟩ := List.mem_filterMap.mp hd
  have hmem : piece ∈ pieces (Text.glyphs (s ++ Text.newline :: t)) := by
    rw [Text.glyphs_append_newline, hrest]
    refine List.mem_append_left _ (List.mem_filter.mpr ⟨hpiece, ?_⟩)
    simpa using mt (Piece.isOpen_of_diagnostic? hdiagnostic).mp hopen
  exact List.mem_filterMap.mpr ⟨piece, hmem, hdiagnostic⟩

/-- The quote that closes a string. -/
def closingQuote : Text := "\""

/-- A quote on the next line closes a string that was left open. -/
theorem scan_closed (hopen : ∃ d ∈ (scan s).diagnostics, d.cause = .lexical .unterminatedString)
    (hothers : ∀ d ∈ (scan s).diagnostics, d.cause = .lexical .unterminatedString) :
    (scan (s ++ Text.newline :: closingQuote)).diagnostics = [] := by
  obtain ⟨rest, hrest, hclosed⟩ := pieces_continued s.glyphs closingQuote.glyphs
  obtain ⟨d, hd, hcause⟩ := hopen
  obtain ⟨piece, hpiece, hdiagnostic⟩ := List.mem_filterMap.mp hd
  have hisOpen := (Piece.isOpen_of_diagnostic? hdiagnostic).mpr hcause
  obtain ⟨token, value, hcontent, rfl⟩ := hclosed ⟨piece, hpiece, hisOpen⟩ rfl
  change (pieces (Text.glyphs (s ++ Text.newline :: closingQuote))).filterMap Piece.diagnostic? = []
  rw [Text.glyphs_append_newline, hrest, List.filterMap_append, List.append_eq_nil_iff]
  refine ⟨List.filterMap_eq_nil_iff.mpr fun p hp => ?_, by simp [Piece.diagnostic?, hcontent]⟩
  obtain ⟨hp, hclosed⟩ := List.mem_filter.mp hp
  cases hdiagnostic : p.diagnostic? with
  | none => rfl
  | some d =>
    have hd := hothers d (List.mem_filterMap.mpr ⟨p, hp, hdiagnostic⟩)
    simp [(Piece.isOpen_of_diagnostic? hdiagnostic).mpr hd] at hclosed

/-- The spelling of a finishing word, with a space behind it. -/
def Filler.text : Filler → Text
  | .name => "x "
  | .semicolon => "; "
  | .opening => "( "
  | .closing => ") "

theorem glyphs_filler (w : Filler) (t : Text) :
    Text.glyphs (w.text ++ t) = Text.glyphs w.text ++ t.glyphs := by
  cases w <;> rfl

/-- A finishing word is a piece of its own, and so is the space behind it. -/
theorem piecesFrom_filler (w : Filler) (p : Position) (gs : List Glyph) : ∃ word space p',
    piecesFrom 0 p (Text.glyphs w.text ++ gs) = word :: space :: piecesFrom 0 p' gs
      ∧ word.content = .token w.kind ∧ space.content = .gap := by
  cases w <;> exact ⟨_, _, _, rfl, rfl, rfl⟩

/-- The words of a text of finishing words. -/
theorem piecesFrom_fillers (ks : List Filler) (p : Position) :
    ((piecesFrom 0 p (Text.glyphs (ks.flatMap Filler.text))).filterMap Piece.token?).map Token.kind
        = ks.map Filler.kind
      ∧ (piecesFrom 0 p (Text.glyphs (ks.flatMap Filler.text))).filterMap Piece.diagnostic? = [] := by
  induction ks generalizing p with
  | nil => exact ⟨rfl, rfl⟩
  | cons w ks ih =>
    rw [List.flatMap_cons, glyphs_filler]
    obtain ⟨word, space, p', heq, hword, hspace⟩ :=
      piecesFrom_filler w p (Text.glyphs (ks.flatMap Filler.text))
    obtain ⟨hkinds, hclean⟩ := ih p'
    rw [heq]
    simp [Piece.token?, Piece.diagnostic?, hword, hspace, hkinds, hclean]

/-- Finishing words on the next line are the words behind those of a source. -/
theorem wordsOf_finished (hs : (scan s).diagnostics = []) (ks : List Filler) : ∃ us,
    wordsOf (s ++ Text.newline :: ks.flatMap Filler.text) = wordsOf s ++ us
      ∧ us.map Token.kind = ks.map Filler.kind
      ∧ (scan (s ++ Text.newline :: ks.flatMap Filler.text)).diagnostics = [] := by
  have hend : ∀ piece ∈ pieces s.glyphs, piece.content ≠ .refused .unterminatedString := by
    intro piece hpiece hcontent
    have := List.filterMap_eq_nil_iff.mp hs piece hpiece
    simp [Piece.diagnostic?, hcontent] at this
  have hpieces := pieces_append_newline s.glyphs (Text.glyphs (ks.flatMap Filler.text)) hend
  rw [← Text.glyphs_append_newline] at hpieces
  obtain ⟨hkinds, hclean⟩ :=
    piecesFrom_fillers ks ((Position.start.after s.glyphs).next (.char '\n'))
  refine ⟨_, ?_, hkinds, ?_⟩
  · rw [wordsOf, hpieces, List.filterMap_append, List.filterMap_cons_none rfl]
    rfl
  · change (pieces _).filterMap Piece.diagnostic? = []
    rw [hpieces, List.filterMap_append, List.filterMap_cons_none rfl, hclean, List.append_nil]
    exact hs

end Words

/-! ## Sources -/

section Sources

variable {s : Text} {node : Nat} {file : Text}

@[simp] theorem Diagnostic.atEnd_decorate (d : Diagnostic) (file source : Text) :
    (d.decorate file source).atEnd = d.atEnd := by
  have hattach : ∀ d : Diagnostic, (d.attach source).atEnd = d.atEnd := by
    intro d
    unfold attach
    split
    · split <;> rfl
    · rfl
  unfold decorate placed
  rw [hattach]
  split <;> rfl

/-- Whether a source has mistakes does not depend on its file and on the numbers of its nodes. -/
theorem diagnostics_programOf_eq_nil : (programOf node file s).diagnostics = []
    ↔ (scan s).diagnostics = [] ∧ (parse 0 (scan s).tokens).diagnostics = [] := by
  have hparse := (parse_beside node 0 (getLast?_tokens s)).2.1
  simp only [programOf_eq, List.map_eq_nil_iff, List.append_eq_nil_iff, hparse]

theorem wantsMore_scan (file : Text) {d : Diagnostic} (hd : d ∈ (scan s).diagnostics) :
    (d.decorate file s).wantsMore = true ↔ d.cause = .lexical .unterminatedString := by
  have hend : d.atEnd = false := by
    obtain ⟨p, -, hp⟩ := List.mem_filterMap.mp hd
    unfold Piece.diagnostic? at hp
    split at hp
    · obtain rfl := Option.some.inj hp
      rfl
    · exact absurd hp (by simp)
  simp [Diagnostic.wantsMore, hend]

theorem wantsMore_parse (file : Text) {d : Diagnostic}
    (hd : d ∈ (parse 0 (scan s).tokens).diagnostics) :
    (d.decorate file s).wantsMore = true ↔ d.atEnd = true := by
  have hstage := (parse_beside 0 0 (getLast?_tokens s)).2.2 d hd
  have hcause : d.cause ≠ .lexical .unterminatedString := by
    intro hcause
    simp [hcause, Cause.stage] at hstage
  simp [Diagnostic.wantsMore, hcause]

/-- An incomplete source: the scanner found nothing wrong but a string left open, and the parser nothing
but the end. -/
theorem isIncomplete_iff : isIncomplete s = true ↔ (programOf 0 [] s).diagnostics ≠ []
    ∧ (∀ d ∈ (scan s).diagnostics, d.cause = .lexical .unterminatedString)
    ∧ ∀ d ∈ (parse 0 (scan s).tokens).diagnostics, d.atEnd = true := by
  have hall : (programOf 0 [] s).diagnostics.all Diagnostic.wantsMore = true
      ↔ (∀ d ∈ (scan s).diagnostics, d.cause = .lexical .unterminatedString)
        ∧ ∀ d ∈ (parse 0 (scan s).tokens).diagnostics, d.atEnd = true := by
    simp only [programOf_eq, List.all_map, List.all_append, Bool.and_eq_true, List.all_eq_true,
      Function.comp_apply]
    refine and_congr (forall₂_congr fun d hd => ?_) (forall₂_congr fun d hd => ?_)
    · exact wantsMore_scan [] hd
    · exact wantsMore_parse [] hd
  simp only [isIncomplete, Bool.and_eq_true, hall, Bool.not_eq_true', List.isEmpty_eq_false_iff]

/-- The words of a source either have a mistake in them, or can be gone on with. -/
theorem parse_foreseen_wordsOf (s : Text) :
    ((∃ d ∈ (parse 0 (scan s).tokens).diagnostics, d.atEnd = false)
      ∧ ∀ (us : List Token) (last : Token), last.kind = .endOfSource →
        (parse 0 (wordsOf s ++ us ++ [last])).diagnostics ≠ [])
    ∨ ((∀ d ∈ (parse 0 (scan s).tokens).diagnostics, d.atEnd = true)
      ∧ ∃ ks : List Filler, ∀ (us : List Token) (last : Token),
        us.map Token.kind = ks.map Filler.kind → last.kind = .endOfSource →
        ∀ d ∈ (parse 0 (wordsOf s ++ us ++ [last])).diagnostics, d.IsComplaint) :=
  parse_foreseen 0 (fun t ht => (of_mem_wordsOf t ht).1) rfl

/-- **A source with a mistake that is not about its end has a mistake however it is continued.** -/
theorem mistakes_append_newline (hmistakes : (programOf node file s).diagnostics ≠ [])
    (hdefinite : isIncomplete s = false) (t : Text) (node' : Nat) (file' : Text) :
    (programOf node' file' (s ++ Text.newline :: t)).diagnostics ≠ [] := by
  rw [ne_eq, diagnostics_programOf_eq_nil] at hmistakes ⊢
  rintro ⟨hscan, hparse⟩
  have hrest : ¬ ((∀ d ∈ (scan s).diagnostics, d.cause = .lexical .unterminatedString)
      ∧ ∀ d ∈ (parse 0 (scan s).tokens).diagnostics, d.atEnd = true) := by
    intro hrest
    refine absurd (isIncomplete_iff.mpr ⟨?_, hrest⟩) (by simp [hdefinite])
    rwa [ne_eq, diagnostics_programOf_eq_nil]
  obtain hlexical | hgrammatical := not_and_or.mp hrest
  · obtain ⟨d, hd⟩ := not_forall.mp hlexical
    obtain ⟨hd, hcause⟩ := Classical.not_imp.mp hd
    have hmem := mem_scan_continued t hd hcause
    rw [hscan] at hmem
    exact List.not_mem_nil hmem
  · obtain ⟨more, hmore⟩ := wordsOf_continued s t
    obtain ⟨-, hdirty⟩ | ⟨hatEnd, -⟩ := parse_foreseen_wordsOf s
    · rw [tokens_eq_wordsOf, hmore] at hparse
      exact hdirty more _ rfl hparse
    · exact hgrammatical hatEnd

/-- The source has a mistake at its last word, so nothing on further lines helps. -/
theorem mistakes_append_newline_tell :
    (programOf 0 [] "tell x y").diagnostics ≠ [] ∧ isIncomplete "tell x y" = false
      ∧ (programOf 0 [] ("tell x y" ++ Text.newline :: "+ x;")).diagnostics ≠ [] := by
  have hmistakes : (programOf 0 [] "tell x y").diagnostics ≠ [] := by decide +kernel
  have hdefinite : isIncomplete "tell x y" = false := by decide +kernel
  exact ⟨hmistakes, hdefinite, mistakes_append_newline hmistakes hdefinite "+ x;" 0 []⟩

/-- A source without a string left open, all of whose mistakes are about the end, can be finished on the
next line. -/
theorem exists_finished (hscan : (scan s).diagnostics = [])
    (hparse : ∀ d ∈ (parse 0 (scan s).tokens).diagnostics, d.atEnd = true) (node : Nat) (file : Text) :
    ∃ t, ∀ d ∈ (programOf node file (s ++ Text.newline :: t)).diagnostics, d.IsComplaint := by
  obtain ⟨⟨d, hd, hatEnd⟩, -⟩ | ⟨-, ks, hks⟩ := parse_foreseen_wordsOf s
  · exact absurd (hparse d hd) (by simp [hatEnd])
  obtain ⟨us, hwords, hkinds, hclean⟩ := wordsOf_finished hscan ks
  refine ⟨ks.flatMap Filler.text, fun d hd => ?_⟩
  simp only [programOf_eq, hclean, List.nil_append, List.mem_map] at hd
  obtain ⟨e, he, rfl⟩ := hd
  rw [(parse_beside node 0 (getLast?_tokens _)).2.1, tokens_eq_wordsOf, hwords] at he
  obtain ⟨cause, hcause, hcomplaint⟩ := hks us _ hkinds rfl e he
  exact ⟨cause, by rw [Diagnostic.cause_decorate, hcause], hcomplaint⟩

/-- **An incomplete source can be finished on further lines**, up to complaints about what it has
already: unless it ends in a string that is left open, and with that string as a word it has a mistake
which is not about its end. -/
theorem isIncomplete_mendable (h : isIncomplete s = true) (node : Nat) (file : Text) :
    (∃ t, ∀ d ∈ (programOf node file (s ++ Text.newline :: t)).diagnostics, d.IsComplaint)
    ∨ ((∃ d ∈ (scan s).diagnostics, d.cause = .lexical .unterminatedString)
      ∧ (programOf node file (s ++ Text.newline :: closingQuote)).diagnostics ≠ []
      ∧ isIncomplete (s ++ Text.newline :: closingQuote) = false) := by
  obtain ⟨-, hlexical, hgrammatical⟩ := isIncomplete_iff.mp h
  by_cases hscan : (scan s).diagnostics = []
  · exact .inl (exists_finished hscan hgrammatical node file)
  obtain ⟨d, hd⟩ := List.exists_mem_of_ne_nil _ hscan
  have hopen : ∃ d ∈ (scan s).diagnostics, d.cause = .lexical .unterminatedString :=
    ⟨d, hd, hlexical d hd⟩
  have hclosed := scan_closed hopen hlexical
  by_cases hclean : (programOf node file (s ++ Text.newline :: closingQuote)).diagnostics = []
  · exact .inl ⟨closingQuote, by simp [hclean]⟩
  cases hmore : isIncomplete (s ++ Text.newline :: closingQuote) with
  | false => exact .inr ⟨hopen, hclean, rfl⟩
  | true =>
    obtain ⟨-, -, hgrammatical⟩ := isIncomplete_iff.mp hmore
    obtain ⟨t, ht⟩ := exists_finished hclosed hgrammatical node file
    exact .inl ⟨closingQuote ++ Text.newline :: t, by simpa using ht⟩

/-- A name and a semicolon finish the statement. -/
theorem isIncomplete_mendable_tell : isIncomplete "tell x +" = true
    ∧ ∃ t, ∀ d ∈ (programOf 0 [] ("tell x +" ++ Text.newline :: t)).diagnostics, d.IsComplaint := by
  have hincomplete : isIncomplete "tell x +" = true := by decide +kernel
  have hclosed : (scan "tell x +").diagnostics = [] := by decide +kernel
  refine ⟨hincomplete, (isIncomplete_mendable hincomplete 0 []).resolve_right ?_⟩
  rintro ⟨⟨d, hd, -⟩, -⟩
  rw [hclosed] at hd
  exact List.not_mem_nil hd

/-- A string where no word may stand, and a target that is none: both sources count as incomplete, and
neither can be finished without a mistake. -/
example : isIncomplete "tell x \"" = true ∧ isIncomplete ("tell x \"" ++ Text.newline :: "\"") = false
    ∧ isIncomplete "x + x =" = true ∧ isIncomplete "x + x = x;" = false := by
  decide +kernel

end Sources

end YouthLang

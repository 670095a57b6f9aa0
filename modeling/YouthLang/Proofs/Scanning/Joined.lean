import YouthLang.Proofs.Scanning

/-!
# Proofs/Scanning/Joined — two sources with a newline between them

Neither a glyph nor a piece that is complete reaches over a newline, except a string.  So the pieces of
two sources, joined by a newline, are those of the first, if no string is left open in it, and then those
of the second, some lines further down (`pieces_joined`); and without lexical mistakes so are the tokens
(`wordsOf_joined`).
-/

namespace YouthLang

/-! ## Glyphs -/

namespace Glyph

/-- A glyph has at least one byte. -/
theorem encode_ne_nil (g : Glyph) : g.encode ≠ [] := by
  cases g with
  | char c => exact String.utf8EncodeChar_ne_nil
  | stray b => exact List.cons_ne_nil _ _

/-- An ASCII byte continues no glyph of several bytes. -/
theorem continues_ascii (hi : UInt8) {lo b : UInt8} (hlo : 0x80 ≤ lo) (hb : b < 0x80) :
    continues lo hi b = false := by
  have hlt : ¬ lo ≤ b := fun hle =>
    absurd (UInt8.lt_of_le_of_lt (UInt8.le_trans hlo hle) hb) (by decide)
  simp [continues, hlt]

/-- So it is not the second byte of two. -/
theorem two?_ascii (a : UInt8) {b : UInt8} (hb : b < 0x80) : two? a b = none := by
  simp [two?, continues_ascii, hb]

/-- Nor is it one of the later bytes of three. -/
theorem three?_ascii {a b c : UInt8} (h : b < 0x80 ∨ c < 0x80) : three? a b c = none := by
  unfold three?
  obtain h | h := h <;> split <;> simp_all [continues_ascii]

/-- Nor is it one of the later bytes of four. -/
theorem four?_ascii {a b c d : UInt8} (h : b < 0x80 ∨ c < 0x80 ∨ d < 0x80) :
    four? a b c d = none := by
  unfold four?
  obtain h | h | h := h <;> split <;> simp_all [continues_ascii]

/-- A byte below `0x80` goes on with no sequence, so none is longer with it. -/
theorem front_append_ascii (a : UInt8) (rest more : Text) {b : UInt8} (hb : b < 0x80) :
    front a (rest ++ b :: more) = front a rest := by
  unfold front
  split
  · rfl
  · match rest, more with
    | [], [] => simp [two?_ascii, hb]
    | [], [c] => simp [two?_ascii, three?_ascii, hb]
    | [], c :: d :: _ => simp [two?_ascii, three?_ascii, four?_ascii, hb]
    | [c], [] => cases h : two? a c <;> simp [h, three?_ascii, hb]
    | [c], d :: _ => cases h : two? a c <;> simp [h, three?_ascii, four?_ascii, hb]
    | [c, d], _ => cases h : two? a c <;> cases h' : three? a c d <;> simp [h, h', four?_ascii, hb]
    | c :: d :: e :: _, _ => rfl

/-- A glyph is made of bytes that are there. -/
theorem front_le (a : UInt8) (rest : Text) : (front a rest).2 ≤ rest.length := by
  unfold front
  split
  · exact Nat.zero_le _
  · match rest with
    | [] => exact Nat.zero_le _
    | [b] => cases h : two? a b <;> simp [h]
    | [b, c] => cases h : two? a b <;> cases h' : three? a b c <;> simp [h, h']
    | b :: c :: d :: _ =>
      cases h : two? a b <;> cases h' : three? a b c <;> cases h'' : four? a b c d <;>
        simp [h, h', h'']

/-- **An ASCII byte cuts decoding in two.** The glyphs before it are those of the bytes before
it. -/
theorem readFrom_append_ascii (more : Text) {b : UInt8} (hb : b < 0x80) :
    ∀ (t : Text) (skip : Nat), skip ≤ t.length →
      readFrom skip (t ++ b :: more) = readFrom skip t ++ readFrom 0 (b :: more)
  | [], skip, hskip => by
      obtain rfl : skip = 0 := Nat.le_zero.mp hskip
      rfl
  | a :: rest, skip + 1, hskip =>
      readFrom_append_ascii more hb rest skip (Nat.le_of_succ_le_succ hskip)
  | a :: rest, 0, _ => by
      have ih := readFrom_append_ascii more hb rest (front a rest).2 (front_le a rest)
      rw [List.cons_append, readFrom, front_append_ascii a rest more hb, ih]
      rfl

/-! ## Newlines -/

/-- The newline has one number. -/
theorem eq_of_ofNat_eq_newline {n : Nat} (h : Char.ofNat n = '\n') : n = 10 := by
  by_cases hvalid : n.isValidChar
  · rw [Char.ofNat, dif_pos hvalid] at h
    exact congrArg Char.toNat h
  · rw [Char.ofNat, dif_neg hvalid] at h
    exact absurd h (by decide)

/-- A fact about every byte, read off all of them. -/
theorem forall_byte {P : UInt8 → Prop} (h : ∀ x : BitVec 8, P (UInt8.ofBitVec x)) (a : UInt8) :
    P a := h a.toBitVec

/-- No two bytes decode to a newline. -/
theorem two?_ne_newline (a b : UInt8) : two? a b ≠ some '\n' := by
  have hlead : 0xC2 ≤ a → a ≤ 0xDF → 0 < (a &&& 0x1F).toNat := by
    revert a
    exact forall_byte (by decide +kernel)
  intro h
  simp only [two?, Option.ite_none_right_eq_some, Bool.and_eq_true, decide_eq_true_eq] at h
  obtain ⟨⟨hrange, -⟩, h⟩ := h
  have hpos := hlead hrange.1 hrange.2
  have hten := eq_of_ofNat_eq_newline (Option.some.inj h)
  omega

/-- No three bytes do. -/
theorem three?_ne_newline (a b c : UInt8) : three? a b c ≠ some '\n' := by
  have hlead : 0xE0 ≤ a → a ≤ 0xEF → a ≠ 0xE0 → 0 < (a &&& 0x0F).toNat := by
    revert a
    exact forall_byte (by decide +kernel)
  have hsecond : 0xA0 ≤ b → b ≤ 0xBF → 0 < payload b := by
    revert b
    exact forall_byte (by decide +kernel)
  intro h
  simp only [three?, Option.ite_none_right_eq_some, Bool.and_eq_true, decide_eq_true_eq,
    continues] at h
  obtain ⟨⟨⟨hrange, hnext⟩, -⟩, h⟩ := h
  have hten := eq_of_ofNat_eq_newline (Option.some.inj h)
  by_cases ha : a = 0xE0
  · have hpos := hsecond (by simpa [ha] using hnext.1) (by simpa [ha] using hnext.2)
    omega
  · have hpos := hlead hrange.1 hrange.2 ha
    omega

/-- And no four bytes do. -/
theorem four?_ne_newline (a b c d : UInt8) : four? a b c d ≠ some '\n' := by
  have hlead : 0xF0 ≤ a → a ≤ 0xF4 → a ≠ 0xF0 → 0 < (a &&& 0x07).toNat := by
    revert a
    exact forall_byte (by decide +kernel)
  have hsecond : 0x90 ≤ b → b ≤ 0xBF → 0 < payload b := by
    revert b
    exact forall_byte (by decide +kernel)
  intro h
  simp only [four?, Option.ite_none_right_eq_some, Bool.and_eq_true, decide_eq_true_eq,
    continues] at h
  obtain ⟨⟨⟨⟨hrange, hnext⟩, -⟩, -⟩, h⟩ := h
  have hten := eq_of_ofNat_eq_newline (Option.some.inj h)
  by_cases ha : a = 0xF0
  · have hpos := hsecond (by simpa [ha] using hnext.1) (by simpa [ha] using hnext.2)
    omega
  · have hpos := hlead hrange.1 hrange.2 ha
    omega

/-- A newline is read off the byte that ends a line, and off nothing else. -/
theorem eq_newline_of_front {a : UInt8} {rest : Text} (h : (front a rest).1 = .char '\n') :
    a = Text.newline := by
  unfold front at h
  split at h
  · have hten := eq_of_ofNat_eq_newline (Glyph.char.inj h)
    exact UInt8.toNat_inj.mp hten
  · match rest with
    | [] => simp at h
    | [b] =>
      cases h2 : two? a b with
      | none => simp [h2] at h
      | some x => exact absurd (h2.trans (by simpa [h2] using h)) (two?_ne_newline a b)
    | [b, c] =>
      cases h2 : two? a b with
      | some x => exact absurd (h2.trans (by simpa [h2] using h)) (two?_ne_newline a b)
      | none =>
        cases h3 : three? a b c with
        | some x => exact absurd (h3.trans (by simpa [h2, h3] using h)) (three?_ne_newline a b c)
        | none => simp [h2, h3] at h
    | b :: c :: d :: _ =>
      cases h2 : two? a b with
      | some x => exact absurd (h2.trans (by simpa [h2] using h)) (two?_ne_newline a b)
      | none =>
        cases h3 : three? a b c with
        | some x => exact absurd (h3.trans (by simpa [h2, h3] using h)) (three?_ne_newline a b c)
        | none =>
          cases h4 : four? a b c d with
          | some x =>
            exact absurd (h4.trans (by simpa [h2, h3, h4] using h)) (four?_ne_newline a b c d)
          | none => simp [h2, h3, h4] at h

end Glyph

/-- The glyphs of two texts, the second of which starts with a byte below `0x80`. -/
theorem Text.glyphs_append_ascii (p q : Text) {b : UInt8} (hb : b < 0x80) :
    Text.glyphs (p ++ b :: q) = p.glyphs ++ Text.glyphs (b :: q) :=
  Glyph.readFrom_append_ascii q hb p 0 (Nat.zero_le _)

/-- The glyphs of two texts with a newline between them. -/
theorem Text.glyphs_append_newline (p q : Text) :
    Text.glyphs (p ++ Text.newline :: q) = p.glyphs ++ .char '\n' :: q.glyphs :=
  glyphs_append_ascii p q (by decide)

/-! ## Lines -/

/-- What is split at a byte can be split at one of its places first. -/
theorem Text.splitOn_append (b : UInt8) (p q : Text) :
    splitOn b (p ++ b :: q) = splitOn b p ++ splitOn b q := by
  induction p with
  | nil => simp [splitOn]
  | cons c rest ih =>
    simp only [List.cons_append, splitOn]
    split
    · rw [ih, List.cons_append]
    · rw [ih]
      cases h : splitOn b rest with
      | nil => exact absurd h (splitOn_ne_nil b rest)
      | cons piece pieces => rfl

/-- There is one part more than there are bytes to split at. -/
theorem Text.length_splitOn (b : UInt8) (t : Text) : (splitOn b t).length = t.count b + 1 := by
  induction t with
  | nil => rfl
  | cons c rest ih =>
    simp only [splitOn, List.count_cons, beq_iff_eq]
    split
    · rw [List.length_cons, ih]
    · cases h : splitOn b rest with
      | nil => exact absurd h (splitOn_ne_nil b rest)
      | cons piece pieces => rw [← ih, h]; rfl

/-- The lines of two texts with a newline between them. -/
theorem Text.lines_append_newline (p q : Text) :
    Text.lines (p ++ Text.newline :: q) = p.lines ++ q.lines := splitOn_append newline p q

/-- There are as many newlines among the glyphs of a text as among its bytes. -/
theorem Glyph.line_after_readFrom : ∀ (t : Text) (skip : Nat) (p : Position),
    (p.after (readFrom skip t)).line ≤ p.line + t.count Text.newline
  | [], skip, p => by simp [readFrom]
  | a :: rest, skip + 1, p => by
      have ih := line_after_readFrom rest skip p
      have hcount : rest.count Text.newline ≤ (a :: rest).count Text.newline :=
        List.count_le_count_cons
      simp only [readFrom]
      omega
  | a :: rest, 0, p => by
      have ih := line_after_readFrom rest (front a rest).2 (p.next (front a rest).1)
      simp only [readFrom, Position.after_cons, List.count_cons]
      by_cases hg : (front a rest).1 = .char '\n'
      · obtain rfl := eq_newline_of_front hg
        have hline : (p.next (front Text.newline rest).1).line = p.line + 1 := by
          simp [Position.next, hg]
        simp only [beq_self_eq_true, if_true]
        omega
      · have hline : (p.next (front a rest).1).line = p.line := by simp [Position.next, hg]
        omega

/-- The end of a source is on its last line. -/
theorem line_after_glyphs (source : Text) :
    (Position.start.after source.glyphs).line ≤ source.lines.length := by
  have := Glyph.line_after_readFrom source 0 Position.start
  rw [Text.lines, Text.length_splitOn]
  simpa [Text.glyphs, Position.start, Nat.add_comm] using this

/-! ## Pieces -/

/-- What is taken before an element that stops does not depend on what is behind it. -/
theorem takeWhile_append_stop {α : Type} {P : α → Bool} {x : α} (hx : P x = false)
    (xs more : List α) : (xs ++ x :: more).takeWhile P = xs.takeWhile P := by
  rw [List.takeWhile_append, List.takeWhile_cons_of_neg (by simp [hx])]
  split
  · next hall => rw [List.append_nil, (List.takeWhile_prefix P).eq_of_length hall]
  · rfl

namespace Content

variable (first : Glyph) (rest more : List Glyph)

/-- A fraction ends at a newline, whatever comes behind it. -/
theorem fraction_append_newline (gs : List Glyph) :
    fraction (gs ++ .char '\n' :: more) = fraction gs := by
  unfold fraction
  cases gs with
  | nil => rfl
  | cons g gs =>
    by_cases hg : g = .char '.'
    · subst hg
      exact takeWhile_append_stop (by decide) gs more
    · simp [hg]

/-- A fraction that is there has a point in front of it. -/
theorem length_fraction_lt {gs : List Glyph} (h : fraction gs ≠ []) :
    (fraction gs).length < gs.length := by
  unfold fraction at h ⊢
  split
  · exact Nat.lt_succ_of_le (List.takeWhile_prefix _).length_le
  · simp at h

/-- The number of glyphs that a numeral takes behind its first digit. -/
theorem numeral_length : (numeral first rest).2 = (rest.takeWhile Glyph.isDigit).length
    + (if fraction (rest.drop (rest.takeWhile Glyph.isDigit).length) = [] then 0
      else (fraction (rest.drop (rest.takeWhile Glyph.isDigit).length)).length + 1) := by
  unfold numeral
  simp only
  split <;> rfl

/-- A numeral is no longer than the glyphs at hand. -/
theorem numeral_le : (numeral first rest).2 ≤ rest.length := by
  have hdigits : (rest.takeWhile Glyph.isDigit).length ≤ rest.length :=
    (List.takeWhile_prefix _).length_le
  rw [numeral_length]
  split
  · exact hdigits
  · next hplaces =>
    have hlt := length_fraction_lt hplaces
    rw [List.length_drop] at hlt
    omega

/-- A numeral ends at a newline as it ends at the end of the source. -/
theorem numeral_append_newline :
    numeral first (rest ++ .char '\n' :: more) = numeral first rest := by
  have hdigits : (rest.takeWhile Glyph.isDigit).length ≤ rest.length :=
    (List.takeWhile_prefix _).length_le
  have htaken := numeral_le first rest
  rw [numeral_length] at htaken
  unfold numeral
  simp only [takeWhile_append_stop (show Glyph.isDigit (.char '\n') = false by decide),
    List.drop_append_of_le_length hdigits, fraction_append_newline,
    List.take_append_of_le_length htaken]

/-- A string that has its closing quote is the same whatever follows. -/
theorem string_append (hend : (string rest).1 ≠ .refused .unterminatedString) :
    string (rest ++ more) = string rest := by
  have hprefix : rest.takeWhile (· ≠ .char '"') <+: rest := List.takeWhile_prefix _
  have hlt : (rest.takeWhile (· ≠ .char '"')).length ≠ rest.length := by
    intro heq
    exact hend (by simp only [string, heq, if_true])
  have htake : (rest ++ more).takeWhile (· ≠ .char '"') = rest.takeWhile (· ≠ .char '"') := by
    rw [List.takeWhile_append, if_neg hlt]
  have hlt' : (rest.takeWhile (· ≠ .char '"')).length ≠ (rest ++ more).length := by
    have := hprefix.length_le
    rw [List.length_append]
    omega
  unfold string
  simp only [htake, if_neg hlt, if_neg hlt']

/-- So does a word. -/
theorem word_append_newline : word first (rest ++ .char '\n' :: more) = word first rest := by
  unfold word
  simp only [takeWhile_append_stop (show Glyph.isWord (.char '\n') = false by decide),
    takeWhile_append_stop (P := (· ≠ Glyph.char '\n')) (x := .char '\n') (by simp)]

/-- A piece that is not a string without its closing quote ends before a newline. -/
theorem front_append_newline (hend : (front first rest).1 ≠ .refused .unterminatedString) :
    front first (rest ++ .char '\n' :: more) = front first rest := by
  have hhead : (rest ++ .char '\n' :: more).head? = some (.char '=') ↔
      rest.head? = some (.char '=') := by
    cases rest <;> simp
  unfold front at hend ⊢
  simp only [numeral_append_newline, word_append_newline, hhead]
  split
  · rfl
  split
  · rfl
  split
  · rfl
  split
  · next hspace hdigit hletter hquote =>
    rw [if_neg hspace, if_neg hdigit, if_neg hletter, if_pos hquote] at hend
    exact string_append rest _ hend
  · rfl

/-- A piece is made of glyphs that are there. -/
theorem front_le : (front first rest).2 ≤ rest.length := by
  unfold front
  split
  · exact Nat.zero_le _
  split
  · exact numeral_le first rest
  split
  · unfold word
    simp only
    split
    · exact (List.takeWhile_prefix _).length_le
    · exact (List.takeWhile_prefix _).length_le
  split
  · unfold string
    simp only
    split
    · exact Nat.le_refl _
    · next hlt =>
      have : (rest.takeWhile (· ≠ .char '"')).length ≤ rest.length :=
        (List.takeWhile_prefix _).length_le
      exact Nat.lt_of_le_of_ne this hlt
  split
  · exact Nat.zero_le _
  · split
    · next heq =>
      cases rest with
      | nil => simp at heq
      | cons g gs => simp
    · exact Nat.zero_le _
  · split <;> exact Nat.zero_le _

end Content

/-- **Pieces before a newline do not look behind it**, save for a string that is not closed. -/
theorem piecesFrom_append_newline (more : List Glyph) : ∀ (gs : List Glyph) (skip : Nat)
    (p : Position), skip ≤ gs.length →
    (∀ piece ∈ piecesFrom skip p gs, piece.content ≠ .refused .unterminatedString) →
    piecesFrom skip p (gs ++ .char '\n' :: more) = piecesFrom skip p gs
      ++ ⟨.gap, p.after gs, [.char '\n']⟩
      :: piecesFrom 0 ((p.after gs).next (.char '\n')) more
  | [], skip, p, hskip, _ => by
      obtain rfl : skip = 0 := Nat.le_zero.mp hskip
      rfl
  | g :: gs, skip + 1, p, hskip, hend =>
      piecesFrom_append_newline more gs skip _ (Nat.le_of_succ_le_succ hskip) hend
  | g :: gs, 0, p, _, hend => by
      simp only [piecesFrom, List.forall_mem_cons] at hend
      have ih := piecesFrom_append_newline more gs _ (p.next g) (Content.front_le g gs) hend.2
      have hfront := Content.front_append_newline g gs more hend.1
      simp only [List.cons_append, piecesFrom, hfront, ih, Position.after_cons,
        List.take_append_of_le_length (Content.front_le g gs)]

/-- The line of an interpreter ends at its newline. -/
theorem hashBang_append_newline (gs more : List Glyph) :
    hashBang (gs ++ .char '\n' :: more) = hashBang gs := by
  match gs with
  | [] => rfl
  | [g] => simp [hashBang]
  | g :: g' :: gs =>
    by_cases hg : g = .char '#' ∧ g' = .char '!'
    · obtain ⟨rfl, rfl⟩ := hg
      simp only [List.cons_append, hashBang]
      rw [takeWhile_append_stop (by simp)]
    · have hnone : ∀ rest, hashBang (g :: g' :: rest) = [] := fun rest => by
        unfold hashBang
        split
        · next heq =>
          simp only [List.cons.injEq] at heq
          exact absurd ⟨heq.1, heq.2.1⟩ hg
        · rfl
      simp only [List.cons_append, hnone]

/-- The pieces of two runs of glyphs with a newline between them. -/
theorem pieces_append_newline (gs more : List Glyph)
    (hend : ∀ piece ∈ pieces gs, piece.content ≠ .refused .unterminatedString) :
    pieces (gs ++ .char '\n' :: more) = pieces gs
      ++ ⟨.gap, Position.start.after gs, [.char '\n']⟩
      :: piecesFrom 0 ((Position.start.after gs).next (.char '\n')) more := by
  unfold pieces at hend ⊢
  simp only [hashBang_append_newline] at hend ⊢
  split at hend
  · next hbang =>
    rw [if_pos hbang, if_pos hbang]
    exact piecesFrom_append_newline more gs 0 _ (Nat.zero_le _) hend
  · next hbang =>
    obtain ⟨rest, hrest⟩ := hashBang_isPrefix gs
    have hdrop : (hashBang gs ++ rest).drop (hashBang gs).length = rest := List.drop_left
    rw [hrest] at hdrop
    have hafter : Position.start.after gs = (Position.start.after (hashBang gs)).after rest := by
      rw [← Position.after_append, hrest]
    rw [if_neg hbang, if_neg hbang, List.drop_append_of_le_length (hashBang_isPrefix gs).length_le]
    rw [hdrop] at hend ⊢
    rw [piecesFrom_append_newline more rest 0 _ (Nat.zero_le _)
      (List.forall_mem_cons.mp hend).2, hafter, List.cons_append]

/-! ## Tokens -/

/-- A place some lines further down. -/
def Position.below (k : Nat) (p : Position) : Position := ⟨p.line + k, p.column⟩

/-- A token some lines further down. -/
def Token.below (k : Nat) (t : Token) : Token := { t with place := t.place.below k }

/-- A piece some lines further down. -/
def Piece.below (k : Nat) (p : Piece) : Piece := { p with place := p.place.below k }

/-- Lines further down are counted on alike. -/
theorem Position.next_below (k : Nat) (p : Position) (g : Glyph) :
    (p.below k).next g = (p.next g).below k := by
  unfold Position.next
  split
  · simp [Position.below, Nat.add_right_comm]
  · rfl

/-- Pieces do not depend on the line they start in. -/
theorem piecesFrom_below (k : Nat) : ∀ (gs : List Glyph) (skip : Nat) (p : Position),
    piecesFrom skip (p.below k) gs = (piecesFrom skip p gs).map (Piece.below k)
  | [], skip, p => by simp [piecesFrom]
  | g :: gs, skip + 1, p => by
      simp only [piecesFrom, Position.next_below, piecesFrom_below k gs]
  | g :: gs, 0, p => by
      simp only [piecesFrom, Position.next_below, piecesFrom_below k gs, List.map_cons, Piece.below]

/-- Nor does the token of a piece. -/
theorem Piece.token?_below (k : Nat) (p : Piece) :
    (p.below k).token? = p.token?.map (Token.below k) := by
  unfold Piece.token? Piece.below
  simp only
  split <;> rfl

/-- The tokens of a source without the one that marks its end. -/
def wordsOf (source : Text) : List Token := (pieces source.glyphs).filterMap Piece.token?

/-- The tokens of a source are its words and the end. -/
theorem tokens_eq_wordsOf (source : Text) : (scan source).tokens
    = wordsOf source ++ [⟨.endOfSource, [], Position.start.after source.glyphs⟩] := rfl

/-- A source that starts as a script does has a mistake behind another one. -/
theorem hashBang_eq_nil_of_piecesFrom {gs : List Glyph} {p : Position}
    (hclean : (piecesFrom 0 p gs).filterMap Piece.diagnostic? = []) : hashBang gs = [] := by
  unfold hashBang
  split
  · next rest =>
    have hrefused : Content.front (.char '#') (.char '!' :: rest)
        = (.refused (.unexpected '#'), 0) := rfl
    simp [piecesFrom, hrefused, Piece.diagnostic?] at hclean
  · rfl

/-- **The pieces of two sources with a newline between them** are those of the first, the newline, and
those of the second, as many lines further down as the first has. -/
theorem pieces_joined {p q : Text}
    (hclosed : ∀ piece ∈ pieces p.glyphs, piece.content ≠ .refused .unterminatedString)
    (hbang : hashBang q.glyphs = []) :
    pieces (Text.glyphs (p ++ Text.newline :: q)) = pieces p.glyphs
      ++ ⟨.gap, Position.start.after p.glyphs, [.char '\n']⟩
      :: (pieces q.glyphs).map (Piece.below (Position.start.after p.glyphs).line) := by
  have hnext : (Position.start.after p.glyphs).next (.char '\n')
      = Position.start.below (Position.start.after p.glyphs).line := by
    simp [Position.next, Position.below, Position.start, Nat.add_comm]
  have hq : pieces q.glyphs = piecesFrom 0 .start q.glyphs := by simp [pieces, hbang]
  rw [Text.glyphs_append_newline, pieces_append_newline p.glyphs q.glyphs hclosed, hnext,
    piecesFrom_below, ← hq]

/-- The tokens of two sources with a newline between them are those of the first and those of the
second, as many lines further down as the first has. -/
theorem wordsOf_append_newline {p q : Text}
    (hclosed : ∀ piece ∈ pieces p.glyphs, piece.content ≠ .refused .unterminatedString)
    (hbang : hashBang q.glyphs = []) : wordsOf (p ++ Text.newline :: q) = wordsOf p
      ++ (wordsOf q).map (Token.below (Position.start.after p.glyphs).line) := by
  unfold wordsOf
  rw [pieces_joined hclosed hbang, List.filterMap_append, List.filterMap_cons_none rfl,
    List.filterMap_map, List.map_filterMap]
  congr 2
  funext piece
  exact piece.token?_below _

/-- A source in which no string is left open has no piece that is one. -/
theorem content_ne_unterminated {source : Text}
    (h : ∀ d ∈ (scan source).diagnostics, d.cause ≠ .lexical .unterminatedString) :
    ∀ piece ∈ pieces source.glyphs, piece.content ≠ .refused .unterminatedString := by
  intro piece hpiece hcontent
  have hmistake : ∃ d, piece.diagnostic? = some d ∧ d.cause = .lexical .unterminatedString := by
    simp [Piece.diagnostic?, hcontent]
  obtain ⟨d, hd, hcause⟩ := hmistake
  exact h d (List.mem_filterMap.mpr ⟨piece, hpiece, hd⟩) hcause

/-- Two sources have all their tokens if no mistake is found in the first one nor in both together. -/
theorem wordsOf_joined {p q : Text} (hp : (scan p).diagnostics = [])
    (hpq : (scan (p ++ Text.newline :: q)).diagnostics = []) :
    wordsOf (p ++ Text.newline :: q) = wordsOf p
      ++ (wordsOf q).map (Token.below (Position.start.after p.glyphs).line) := by
  have hclosed : ∀ piece ∈ pieces p.glyphs, piece.content ≠ .refused .unterminatedString :=
    content_ne_unterminated (by simp [hp])
  refine wordsOf_append_newline hclosed ?_
  have hclean : (pieces (Text.glyphs (p ++ Text.newline :: q))).filterMap Piece.diagnostic? = [] := hpq
  rw [Text.glyphs_append_newline, pieces_append_newline p.glyphs q.glyphs hclosed,
    List.filterMap_append, List.filterMap_cons_none rfl, List.append_eq_nil_iff] at hclean
  exact hashBang_eq_nil_of_piecesFrom hclean.2

/-! ## What tokens are not -/

/-- No glyph is the end of the source. -/
theorem Content.symbol?_ne_endOfSource (g : Glyph) : Content.symbol? g ≠ some .endOfSource := by
  unfold Content.symbol?
  split <;> simp

/-- Nor is a keyword. -/
theorem lookup_ne_endOfSource (spelling : Text) :
    keywords.lookup spelling ≠ some .endOfSource := by
  intro h
  obtain ⟨before, after, heq, -⟩ := List.lookup_eq_some_iff.mp h
  have hmem : (spelling, TokenKind.endOfSource) ∈ keywords := by simp [heq]
  simp [keywords] at hmem

/-- No piece of a source marks its end. -/
theorem Content.front_ne_endOfSource (first : Glyph) (rest : List Glyph) :
    (Content.front first rest).1 ≠ .token .endOfSource := by
  unfold Content.front
  split
  · simp
  split
  · unfold Content.numeral
    simp only
    split <;> simp
  split
  · unfold Content.word
    simp only
    split
    · simp
    · have hne := lookup_ne_endOfSource (Text.ofGlyphs (first :: rest.takeWhile Glyph.isWord))
      cases hl : keywords.lookup (Text.ofGlyphs (first :: rest.takeWhile Glyph.isWord)) with
      | none => simp
      | some kind => simpa [hl] using hne
  split
  · unfold Content.string
    simp only
    split <;> simp
  split
  · next hsymbol =>
    have hne := Content.symbol?_ne_endOfSource first
    rw [hsymbol] at hne
    simpa using hne
  · next alone withEqual hcomparison =>
    unfold Content.comparison? at hcomparison
    split at hcomparison <;> simp only [Option.some.injEq, Prod.mk.injEq, reduceCtorEq] at hcomparison
    all_goals
      obtain ⟨rfl, rfl⟩ := hcomparison
      split <;> simp
  · split <;> simp

/-- A token of a source does not mark its end, and is on one of its lines. -/
theorem of_mem_wordsOf {source : Text} : ∀ t ∈ wordsOf source,
    t.kind ≠ .endOfSource ∧ t.place.line ≤ source.lines.length := by
  have hpieces : ∀ piece ∈ pieces source.glyphs, ∀ t ∈ piece.token?,
      t.kind ≠ .endOfSource ∧ t.place.line ≤ source.lines.length := by
    refine forall_mem_pieces _ (by simp [Piece.token?]) fun g rest p hline t ht => ?_
    unfold Piece.token? at ht
    split at ht
    · next kind hkind =>
      obtain rfl := Option.some.inj ht
      refine ⟨fun hend => ?_, Nat.le_trans hline (line_after_glyphs source)⟩
      exact Content.front_ne_endOfSource g rest (hkind.trans (congrArg Content.token hend))
    · simp at ht
  intro t ht
  obtain ⟨piece, hpiece, ht⟩ := List.mem_filterMap.mp ht
  exact hpieces piece hpiece t ht

end YouthLang

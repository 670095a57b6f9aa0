import YouthLang.Proofs.Scanning.Joined

/-!
# Proofs/Scanning/Partition — the pieces of a source are the whole source

Reading a text as glyphs loses no byte (`Text.ofGlyphs_glyphs`), and each piece starts where the piece
before it ends, so the pieces put together are the source (`flatMap_text_pieces`).  A piece is what
stands at the front of the rest of the source, or the `#!` line (`Piece.origin`).
-/

namespace YouthLang

/-! ## Glyphs and bytes -/

namespace Glyph

variable {a b c d : UInt8} {x : Char}

theorem payload_eq (hlo : 0x80 ≤ b) (hhi : b ≤ 0xBF) :
    payload b + 0x80 = b.toNat ∧ b.toNat ≤ 0xBF := by
  have hall : ∀ b : UInt8, 0x80 ≤ b → b ≤ 0xBF → payload b + 0x80 = b.toNat ∧ b.toNat ≤ 0xBF :=
    forall_byte (by decide +kernel)
  exact hall b hlo hhi

theorem toNat_ofNat {n : Nat} (h : n.isValidChar) : (Char.ofNat n).val.toNat = n := by
  rw [Char.ofNat, dif_pos h]
  rfl

theorem ofNat_eq {n : Nat} (h : n = b.toNat) : UInt8.ofNat n = b := by
  rw [h, UInt8.ofNat_toNat]

theorem encode_one (h : a < 0x80) : encode (.char (Char.ofNat a.toNat)) = [a] := by
  have hlt : a.toNat < 0x80 := UInt8.lt_iff_toNat_lt.mp h
  have hvalid : a.toNat.isValidChar := .inl (by omega)
  simp only [encode, String.utf8EncodeChar, toNat_ofNat hvalid]
  rw [if_pos (by omega), ofNat_eq rfl]

theorem encode_two (h : two? a b = some x) : encode (.char x) = [a, b] := by
  have hlead : ∀ a : UInt8, 0xC2 ≤ a → a ≤ 0xDF →
      (a &&& 0x1F).toNat + 0xC0 = a.toNat ∧ 0xC2 ≤ a.toNat ∧ a.toNat ≤ 0xDF :=
    forall_byte (by decide +kernel)
  simp only [two?, Option.ite_none_right_eq_some, Bool.and_eq_true, decide_eq_true_eq, continues] at h
  obtain ⟨⟨ha, hb⟩, h⟩ := h
  obtain rfl := Option.some.inj h
  obtain ⟨hlead, hlo, hhi⟩ := hlead a ha.1 ha.2
  obtain ⟨hb, hb'⟩ := payload_eq hb.1 hb.2
  have hvalid : ((a &&& 0x1F).toNat * 64 + payload b).isValidChar := .inl (by omega)
  simp only [encode, String.utf8EncodeChar, toNat_ofNat hvalid]
  rw [if_neg (by omega), if_pos (by omega), ofNat_eq (b := a) (by omega),
    ofNat_eq (b := b) (by omega)]

/-- The second byte of a long sequence, whose bounds depend on the first. -/
theorem second_eq_payload {k l m n : UInt8} (hl : 0x80 ≤ l) (hn : n ≤ 0xBF)
    (hlo : (if a = k then l else 0x80) ≤ b) (hhi : b ≤ if a = m then n else 0xBF) :
    payload b + 0x80 = b.toNat ∧ b.toNat ≤ 0xBF
      ∧ (a.toNat = k.toNat → l.toNat ≤ b.toNat) ∧ (a.toNat = m.toNat → b.toNat ≤ n.toNat) := by
  have hb80 : 0x80 ≤ b := by
    refine UInt8.le_trans ?_ hlo
    split
    · exact hl
    · decide
  have hbBF : b ≤ 0xBF := by
    refine UInt8.le_trans hhi ?_
    split
    · exact hn
    · decide
  obtain ⟨hpayload, hle⟩ := payload_eq hb80 hbBF
  refine ⟨hpayload, hle, fun heq => ?_, fun heq => ?_⟩
  · rw [if_pos (UInt8.toNat_inj.mp heq)] at hlo
    exact UInt8.le_iff_toNat_le.mp hlo
  · rw [if_pos (UInt8.toNat_inj.mp heq)] at hhi
    exact UInt8.le_iff_toNat_le.mp hhi

theorem encode_three (h : three? a b c = some x) : encode (.char x) = [a, b, c] := by
  have hlead : ∀ a : UInt8, 0xE0 ≤ a → a ≤ 0xEF →
      (a &&& 0x0F).toNat + 0xE0 = a.toNat ∧ 0xE0 ≤ a.toNat ∧ a.toNat ≤ 0xEF :=
    forall_byte (by decide +kernel)
  simp only [three?, Option.ite_none_right_eq_some, Bool.and_eq_true, decide_eq_true_eq,
    continues] at h
  obtain ⟨⟨⟨ha, hb⟩, hc⟩, h⟩ := h
  obtain rfl := Option.some.inj h
  obtain ⟨hlead, hlo, hhi⟩ := hlead a ha.1 ha.2
  -- No overlong form and no surrogate, so the number takes three bytes and is a character's.
  obtain ⟨hb, hb', hlong, hsurrogate⟩ := second_eq_payload (by decide) (by decide) hb.1 hb.2
  obtain ⟨hc, hc'⟩ := payload_eq hc.1 hc.2
  rw [show (0xE0 : UInt8).toNat = 0xE0 from rfl, show (0xA0 : UInt8).toNat = 0xA0 from rfl] at hlong
  rw [show (0xED : UInt8).toNat = 0xED from rfl, show (0x9F : UInt8).toNat = 0x9F from rfl]
    at hsurrogate
  generalize (a &&& 0x0F).toNat = p at hlead ⊢
  generalize payload b = q at hb ⊢
  generalize payload c = r at hc ⊢
  have hvalid : ((p * 64 + q) * 64 + r).isValidChar := by
    unfold Nat.isValidChar
    omega
  simp only [encode, String.utf8EncodeChar, toNat_ofNat hvalid]
  rw [if_neg (by omega), if_neg (by omega), if_pos (by omega), ofNat_eq (b := a) (by omega),
    ofNat_eq (b := b) (by omega), ofNat_eq (b := c) (by omega)]

theorem encode_four (h : four? a b c d = some x) : encode (.char x) = [a, b, c, d] := by
  have hlead : ∀ a : UInt8, 0xF0 ≤ a → a ≤ 0xF4 →
      (a &&& 0x07).toNat + 0xF0 = a.toNat ∧ 0xF0 ≤ a.toNat ∧ a.toNat ≤ 0xF4 :=
    forall_byte (by decide +kernel)
  simp only [four?, Option.ite_none_right_eq_some, Bool.and_eq_true, decide_eq_true_eq,
    continues] at h
  obtain ⟨⟨⟨⟨ha, hb⟩, hc⟩, hd⟩, h⟩ := h
  obtain rfl := Option.some.inj h
  obtain ⟨hlead, hlo, hhi⟩ := hlead a ha.1 ha.2
  -- No overlong form and nothing past the last character.
  obtain ⟨hb, hb', hlong, hlast⟩ := second_eq_payload (by decide) (by decide) hb.1 hb.2
  obtain ⟨hc, hc'⟩ := payload_eq hc.1 hc.2
  obtain ⟨hd, hd'⟩ := payload_eq hd.1 hd.2
  rw [show (0xF0 : UInt8).toNat = 0xF0 from rfl, show (0x90 : UInt8).toNat = 0x90 from rfl] at hlong
  rw [show (0xF4 : UInt8).toNat = 0xF4 from rfl, show (0x8F : UInt8).toNat = 0x8F from rfl] at hlast
  generalize (a &&& 0x07).toNat = p at hlead ⊢
  generalize payload b = q at hb ⊢
  generalize payload c = r at hc ⊢
  generalize payload d = s at hd ⊢
  have hvalid : (((p * 64 + q) * 64 + r) * 64 + s).isValidChar := by
    unfold Nat.isValidChar
    omega
  simp only [encode, String.utf8EncodeChar, toNat_ofNat hvalid]
  rw [if_neg (by omega), if_neg (by omega), if_neg (by omega), ofNat_eq (b := a) (by omega),
    ofNat_eq (b := b) (by omega), ofNat_eq (b := c) (by omega), ofNat_eq (b := d) (by omega)]

/-- **A glyph is made of the bytes that it was read from.** -/
theorem encode_front (a : UInt8) (rest : Text) :
    (front a rest).1.encode = a :: rest.take (front a rest).2 := by
  unfold front
  split
  · next h => simp [encode_one h]
  · match rest with
    | [] => rfl
    | [b] =>
      cases h2 : two? a b with
      | none => simp [h2, encode]
      | some x => simp [h2, encode_two h2]
    | [b, c] =>
      cases h2 : two? a b with
      | some x => simp [h2, encode_two h2]
      | none =>
        cases h3 : three? a b c with
        | none => simp [h2, h3, encode]
        | some x => simp [h2, h3, encode_three h3]
    | b :: c :: d :: _ =>
      cases h2 : two? a b with
      | some x => simp [h2, encode_two h2]
      | none =>
        cases h3 : three? a b c with
        | some x => simp [h2, h3, encode_three h3]
        | none =>
          cases h4 : four? a b c d with
          | none => simp [h2, h3, h4, encode]
          | some x => simp [h2, h3, h4, encode_four h4]

theorem flatMap_readFrom : ∀ (t : Text) (skip : Nat),
    (readFrom skip t).flatMap encode = t.drop skip
  | [], skip => by simp [readFrom]
  | a :: rest, skip + 1 => by simp [readFrom, flatMap_readFrom rest skip]
  | a :: rest, 0 => by
      simp [readFrom, flatMap_readFrom rest (front a rest).2, encode_front]

end Glyph

namespace Text

@[simp] theorem ofGlyphs_nil : ofGlyphs [] = [] := rfl

@[simp] theorem ofGlyphs_cons (g : Glyph) (gs : List Glyph) :
    ofGlyphs (g :: gs) = g.encode ++ ofGlyphs gs := List.flatMap_cons

@[simp] theorem ofGlyphs_append (gs hs : List Glyph) :
    ofGlyphs (gs ++ hs) = ofGlyphs gs ++ ofGlyphs hs := List.flatMap_append

theorem ofGlyphs_flatMap {α : Type} (f : α → List Glyph) (xs : List α) :
    ofGlyphs (xs.flatMap f) = xs.flatMap fun x => ofGlyphs (f x) := List.flatMap_assoc

/-- **Reading a text as glyphs loses no byte.** -/
@[simp] theorem ofGlyphs_glyphs (t : Text) : ofGlyphs t.glyphs = t := Glyph.flatMap_readFrom t 0

theorem length_ofGlyphs_pos {gs : List Glyph} (h : gs ≠ []) : 0 < (ofGlyphs gs).length := by
  obtain ⟨g, gs, rfl⟩ := List.exists_cons_of_ne_nil h
  have := List.length_pos_iff.mpr g.encode_ne_nil
  rw [ofGlyphs_cons, List.length_append]
  omega

/-- A byte below `0x80` is a glyph of its own. -/
theorem glyphs_cons_ascii {b : UInt8} (hb : b < 0x80) (t : Text) :
    Text.glyphs (b :: t) = .char (Char.ofNat b.toNat) :: t.glyphs := by
  have hfront : Glyph.front b t = (.char (Char.ofNat b.toNat), 0) := by
    rw [Glyph.front.eq_def, if_pos hb]
  simp [glyphs, Glyph.readFrom, hfront]

/-- Bytes below `0x80` are glyphs of their own, whatever stands behind them. -/
theorem glyphs_append_of_ascii {m : Text} (hm : ∀ b ∈ m, b < 0x80) (t : Text) :
    Text.glyphs (m ++ t) = m.glyphs ++ t.glyphs := by
  induction m with
  | nil => rfl
  | cons b m ih =>
    obtain ⟨hb, hm⟩ := List.forall_mem_cons.mp hm
    rw [List.cons_append, glyphs_cons_ascii hb, glyphs_cons_ascii hb, ih hm, List.cons_append]

/-- No newline is read where there is none. -/
theorem newline_not_mem_glyphs {t : Text} (h : newline ∉ t) : .char '\n' ∉ t.glyphs := by
  intro hmem
  have hbyte : newline ∈ ofGlyphs t.glyphs := List.mem_flatMap.mpr ⟨_, hmem, by decide⟩
  rw [ofGlyphs_glyphs] at hbyte
  exact h hbyte

end Text

/-! ## Pieces -/

/-- The bytes of a piece. -/
def Piece.text (p : Piece) : Text := Text.ofGlyphs p.glyphs

theorem flatMap_piecesFrom : ∀ (gs : List Glyph) (skip : Nat) (p : Position),
    (piecesFrom skip p gs).flatMap Piece.glyphs = gs.drop skip
  | [], skip, p => by simp [piecesFrom]
  | g :: gs, skip + 1, p => by simp [piecesFrom, flatMap_piecesFrom gs skip]
  | g :: gs, 0, p => by
      simp [piecesFrom, flatMap_piecesFrom gs (Content.front g gs).2]

theorem flatMap_glyphs_pieces (gs : List Glyph) : (pieces gs).flatMap Piece.glyphs = gs := by
  unfold pieces
  simp only
  split
  · exact flatMap_piecesFrom gs 0 _
  · rw [List.flatMap_cons, flatMap_piecesFrom, List.drop_zero]
    exact List.prefix_iff_eq_append.mp (hashBang_isPrefix gs)

/-- **The pieces of a source are the source**, every byte of it once. -/
theorem flatMap_text_pieces (source : Text) : (pieces source.glyphs).flatMap Piece.text = source := by
  have hglyphs := congrArg Text.ofGlyphs (flatMap_glyphs_pieces source.glyphs)
  rwa [Text.ofGlyphs_flatMap, Text.ofGlyphs_glyphs] at hglyphs

theorem piecesFrom_origin {piece : Piece} {behind : List Piece} : ∀ (gs : List Glyph) (skip : Nat)
    (p : Position) (before : List Piece), piecesFrom skip p gs = before ++ piece :: behind →
    ∃ g rest, gs.drop skip = before.flatMap Piece.glyphs ++ g :: rest
      ∧ piece.content = (Content.front g rest).1
      ∧ piece.glyphs = g :: rest.take (Content.front g rest).2
  | [], skip, p, before, h => by simp [piecesFrom] at h
  | g :: gs, skip + 1, p, before, h => piecesFrom_origin gs skip _ before h
  | g :: gs, 0, p, [], h => by
      obtain ⟨rfl, -⟩ := List.cons.inj h
      exact ⟨g, gs, rfl, rfl, rfl⟩
  | g :: gs, 0, p, first :: before, h => by
      obtain ⟨rfl, hbefore⟩ := List.cons.inj h
      obtain ⟨g', rest, hrest, horigin⟩ := piecesFrom_origin gs _ _ before hbefore
      refine ⟨g', rest, ?_, horigin⟩
      rw [List.flatMap_cons, List.append_assoc, ← hrest, List.cons_append, List.take_append_drop]
      rfl

/-- What a piece was found to be is what stands at the front of the source behind the pieces before
it, unless it is the `#!` line. -/
theorem Piece.origin {gs : List Glyph} {before behind : List Piece} {piece : Piece}
    (h : pieces gs = before ++ piece :: behind) :
    (before = [] ∧ piece.content = .gap ∧ piece.glyphs = hashBang gs)
      ∨ ∃ g rest, gs = before.flatMap Piece.glyphs ++ g :: rest
        ∧ piece.content = (Content.front g rest).1
        ∧ piece.glyphs = g :: rest.take (Content.front g rest).2 := by
  unfold pieces at h
  simp only at h
  split at h
  · exact .inr (piecesFrom_origin gs 0 _ before h)
  · cases before with
    | nil =>
      obtain ⟨rfl, -⟩ := List.cons.inj h
      exact .inl ⟨rfl, rfl, rfl⟩
    | cons first before =>
      obtain ⟨rfl, hbefore⟩ := List.cons.inj h
      obtain ⟨g, rest, hrest, horigin⟩ := piecesFrom_origin _ 0 _ before hbefore
      refine .inr ⟨g, rest, ?_, horigin⟩
      rw [List.flatMap_cons, List.append_assoc, ← hrest, List.drop_zero]
      exact (List.prefix_iff_eq_append.mp (hashBang_isPrefix gs)).symm

/-! ## Bytes and tokens -/

/-- A token of a source, and the number of bytes in front of it. -/
def TokenAt (source : Text) (first : Nat) (t : Token) : Prop :=
  ∃ before piece behind, pieces source.glyphs = before ++ piece :: behind ∧ piece.token? = some t
    ∧ first = (before.flatMap Piece.text).length

/-- The bytes from one up to another are no token's. -/
def Clear (source : Text) (first last : Nat) : Prop :=
  ∀ start t, TokenAt source start t → start + t.lexeme.length ≤ first ∨ last ≤ start

theorem Piece.lexeme_of_token? {piece : Piece} {t : Token} (h : piece.token? = some t) :
    piece.content = .token t.kind ∧ t.lexeme = piece.text := by
  unfold Piece.token? at h
  split at h
  · next kind hkind =>
    obtain rfl := Option.some.inj h
    exact ⟨hkind, rfl⟩
  · simp at h

/-- The tokens of a source, the mark of its end apart, are those that stand somewhere in it. -/
theorem mem_wordsOf_iff {source : Text} {t : Token} :
    t ∈ wordsOf source ↔ ∃ first, TokenAt source first t := by
  constructor
  · intro h
    obtain ⟨piece, hpiece, ht⟩ := List.mem_filterMap.mp h
    obtain ⟨before, behind, hsplit⟩ := List.append_of_mem hpiece
    exact ⟨_, before, piece, behind, hsplit, ht, rfl⟩
  · rintro ⟨first, before, piece, behind, hsplit, ht, -⟩
    exact List.mem_filterMap.mpr ⟨piece, by simp [hsplit], ht⟩

/-- The one of several runs that a position falls into. -/
theorem exists_of_lt_length_flatMap {α β : Type} (f : α → List β) : ∀ (xs : List α) (n : Nat),
    n < (xs.flatMap f).length → ∃ before x behind, xs = before ++ x :: behind
      ∧ (before.flatMap f).length ≤ n ∧ n < (before.flatMap f).length + (f x).length
  | [], n, h => by simp at h
  | x :: xs, n, h => by
      by_cases hx : n < (f x).length
      · exact ⟨[], x, xs, rfl, Nat.zero_le _, by simpa using hx⟩
      · rw [List.flatMap_cons, List.length_append] at h
        obtain ⟨before, y, behind, rfl, hle, hlt⟩ :=
          exists_of_lt_length_flatMap f xs (n - (f x).length) (by omega)
        refine ⟨x :: before, y, behind, rfl, ?_⟩
        rw [List.flatMap_cons, List.length_append]
        omega

/-- Two members of a list are the same one, or one stands in front of the other. -/
theorem split_cases {α : Type} {xs before behind before' behind' : List α} {x x' : α}
    (h : xs = before ++ x :: behind) (h' : xs = before' ++ x' :: behind') :
    before = before' ∧ x = x' ∨ (∃ between, before' = before ++ x :: between)
      ∨ ∃ between, before = before' ++ x' :: between := by
  rw [h] at h'
  obtain ⟨between, rfl, hx⟩ | ⟨between, rfl, hx⟩ := List.append_eq_append_iff.mp h'
  · cases between with
    | nil => exact .inl ⟨by simp, (List.cons.inj hx).1⟩
    | cons y between =>
      obtain ⟨rfl, -⟩ := List.cons.inj hx
      exact .inr (.inl ⟨between, rfl⟩)
  · cases between with
    | nil => exact .inl ⟨by simp, (List.cons.inj hx).1.symm⟩
    | cons y between =>
      obtain ⟨rfl, -⟩ := List.cons.inj hx
      exact .inr (.inr ⟨between, rfl⟩)

/-- No token reaches into a piece that is none. -/
theorem clear_of_piece {source : Text} {before behind : List Piece} {piece : Piece}
    (h : pieces source.glyphs = before ++ piece :: behind) (hnone : piece.token? = none)
    {first last : Nat} (hfirst : (before.flatMap Piece.text).length ≤ first)
    (hlast : last ≤ (before.flatMap Piece.text).length + piece.text.length) :
    Clear source first last := by
  rintro start t ⟨before', piece', behind', h', ht, rfl⟩
  obtain ⟨-, rfl⟩ | ⟨between, rfl⟩ | ⟨between, rfl⟩ := split_cases h h'
  · simp [ht] at hnone
  · right
    rw [List.flatMap_append, List.flatMap_cons, List.length_append, List.length_append]
    omega
  · left
    rw [List.flatMap_append, List.flatMap_cons, List.length_append, List.length_append] at hfirst
    rw [(Piece.lexeme_of_token? ht).2]
    omega

end YouthLang

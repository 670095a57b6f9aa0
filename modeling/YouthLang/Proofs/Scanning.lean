import YouthLang.Proofs.Settled
import YouthLang.Token.Scan

/-!
# Proofs/Scanning — the tokens of a source
-/

namespace YouthLang

/-! ## Places -/

namespace Position

variable (p : Position) (g : Glyph) (gs : List Glyph)

@[simp] theorem after_nil : p.after [] = p := rfl

@[simp] theorem after_cons : p.after (g :: gs) = (p.next g).after gs := rfl

theorem after_append (more : List Glyph) : p.after (gs ++ more) = (p.after gs).after more :=
  List.foldl_append

theorem line_le_next : p.line ≤ (p.next g).line := by
  unfold next
  split
  · exact Nat.le_succ _
  · exact Nat.le_refl _

theorem line_le_after : p.line ≤ (p.after gs).line := by
  induction gs generalizing p with
  | nil => exact Nat.le_refl _
  | cons g gs ih => exact Nat.le_trans (p.line_le_next g) (ih _)

end Position

/-! ## Pieces -/

theorem forall_mem_piecesFrom {P : Piece → Prop} : ∀ (gs : List Glyph) (skip : Nat) (p : Position),
    (∀ g rest p', p'.line ≤ (p.after gs).line →
      P ⟨(Content.front g rest).1, p', g :: rest.take (Content.front g rest).2⟩) →
    ∀ piece ∈ piecesFrom skip p gs, P piece
  | [], skip, p, _, piece, hpiece => by simp [piecesFrom] at hpiece
  | g :: gs, skip + 1, p, h, piece, hpiece =>
      forall_mem_piecesFrom gs skip (p.next g) h piece hpiece
  | g :: gs, 0, p, h, piece, hpiece => by
      rcases List.mem_cons.mp hpiece with rfl | hpiece
      · exact h g gs p (p.line_le_after (g :: gs))
      · exact forall_mem_piecesFrom gs _ (p.next g) h piece hpiece

theorem hashBang_isPrefix (gs : List Glyph) : hashBang gs <+: gs := by
  unfold hashBang
  split
  · exact List.cons_prefix_cons.mpr
      ⟨rfl, List.cons_prefix_cons.mpr ⟨rfl, List.takeWhile_prefix _⟩⟩
  · exact List.nil_prefix

/-- What holds of the first line of a script and of everything that is found at the front of a run of
glyphs holds of every piece of a source. -/
theorem forall_mem_pieces {P : Piece → Prop} (gs : List Glyph)
    (hbang : P ⟨.gap, .start, hashBang gs⟩)
    (h : ∀ g rest p, p.line ≤ (Position.start.after gs).line →
      P ⟨(Content.front g rest).1, p, g :: rest.take (Content.front g rest).2⟩) :
    ∀ piece ∈ pieces gs, P piece := by
  intro piece hpiece
  unfold pieces at hpiece
  simp only at hpiece
  split at hpiece
  · exact forall_mem_piecesFrom gs 0 .start h piece hpiece
  · rcases List.mem_cons.mp hpiece with rfl | hpiece
    · exact hbang
    · obtain ⟨rest, hrest⟩ := hashBang_isPrefix gs
      refine forall_mem_piecesFrom _ 0 _ (fun g rest' p hline => h g rest' p ?_) piece hpiece
      have hdrop : (hashBang gs ++ rest).drop (hashBang gs).length = rest := List.drop_left
      rw [hrest] at hdrop
      rwa [hdrop, ← Position.after_append, hrest] at hline

/-! ## Spelling -/

/-- Only one word is the receiver's. -/
theorem eq_receiver_of_lookup {spelling : Text} (h : keywords.lookup spelling = some .meKey) :
    spelling = receiver := by
  obtain ⟨before, after, heq, -⟩ := List.lookup_eq_some_iff.mp h
  have hmem : (spelling, TokenKind.meKey) ∈ keywords := by simp [heq]
  simpa [keywords, receiver] using hmem

/-- The kinds that a word may have. -/
def TokenKind.isWord (kind : TokenKind) : Bool := kind = .identifier || kind = .meKey

theorem Content.symbol?_isWord {g : Glyph} {kind : TokenKind} (h : Content.symbol? g = some kind) :
    kind.isWord = false := by
  unfold Content.symbol? at h
  split at h <;> first | (obtain rfl := Option.some.inj h; rfl) | exact absurd h (by simp)

theorem Content.comparison?_isWord {g : Glyph} {alone withEqual : TokenKind}
    (h : Content.comparison? g = some (alone, withEqual)) :
    alone.isWord = false ∧ withEqual.isWord = false := by
  unfold Content.comparison? at h
  split at h <;> simp only [Option.some.injEq, Prod.mk.injEq, reduceCtorEq] at h
  all_goals
    obtain ⟨rfl, rfl⟩ := h
    exact ⟨rfl, rfl⟩

/-- A token of a word's kind is a word, and its kind was found by its text. -/
theorem Content.front_word {first : Glyph} {rest : List Glyph} {kind : TokenKind} {n : Nat}
    (h : Content.front first rest = (.token kind, n)) (hk : kind.isWord = true) :
    kind = (keywords.lookup (Text.ofGlyphs (first :: rest.take n))).getD .identifier := by
  unfold Content.front at h
  split at h
  · simp at h
  split at h
  · unfold Content.numeral at h
    simp only at h
    split at h
    · obtain ⟨rfl, -⟩ : _ ∧ _ := by simpa using h
      simp [TokenKind.isWord] at hk
    · simp at h
  split at h
  · unfold Content.word at h
    simp only at h
    split at h
    · simp at h
    · obtain ⟨rfl, rfl⟩ : _ ∧ _ := by simpa using h
      rw [← List.prefix_iff_eq_take.mp (List.takeWhile_prefix _)]
  split at h
  · unfold Content.string at h
    simp only at h
    split at h
    · simp at h
    · obtain ⟨rfl, -⟩ : _ ∧ _ := by simpa using h
      simp [TokenKind.isWord] at hk
  split at h
  · next hsymbol =>
    obtain ⟨rfl, -⟩ : _ ∧ _ := by simpa using h
    simp [Content.symbol?_isWord hsymbol] at hk
  · next hcomparison =>
    obtain ⟨halone, hequal⟩ := Content.comparison?_isWord hcomparison
    split at h
    · obtain ⟨rfl, -⟩ : _ ∧ _ := by simpa using h
      simp [hequal] at hk
    · obtain ⟨rfl, -⟩ : _ ∧ _ := by simpa using h
      simp [halone] at hk
  · split at h <;> simp at h

/-- A token whose kind was found by its text is spelled as the language spells it. -/
theorem Token.spelled_of_lookup {t : Token}
    (h : t.kind.isWord = true → t.kind = (keywords.lookup t.lexeme).getD .identifier) :
    t.Spelled := by
  refine ⟨fun hk hl => ?_, fun hk => ?_⟩
  · have hword := h (by simp [hk, TokenKind.isWord])
    have hme : keywords.lookup receiver = some .meKey := by decide
    rw [hk, hl, hme] at hword
    exact absurd hword (by decide)
  · have hword := h (by simp [hk, TokenKind.isWord])
    rw [hk] at hword
    cases hl : keywords.lookup t.lexeme with
    | none => rw [hl] at hword; exact absurd hword (by decide)
    | some kind =>
      rw [hl] at hword
      exact eq_receiver_of_lookup (hl.trans (congrArg some hword.symm))

/-- **Every token of a source is spelled as the language spells it.** -/
theorem spelled_of_mem_tokens {source : Text} : ∀ t ∈ (scan source).tokens, t.Spelled := by
  have hpieces : ∀ piece ∈ pieces source.glyphs, ∀ t ∈ piece.token?, t.Spelled := by
    refine forall_mem_pieces _ (by simp [Piece.token?]) fun g rest p _ t ht => ?_
    unfold Piece.token? at ht
    split at ht
    · next kind hkind =>
      obtain rfl := Option.some.inj ht
      exact Token.spelled_of_lookup fun hw => Content.front_word (Prod.ext hkind rfl) hw
    · simp at ht
  intro t ht
  rcases List.mem_append.mp ht with ht | ht
  · obtain ⟨piece, hpiece, ht⟩ := List.mem_filterMap.mp ht
    exact hpieces piece hpiece t ht
  · obtain rfl := List.mem_singleton.mp ht
    exact Token.spelled_of_lookup fun hw => by simp [TokenKind.isWord] at hw

/-- The last token of a source marks its end. -/
theorem getLast?_tokens (source : Text) :
    ∃ t, (scan source).tokens.getLast? = some t ∧ t.kind = .endOfSource :=
  ⟨_, List.getLast?_concat, rfl⟩

end YouthLang

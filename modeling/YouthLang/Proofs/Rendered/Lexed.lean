import YouthLang.Proofs.Built
import YouthLang.Proofs.Numerals
import YouthLang.Proofs.Rendered.Sheets

/-!
# Proofs/Rendered/Lexed — the words of a parsed tree

The tokens that a parsed tree keeps are lexemes, each of the kind that belongs in its place, and its
literals are values of lexemes (`Stmt.Lexed`, `parse_lexed`).  A lexeme that is neither a string nor a
parenthesis is one word of a written tree (`Text.IsLexeme.isWord`).
-/

namespace YouthLang

/-! ## Lexemes -/

/-- The characters that end a word of a written tree, and the quote. -/
def Glyph.isMark (g : Glyph) : Bool :=
  g ∈ [.char '(', .char ')', .char ' ', .char '\n', .char '"']

theorem Glyph.isMark_cases {g : Glyph} (h : g.isMark = true) :
    g.isWord = false ∧ g ≠ .char '.' ∧ g ≠ .char '=' ∧ Content.comparison? g = none
      ∧ Content.symbol? g ∈ [none, some .leftParen, some .rightParen] := by
  have hmem : g ∈ [.char '(', .char ')', .char ' ', .char '\n', .char '"'] := of_decide_eq_true h
  simp only [List.mem_cons, List.not_mem_nil, or_false] at hmem
  obtain rfl | rfl | rfl | rfl | rfl := hmem <;>
    exact ⟨by decide, by decide, by decide, rfl, by decide⟩

/-- The kinds whose lexemes are words of a written tree. -/
def TokenKind.isSingle : TokenKind → Bool
  | .string _ | .leftParen | .rightParen => false
  | _ => true

namespace Content

variable {first : Glyph} {rest : List Glyph} {kind : TokenKind}

/-- What a numeral takes behind its first digit. -/
theorem of_mem_numeral (hall : (numeral first rest).2 = rest.length) :
    ∀ g ∈ rest, g.isDigit = true ∨ g = .char '.' := by
  have hsplit := whole_append_drop rest
  have hdigits : ∀ g ∈ rest.takeWhile Glyph.isDigit, g.isDigit = true :=
    fun g hg => List.mem_takeWhile_imp hg
  rw [numeral_length] at hall
  generalize rest.takeWhile Glyph.isDigit = whole at hsplit hdigits hall
  generalize rest.drop whole.length = behind at hsplit hall
  subst hsplit
  rw [List.length_append, Nat.add_left_cancel_iff] at hall
  intro g hg
  obtain hg | hg := List.mem_append.mp hg
  · exact .inl (hdigits g hg)
  obtain hnone | ⟨more, hpoint, hplaces⟩ := fraction_cases behind
  · rw [if_pos hnone] at hall
    rw [List.length_eq_zero_iff.mp hall.symm] at hg
    exact absurd hg List.not_mem_nil
  · rw [hpoint] at hg
    obtain rfl | hg := List.mem_cons.mp hg
    · exact .inr rfl
    obtain hg | hg := List.mem_append.mp hg
    · exact .inl (hplaces g hg)
    · -- nothing stands behind the digits behind the point
      have hlength := congrArg List.length hpoint
      rw [List.length_cons, List.length_append] at hlength
      have hmore : more.length = 0 := by
        split at hall <;> omega
      rw [List.length_eq_zero_iff.mp hmore] at hg
      exact absurd hg List.not_mem_nil

/-- A token that is neither a string nor a parenthesis holds no mark. -/
theorem not_isMark_of_front (h : front first rest = (.token kind, rest.length))
    (hkind : kind.isSingle = true) : ∀ g ∈ first :: rest, ¬ g.isMark = true := by
  have hword : ∀ {g : Glyph}, g.isWord = true → ¬ g.isMark = true := fun hg hmark => by
    rw [(Glyph.isMark_cases hmark).1] at hg
    exact absurd hg (by decide)
  have hdigit : ∀ {g : Glyph}, g.isDigit = true → ¬ g.isMark = true := fun hg =>
    hword (by rw [Glyph.isWord, hg, Bool.or_true])
  have hcases := front_cases first rest
  rw [h] at hcases
  generalize hfound : (Content.token kind, rest.length) = found at hcases
  -- A token of one character run: the marks of a sheet are in none of these runs.
  cases hcases with
  | space _ | unexpected _ _ | stray _ => simp at hfound
  | numeral hfirst =>
    refine List.forall_mem_cons.mpr ⟨hdigit hfirst, fun g hg => ?_⟩
    obtain hg | rfl := of_mem_numeral (congrArg Prod.snd hfound).symm g hg
    · exact hdigit hg
    · exact fun hmark => (Glyph.isMark_cases hmark).2.1 rfl
  | word hfirst =>
    unfold word at hfound
    simp only at hfound
    split at hfound
    · simp at hfound
    · have hall := congrArg Prod.snd hfound
      have hrest := List.takeWhile_eq_self_iff.mp ((List.takeWhile_prefix _).eq_of_length hall.symm)
      exact List.forall_mem_cons.mpr ⟨hword (by rw [Glyph.isWord, hfirst, Bool.true_or]),
        fun g hg => hword (hrest g hg)⟩
  -- A string is no single token.
  | string _ =>
    unfold string at hfound
    simp only at hfound
    split at hfound
    · simp at hfound
    · obtain rfl := Content.token.inj (congrArg Prod.fst hfound)
      exact absurd hkind Bool.false_ne_true
  -- The two parentheses are the only symbols among the marks, and they are not single either.
  | symbol hsymbol =>
    obtain ⟨hsame, hnone⟩ := Prod.mk.inj hfound
    obtain rfl := Content.token.inj hsame
    rw [List.length_eq_zero_iff.mp hnone, List.forall_mem_singleton]
    intro hmark
    have hmem := (Glyph.isMark_cases hmark).2.2.2.2
    rw [hsymbol] at hmem
    simp only [List.mem_cons, Option.some.injEq, reduceCtorEq, List.not_mem_nil, or_false,
      false_or] at hmem
    obtain rfl | rfl := hmem <;> exact absurd hkind (by decide)
  | comparison hcomparison =>
    have hfirst : ¬ first.isMark = true := fun hmark => by
      rw [(Glyph.isMark_cases hmark).2.2.2.1] at hcomparison
      simp at hcomparison
    split at hfound
    · next hequals =>
      obtain ⟨more, rfl⟩ := List.head?_eq_some_iff.mp hequals
      have hone := congrArg Prod.snd hfound
      have hmore : more = [] := List.length_eq_zero_iff.mp (by simpa using hone)
      rw [hmore]
      exact List.forall_mem_cons.mpr ⟨hfirst, List.forall_mem_singleton.mpr (by decide)⟩
    · have hnone := congrArg Prod.snd hfound
      rw [List.length_eq_zero_iff.mp hnone]
      exact List.forall_mem_singleton.mpr hfirst

end Content

namespace Text.IsLexeme

variable {kind : TokenKind} {t : Text} {x : Float}

/-- A lexeme that is neither a string nor a parenthesis holds no signs and no quotes. -/
theorem plain (h : t.IsLexeme kind) (hkind : kind.isSingle = true) :
    t ≠ [] ∧ ∀ b ∈ t, Sign.ofByte? b = none ∧ b ≠ quote := by
  obtain ⟨first, rest, hglyphs, hfront⟩ := h
  have hfree := Content.not_isMark_of_front hfront hkind
  rw [← hglyphs] at hfree
  refine ⟨fun hnil => by simp [hnil, glyphs, Glyph.readFrom] at hglyphs, fun b hb => ?_⟩
  rw [← ofGlyphs_glyphs t] at hb
  obtain ⟨g, hg, hmem⟩ := List.mem_flatMap.mp hb
  -- a byte that is a sign or a quote is a character of its own
  have hne : ∀ m : UInt8, m < 0x80 → (Glyph.char (Char.ofNat m.toNat)).isMark = true → b ≠ m := by
    rintro m hm hmark rfl
    have hself := eq_of_mem_encode hm hmem hg
    exact hfree g hg (hself ▸ hmark)
  refine ⟨?_, hne quote (by decide) (by decide)⟩
  have hspace := hne 0x20 (by decide) (by decide)
  have hnewline := hne newline (by decide) (by decide)
  rw [Sign.ofByte?, if_neg (hne 0x28 (by decide) (by decide)),
    if_neg (hne 0x29 (by decide) (by decide)), if_neg (by simp [hspace, hnewline])]

/-- **A lexeme that is neither a string nor a parenthesis is one word of a written tree.** -/
theorem isWord (h : t.IsLexeme kind) (hkind : kind.isSingle = true) : t.IsWord :=
  isWord_of_plain (h.plain hkind).1 (h.plain hkind).2

/-- A number that is read is finite and has no sign. -/
theorem finite (h : t.IsLexeme (.number x)) :
    Number.isFinite x = true ∧ Number.isNegative x = false := by
  obtain ⟨first, rest, -, hfront⟩ := h
  obtain - | ⟨-, -, -, -, hvalue⟩ := Content.spells_of_front (congrArg Prod.fst hfront) rfl
  exact Number.finite_of_nearest? hvalue

theorem eq_receiver (h : t.IsLexeme .meKey) : t = receiver := by
  obtain ⟨first, rest, hglyphs, hfront⟩ := h
  have hkind := Content.front_word hfront rfl
  rw [List.take_length, ← hglyphs, ofGlyphs_glyphs] at hkind
  refine eq_receiver_of_lookup ?_
  cases hlookup : keywords.lookup t with
  | none => simp [hlookup] at hkind
  | some kind => rw [hkind, hlookup, Option.getD_some]

end Text.IsLexeme

/-! ## Trees -/

/-- A token of a kind, with a text that is a token of that kind by itself. -/
def Token.IsLexeme (kind : TokenKind) (t : Token) : Prop := t.kind = kind ∧ t.lexeme.IsLexeme kind

/-- The tokens of an expression are of the kinds that belong in their places, and its literals have
lexemes. -/
inductive Expr.Lexed : Expr → Prop
  | literal {kind t v} (ht : Text.IsLexeme kind t) (hv : kind.literal? = some v) :
      Lexed (.literal v)
  | mention {n t} (ht : t.IsLexeme .identifier) : Lexed (.variable n t)
  | me {n t} (ht : t.IsLexeme .meKey) : Lexed (.me n t)
  | group {e} (he : Lexed e) : Lexed (.group e)
  | unary {op t e} (ht : t.IsLexeme op.kind) (he : Lexed e) : Lexed (.unary op t e)
  | binary {op t left right} (ht : t.IsLexeme op.kind) (hleft : Lexed left)
      (hright : Lexed right) : Lexed (.binary op t left right)
  | logical {op t left right} (ht : t.IsLexeme op.kind) (hleft : Lexed left)
      (hright : Lexed right) : Lexed (.logical op t left right)
  | assign {n t e} (ht : t.IsLexeme .identifier) (he : Lexed e) : Lexed (.assign n t e)
  | get {e t} (he : Lexed e) (ht : t.IsLexeme .identifier) : Lexed (.get e t)
  | set {e t value} (he : Lexed e) (ht : t.IsLexeme .identifier) (hvalue : Lexed value) :
      Lexed (.set e t value)
  | call {e t es} (he : Lexed e) (hes : ∀ e ∈ es, Lexed e) : Lexed (.call e t es)

mutual

/-- The same for statements. -/
inductive Stmt.Lexed : Stmt → Prop
  | failed : Stmt.Lexed .failed
  | expression {e} (he : e.Lexed) : Stmt.Lexed (.expression e)
  | tell {e} (he : e.Lexed) : Stmt.Lexed (.tell e)
  | declare {t e?} (ht : t.IsLexeme .identifier) (he : ∀ e ∈ e?, Expr.Lexed e) :
      Stmt.Lexed (.declare t e?)
  | give {t e?} (he : ∀ e ∈ e?, Expr.Lexed e) : Stmt.Lexed (.give t e?)
  | block {body} (hbody : ∀ s ∈ body, Stmt.Lexed s) : Stmt.Lexed (.block body)
  | branch {e yes no?} (he : e.Lexed) (hyes : Stmt.Lexed yes)
      (hno : ∀ s ∈ no?, Stmt.Lexed s) : Stmt.Lexed (.branch e yes no?)
  | loop {e body} (he : e.Lexed) (hbody : Stmt.Lexed body) : Stmt.Lexed (.loop e body)
  | function {f} (hf : Function.Lexed f) : Stmt.Lexed (.function f)
  | youth {t methods} (ht : t.IsLexeme .identifier) (hms : ∀ m ∈ methods, Function.Lexed m) :
      Stmt.Lexed (.youth t methods)

/-- The same for functions. -/
inductive Function.Lexed : Function → Prop
  | mk {t ps body} (ht : t.IsLexeme .identifier)
      (hps : ∀ p ∈ ps, Token.IsLexeme .identifier p) (hbody : ∀ s ∈ body, Stmt.Lexed s) :
      Function.Lexed (.mk t ps body)

end

/-- A token of a source: the text of any but the last one is that token by itself. -/
def Token.IsLexical (t : Token) : Prop := t.kind ≠ .endOfSource → t.lexeme.IsLexeme t.kind

theorem Token.Fits.isLexeme {kind : TokenKind} {t : Token} (h : Token.Fits IsLexical kind t)
    (hkind : kind ≠ .endOfSource) : t.IsLexeme kind := by
  obtain ⟨rfl, ht⟩ := h
  exact ⟨rfl, ht hkind⟩

/-- The rules of the language put lexemes where lexemes of their kind belong. -/
def lexed : Building Token.IsLexical where
  expr := Expr.Lexed
  stmt := Stmt.Lexed
  routine := Function.Lexed
  literal ht hv := .literal (ht fun heq => by simp [heq, TokenKind.literal?] at hv) hv
  endless := .literal (show Text.IsLexeme .surelyKey "surely" from ⟨_, _, rfl, by decide⟩) rfl
  mention ht := .mention (ht.isLexeme nofun)
  me ht := .me (ht.isLexeme nofun)
  group := .group
  unary {op _ _} ht he := .unary (ht.isLexeme (by cases op <;> decide)) he
  binary {op _ _ _} ht hleft hright :=
    .binary (ht.isLexeme (by cases op <;> decide)) hleft hright
  logical {op _ _ _} ht hleft hright :=
    .logical (ht.isLexeme (by cases op <;> decide)) hleft hright
  assign hname he := by
    obtain ⟨⟩ | ⟨ht⟩ := hname
    exact .assign ht he
  get he ht := .get he (ht.isLexeme nofun)
  set hget hvalue := by
    cases hget with
    | get he ht => exact .set he ht hvalue
  call he _ hes := .call he hes
  failed := .failed
  expression := .expression
  tell := .tell
  declare ht he := .declare (ht.isLexeme nofun) he
  give _ he := .give he
  block := .block
  branch := .branch
  loop := .loop
  function := .function
  youth ht hms := .youth (ht.isLexeme nofun) hms
  define ht hps hbody := .mk (ht.isLexeme nofun) (fun p hp => (hps p hp).isLexeme nofun) hbody

/-- **A parsed program is made of lexemes**, each of the kind that belongs in its place. -/
theorem parse_lexed (node : Nat) (source : Text) :
    ∀ s ∈ (parse node (scan source).tokens).statements, s.Lexed := by
  refine (lexed.parse node fun t ht => ?_).1
  rw [tokens_eq_wordsOf] at ht
  obtain ht | ht := List.mem_append.mp ht
  · exact fun _ => isLexeme_of_mem_wordsOf ht
  · rw [List.mem_singleton.mp ht]
    exact fun hne => absurd rfl hne

end YouthLang

import Mathlib.Data.List.Chain
import YouthLang.Proofs.Recovery

/-!
# Proofs/Recovery/Portions — semicolons left out at the top of a program

A program is put together from portions, each of which is one declaration when it stands alone.  Some of
them lose the semicolon that they end in, in front of a word that starts a statement or of the end.
Then each of these becomes a place for a declaration that could not be parsed, with one mistake at the
token behind it, and all others keep their trees (`parse_portions`).
-/

namespace YouthLang

open YouthLang.Parser YouthLang.Grammar

/-- A run of tokens, the tree that it stands for, and whether its last token is left out. -/
structure Portion where
  tokens : List Token
  tree : Stmt
  isCut : Bool

namespace Portion

variable (p : Portion)

/-- The tokens that are not left out. -/
def words : List Token := if p.isCut then p.tokens.dropLast else p.tokens

/-- Alone, the run is parsed without a mistake, and to one statement. -/
def Alone : Prop :=
  (∀ t ∈ p.tokens, t.kind ≠ .endOfSource) ∧ ∃ node last, last.kind = .endOfSource
    ∧ (parse node (p.tokens ++ [last])).diagnostics = []
    ∧ (parse node (p.tokens ++ [last])).statements = [p.tree]

/-- What is left out is a semicolon. -/
def LeavesSemicolon : Prop :=
  p.isCut = true → ∃ t, p.tokens.getLast? = some t ∧ t.kind = .semicolon

/-- Behind a portion that lost its semicolon stands one that starts with a word of a statement. -/
def Precedes (q : Portion) : Prop :=
  p.isCut = true → ∃ t, q.tokens.head? = some t ∧ t.kind.startsStatement = true

/-- What is made of a portion: the place of a failed declaration if its semicolon is left out, and
otherwise its tree. -/
def Yields (s : Stmt) : Prop :=
  if p.isCut then s = .failed else p.tree.Alike Eq AnyNode s

end Portion

/-- The token behind what comes before some portions. -/
def firstOf (last : Token) : List Portion → Token
  | [] => last
  | p :: _ => p.tokens.headD last

/-- The tokens behind the portions that lost their semicolon, in order. -/
def cutPlaces (last : Token) : List Portion → List Token
  | [] => []
  | p :: rest => if p.isCut then firstOf last rest :: cutPlaces last rest else cutPlaces last rest

/-- A mistake at a token: something is missing there. -/
def IsMissingAt (t : Token) (d : Diagnostic) : Prop := ∃ what, d = missingAt t what

theorem length_cutPlaces (last : Token) (parts : List Portion) :
    (cutPlaces last parts).length = parts.countP Portion.isCut := by
  induction parts with
  | nil => rfl
  | cons p rest ih =>
    rw [cutPlaces]
    split
    · next h => simp [h, ih]
    · next h => simp [h, ih]

/-! ## One portion -/

section Portion

variable {p : Portion} {t last : Token} {us : List Token}

/-- A portion is a declaration. -/
theorem Portion.Alone.declaration (h : p.Alone) : Declaration true p.tokens p.tree := by
  obtain ⟨hbody, node, last, hlast, hclean, htree⟩ := h
  have hprogram := program_of_parse hlast hbody hclean
  rw [htree] at hprogram
  generalize hts : p.tokens = ts at hprogram
  cases hprogram with
  | cons h hrest =>
    cases hrest with
    | nil => simpa using h

/-- A portion that lost its semicolon is a shortened declaration. -/
theorem Portion.Alone.shortened (h : p.Alone) (hp : p.LeavesSemicolon) (hcut : p.isCut = true) :
    (∃ t, p.tokens = p.words ++ [t]) ∧ ∃ tip, ShortenedDeclaration tip p.words := by
  obtain ⟨t, ht, hk⟩ := hp hcut
  obtain ⟨heq, hshortened⟩ := h.declaration.ending.dropLast ht hk
  rw [Portion.words, if_pos hcut]
  exact ⟨⟨t, heq⟩, hshortened⟩

/-- The first token of a portion is not left out. -/
theorem Portion.Alone.first (h : p.Alone) (hp : p.LeavesSemicolon) :
    ∃ t us, p.words = t :: us ∧ p.tokens.head? = some t ∧ startsNothing t.kind = false := by
  obtain ⟨t, us, htokens, ht⟩ := h.declaration.first
  cases hcut : p.isCut with
  | false => exact ⟨t, us, by simp [words, hcut, htokens], by simp [htokens], ht⟩
  | true =>
    obtain ⟨⟨_, heq⟩, _, hshortened⟩ := h.shortened hp hcut
    obtain ⟨t', us', hwords, -⟩ := hshortened.first
    rw [htokens, hwords] at heq
    obtain rfl := (List.cons.inj heq).1
    exact ⟨t, us', hwords, by simp [htokens], ht⟩

/-- **A portion is parsed to what it yields**, with a mistake at the next token if it lost its
semicolon. -/
theorem Portion.Alone.declares (h : p.Alone) (hp : p.LeavesSemicolon) (ht : Parts t)
    (hcut : p.isCut = true → Holds t) (hus : Ended (t :: us)) :
    Parser.From YouthLang.declaration (p.words ++ t :: us) fun before r => ∃ s c found,
      r = .done s c ∧ c.tokens = t :: us ∧ p.Yields s
      ∧ List.Forall₂ IsMissingAt (if p.isCut then [t] else []) found
      ∧ c.mistakes = found.reverse ++ before := by
  intro c hc
  cases hisCut : p.isCut with
  | false =>
    have hwords : p.words = p.tokens := by simp [words, hisCut]
    obtain ⟨s, c', heq, htokens, hclean, hs⟩ := h.declaration.accepted ht us c (hwords ▸ hc)
    exact ⟨s, c', [], heq, htokens, by simpa [Yields, hisCut] using hs, .nil, by simpa using hclean⟩
  | true =>
    obtain ⟨-, _, hshortened⟩ := h.shortened hp hisCut
    obtain ⟨c', what, heq, htokens, hmistake⟩ := hshortened.skips (hcut hisCut) hus c hc
    exact ⟨_, c', [missingAt t what], heq, htokens, by simp [Yields, hisCut],
      .cons ⟨what, rfl⟩ .nil, by simpa using hmistake⟩

end Portion

/-! ## Programs -/

section Program

variable {parts : List Portion} {last : Token}

/-- Behind a portion stands the first token of the next one, or the end. -/
theorem firstOf_follows (hlast : last.kind = .endOfSource) (halone : ∀ p ∈ parts, p.Alone)
    (hleaves : ∀ p ∈ parts, p.LeavesSemicolon) : ∃ us,
      parts.flatMap Portion.words ++ [last] = firstOf last parts :: us
      ∧ Parts (firstOf last parts) := by
  cases parts with
  | nil => exact ⟨[], rfl, by simp [firstOf, Parts, hlast]⟩
  | cons p rest =>
    obtain ⟨t, us, hwords, hhead, ht⟩ :=
      (halone p List.mem_cons_self).first (hleaves p List.mem_cons_self)
    have hfirst : firstOf last (p :: rest) = t := by
      rw [firstOf, List.headD_eq_head?_getD, hhead, Option.getD_some]
    refine ⟨us ++ (rest.flatMap Portion.words ++ [last]), by simp [hwords, hfirst], ?_⟩
    intro hk
    rw [hfirst] at hk
    simp [hk, startsNothing] at ht

/-- Recovery stops behind a portion that lost its semicolon. -/
theorem holds_firstOf {p : Portion} (hlast : last.kind = .endOfSource)
    (h : (p :: parts).IsChain Portion.Precedes) (hcut : p.isCut = true) :
    Holds (firstOf last parts) := by
  cases parts with
  | nil => exact .inr hlast
  | cons q rest =>
    obtain ⟨t, ht, hstarts⟩ := (List.isChain_cons_cons.mp h).1 hcut
    exact .inl (by rwa [firstOf, List.headD_eq_head?_getD, ht, Option.getD_some])

/-- The portions of a program are parsed one after the other. -/
theorem programFrom_portions (hlast : last.kind = .endOfSource) :
    ∀ (parts : List Portion) (n : Nat) (prior : List Stmt) (c : Cursor),
      (∀ p ∈ parts, p.Alone) → (∀ p ∈ parts, p.LeavesSemicolon) →
      parts.IsChain Portion.Precedes → c.tokens = parts.flatMap Portion.words ++ [last] →
      c.size ≤ n → ∃ more found c', programFrom n prior c = (prior.reverse ++ more, c')
        ∧ List.Forall₂ Portion.Yields parts more
        ∧ List.Forall₂ IsMissingAt (cutPlaces last parts) found
        ∧ c'.mistakes = found.reverse ++ c.mistakes
  | [], n, prior, c, _, _, _, hc, hn => by
      have hcurrent : c.current = last := (List.cons.inj hc).1
      have hend : c.atEnd = true := by simp [Cursor.atEnd, hcurrent, hlast]
      refine ⟨[], [], c, ?_, .nil, .nil, rfl⟩
      cases n <;> simp [programFrom, hend]
  | p :: rest, n, prior, c, halone, hleaves, hprecedes, hc, hn => by
      have hp := halone p List.mem_cons_self
      have hl := hleaves p List.mem_cons_self
      have halone' : ∀ q ∈ rest, q.Alone := fun q hq => halone q (List.mem_cons_of_mem _ hq)
      have hleaves' : ∀ q ∈ rest, q.LeavesSemicolon := fun q hq =>
        hleaves q (List.mem_cons_of_mem _ hq)
      obtain ⟨us, heq, hparts⟩ := firstOf_follows hlast halone' hleaves'
      have hus : Ended (firstOf last rest :: us) := heq ▸ ended_snoc hlast
      rw [List.flatMap_cons, List.append_assoc, heq] at hc
      obtain ⟨s, c₁, found, hdone, htokens, hs, hfound, hmistakes⟩ :=
        hp.declares hl hparts (holds_firstOf hlast hprecedes) hus c hc
      -- the portion has words, so the cursor is not at the end, and a round is left for the rest
      obtain ⟨t, ts, hwords, -, ht⟩ := hp.first hl
      have hopen : c.atEnd = false := by
        rw [hwords] at hc
        rw [Cursor.atEnd, (List.cons.inj hc).1]
        revert ht
        cases t.kind <;> simp [startsNothing]
      have hsize : c₁.size + 1 ≤ c.size := by
        rw [← Cursor.length_tokens, ← Cursor.length_tokens, hc, htokens, hwords]
        simp only [List.length_append, List.length_cons]
        omega
      obtain ⟨n, rfl⟩ := Nat.exists_eq_succ_of_ne_zero (show n ≠ 0 by omega)
      obtain ⟨more, found', c', hrest, hyields, hfound', hmistakes'⟩ :=
        programFrom_portions hlast rest n (s :: prior) c₁ halone' hleaves' hprecedes.tail
          (htokens.trans heq.symm) (by omega)
      refine ⟨s :: more, found ++ found', c', ?_, .cons hs hyields, ?_, ?_⟩
      · simp [programFrom, hopen, hdone, hrest]
      · cases hcut : p.isCut with
        | false =>
          rw [hcut] at hfound
          cases hfound
          simpa [cutPlaces, hcut] using hfound'
        | true =>
          rw [hcut] at hfound
          simpa [cutPlaces, hcut] using List.rel_append hfound hfound'
      · rw [hmistakes', hmistakes, List.reverse_append, List.append_assoc]

/-- **Semicolons left out are reported one by one, and damage nothing else.**  Portions of a program
each stand for one statement alone.  Some of them lose the semicolon that they end in, each in front of
a word that starts a statement or of the end.  Of the program that is left:

* the statements are those of the portions, in order, up to the numbers of the nodes, with a failed one
  for each portion that lost its semicolon;
* the mistakes are as many as these, in order, each of them that something is missing at the token
  behind the portion. -/
theorem parse_portions (node : Nat) (parts : List Portion) (last : Token)
    (hlast : last.kind = .endOfSource) (halone : ∀ p ∈ parts, p.Alone)
    (hleaves : ∀ p ∈ parts, p.LeavesSemicolon) (hprecedes : parts.IsChain Portion.Precedes) :
    List.Forall₂ Portion.Yields parts
        (parse node (parts.flatMap Portion.words ++ [last])).statements
      ∧ List.Forall₂ IsMissingAt (cutPlaces last parts)
        (parse node (parts.flatMap Portion.words ++ [last])).diagnostics
      ∧ (parse node (parts.flatMap Portion.words ++ [last])).diagnostics.length
        = parts.countP Portion.isCut := by
  obtain ⟨more, found, c, heq, hyields, hfound, hmistakes⟩ :=
    programFrom_portions hlast parts _ [] _ halone hleaves hprecedes tokens_start (Nat.le_refl _)
  have hdiagnostics : (parse node (parts.flatMap Portion.words ++ [last])).diagnostics = found := by
    rw [parse_eq_programFrom, heq, hmistakes]
    simp [start]
  rw [hdiagnostics]
  refine ⟨?_, hfound, by rw [← hfound.length_eq, length_cutPlaces]⟩
  rw [parse_eq_programFrom, heq]
  simpa using hyields

/-- The portions `if (surely) tell x;`, `tell y;` and `is z;`, of which the first and the last lose
their semicolon. -/
def threePortions : List Portion :=
  [⟨[⟨.ifKey, "if", ⟨1, 1⟩⟩, ⟨.leftParen, "(", ⟨1, 4⟩⟩, ⟨.surelyKey, "surely", ⟨1, 5⟩⟩,
      ⟨.rightParen, ")", ⟨1, 11⟩⟩, ⟨.tellKey, "tell", ⟨1, 13⟩⟩, ⟨.identifier, "x", ⟨1, 18⟩⟩,
      ⟨.semicolon, ";", ⟨1, 19⟩⟩],
    .branch (.literal (.truth true)) (.tell (.variable 1 ⟨.identifier, "x", ⟨1, 18⟩⟩)) none, true⟩,
   ⟨[⟨.tellKey, "tell", ⟨2, 1⟩⟩, ⟨.identifier, "y", ⟨2, 6⟩⟩, ⟨.semicolon, ";", ⟨2, 7⟩⟩],
    .tell (.variable 1 ⟨.identifier, "y", ⟨2, 6⟩⟩), false⟩,
   ⟨[⟨.isKey, "is", ⟨3, 1⟩⟩, ⟨.identifier, "z", ⟨3, 4⟩⟩, ⟨.semicolon, ";", ⟨3, 5⟩⟩],
    .declare ⟨.identifier, "z", ⟨3, 4⟩⟩ none, true⟩]

/-- One mistake is at the word behind the first portion, the other one at the end. -/
theorem parse_portions_three : (∀ p ∈ threePortions, p.Alone)
    ∧ (∀ p ∈ threePortions, p.LeavesSemicolon) ∧ threePortions.IsChain Portion.Precedes
    ∧ List.Forall₂ Portion.Yields threePortions
      (parse 0 (threePortions.flatMap Portion.words ++ [⟨.endOfSource, [], ⟨3, 5⟩⟩])).statements
    ∧ List.Forall₂ IsMissingAt [⟨.tellKey, "tell", ⟨2, 1⟩⟩, ⟨.endOfSource, [], ⟨3, 5⟩⟩]
      (parse 0 (threePortions.flatMap Portion.words ++ [⟨.endOfSource, [], ⟨3, 5⟩⟩])).diagnostics := by
  have halone : ∀ p ∈ threePortions, p.Alone := by
    simp only [threePortions, List.forall_mem_cons]
    refine ⟨?_, ?_, ?_, by simp⟩
    all_goals exact ⟨by decide, 0, ⟨.endOfSource, [], ⟨4, 1⟩⟩, rfl, rfl, rfl⟩
  have hleaves : ∀ p ∈ threePortions, p.LeavesSemicolon := by
    simp [threePortions, Portion.LeavesSemicolon]
  have hprecedes : threePortions.IsChain Portion.Precedes := by
    simp [threePortions, Portion.Precedes, TokenKind.startsStatement]
  obtain ⟨hyields, hfound, -⟩ :=
    parse_portions 0 threePortions ⟨.endOfSource, [], ⟨3, 5⟩⟩ rfl halone hleaves hprecedes
  exact ⟨halone, hleaves, hprecedes, hyields, hfound⟩

end Program

end YouthLang

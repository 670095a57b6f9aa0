import YouthLang.Proofs.Unbounded

/-!
# Proofs/Foresight — what a parser knows of tokens that have not come yet

A parser that has read some words and then meets the end of the source has done one of three things
(`Parser.Foresight`):

* it was done before the end, and would have done the same had more words followed;
* it met the end, complained about nothing else, and some words can be added with which it is done;
* it has found a mistake elsewhere, and then there is a mistake whatever words are added.

The words that finish a parser are of fixed kinds wherever it has read nothing yet (`Parser.Tame`), so
the words that finish a sequence are those that finish what it was in and those of what is left.  Such
words do not help against the three mistakes that are reported without unwinding: these are complaints
that the longer source may still have (`Diagnostic.IsComplaint`).
-/

namespace YouthLang

open YouthLang.Parser

/-! ## Words -/

/-- The words that finish a parser: a name, a semicolon, or a parenthesis. -/
inductive Filler where
  | name | semicolon | opening | closing
deriving DecidableEq

/-- The kind of a finishing word. -/
@[simp] def Filler.kind : Filler → TokenKind
  | .name => .identifier
  | .semicolon => .semicolon
  | .opening => .leftParen
  | .closing => .rightParen

/-- The end finishes nothing. -/
theorem Filler.kind_ne_endOfSource (w : Filler) : w.kind ≠ .endOfSource := by
  cases w <;> decide

variable {α β : Type} {F F' : TokenKind → Prop} {ks ks' : List Filler} {c c' c₁ d : Cursor}
  {t : Token} {ts us rest : List Token} {kind : TokenKind} {k : Nat}

/-! ## Cursors before the end

The same words are read from two lists: one that ends behind them and one that goes on.  Up to the
end the two cursors show the same. -/

/-- A mistake that is reported without unwinding. -/
def Diagnostic.IsComplaint (d : Diagnostic) : Prop :=
  ∃ cause, d.cause = .grammatical cause ∧ ∀ what, cause ≠ .missing what

/-- How a parser ended, without its result. -/
def Parsing.cursor {α : Type} : Parsing α → Cursor
  | .done _ c => c
  | .unwound c => c

namespace Cursor

/-- The mistakes since then are of some sort. -/
def Adds (P : Diagnostic → Prop) (c c' : Cursor) : Prop :=
  ∃ new, c'.mistakes = new ++ c.mistakes ∧ ∀ d ∈ new, P d

/-- Some words, none of which marks the end, and then the end. -/
structure Before (ts : List Token) (c : Cursor) : Prop where
  tokens : ∃ t, c.tokens = ts ++ [t] ∧ t.kind = .endOfSource
  words : ∀ t ∈ ts, t.kind ≠ .endOfSource

/-- A cursor at the words that another one is at, but with other tokens behind them. -/
structure Beyond (c : Cursor) (ts us : List Token) (d : Cursor) : Prop where
  isSealed : d.Sealed (fun _ => True)
  tokens : d.tokens = ts ++ us
  numbers : d.node = c.node ∧ d.others = c.others

variable {P Q : Diagnostic → Prop}

namespace Adds

/-- Nothing added. -/
theorem of_eq (h : c'.mistakes = c.mistakes) : c.Adds P c' := ⟨[], h, by simp⟩

/-- A cursor adds nothing to itself. -/
theorem refl (c : Cursor) : c.Adds P c := .of_eq rfl

/-- What is added on two ways is added in all. -/
theorem trans (h : c.Adds P c') (h' : c'.Adds P c₁) : c.Adds P c₁ := by
  obtain ⟨new, hnew, hP⟩ := h
  obtain ⟨new', hnew', hP'⟩ := h'
  refine ⟨new' ++ new, by rw [hnew', hnew, List.append_assoc], fun d hd => ?_⟩
  exact (List.mem_append.mp hd).elim (hP' d) (hP d)

/-- A report adds itself. -/
theorem report {cause : GrammarCause} (h : ∀ d ∈ (c.report t cause).mistakes.head?, P d) :
    c.Adds P (c.report t cause) :=
  ⟨[_], rfl, fun d hd => h d (by simpa [Cursor.report, eq_comm] using hd)⟩

end Adds

/-- Tokens in front of the end are sealed by it. -/
theorem Before.sealed (h : c.Before ts) : c.Sealed (fun _ => True) := by
  obtain ⟨t, htokens, ht⟩ := h.tokens
  exact ⟨⟨t, by rw [htokens]; simp, ht⟩, fun _ _ => trivial⟩

/-- Without a token in front of it the end is next. -/
theorem Before.atEnd (h : c.Before []) : c.current.kind = .endOfSource := by
  obtain ⟨t, htokens, ht⟩ := h.tokens
  rw [(List.cons.inj htokens).1, ht]

/-- Only the tokens ahead matter. -/
theorem Before.of_tokens (h : c.Before ts) (htokens : c'.tokens = c.tokens) : c'.Before ts :=
  ⟨htokens ▸ h.tokens, h.words⟩

/-- There is one token more than those in front of the end. -/
theorem Before.size (h : c.Before ts) : c.size = ts.length + 1 := by
  obtain ⟨t, htokens, -⟩ := h.tokens
  rw [← Cursor.length_tokens, htokens, List.length_append, List.length_singleton]

/-- A cursor is at its own tokens. -/
theorem Before.beyond (h : c.Before ts) : ∃ t, t.kind = .endOfSource ∧ c.Beyond ts [t] c := by
  obtain ⟨t, htokens, ht⟩ := h.tokens
  exact ⟨t, ht, h.sealed, htokens, rfl, rfl⟩

/-- Cut off at the end, a cursor stands in front of it. -/
theorem Before.of_beyond (h : c.Before ts) (hsuffix : us <:+ ts) (ht : t.kind = .endOfSource)
    (hd : c'.Beyond us [t] d) : d.Before us :=
  ⟨⟨t, hd.tokens, ht⟩, fun u hu => h.words u (hsuffix.subset hu)⟩

/-- The next token is the first one in front of the end. -/
theorem Before.current (h : c.Before (t :: ts)) : c.current = t ∧ t.kind ≠ .endOfSource := by
  obtain ⟨u, htokens, -⟩ := h.tokens
  exact ⟨(List.cons.inj htokens).1, h.words t List.mem_cons_self⟩

/-- Taking it leaves the others in front of the end. -/
theorem Before.advance (h : c.Before (t :: ts)) : c.advance.Before ts := by
  obtain ⟨rfl, hk⟩ := h.current
  obtain ⟨u, htokens, hu⟩ := h.tokens
  refine ⟨⟨u, ?_, hu⟩, fun u hu => h.words u (List.mem_cons_of_mem _ hu)⟩
  have hadvance := Cursor.tokens_advance h.sealed hk
  exact (List.cons.inj (hadvance.symm.trans htokens)).2

/-- The next token is the same with more tokens behind. -/
theorem Beyond.current (h : c.Beyond (t :: ts) us d) : d.current = t := (List.cons.inj h.tokens).1

/-- Taking it leaves the others, with the same tokens behind. -/
theorem Beyond.advance (h : c.Beyond (t :: ts) us d) (hk : t.kind ≠ .endOfSource) :
    c.advance.Beyond ts us d.advance := by
  have hcurrent := h.current
  have hadvance := Cursor.tokens_advance h.isSealed (hcurrent ▸ hk)
  refine ⟨(Cursor.Reaches.advance h.isSealed (hcurrent ▸ hk)).sealed h.isSealed, ?_, ?_⟩
  · exact (List.cons.inj (hadvance.symm.trans h.tokens)).2
  · simpa using h.numbers

/-- What is read from the front leaves the end where it is. -/
theorem Sealed.of_tokens (h : c.Sealed (fun _ => True)) (htokens : c.tokens = us ++ c'.tokens) :
    c'.Sealed (fun _ => True) := by
  obtain ⟨t, ht, hend⟩ := h.last
  refine ⟨⟨t, ?_, hend⟩, fun _ _ => trivial⟩
  rw [← ht, htokens]
  simp [Cursor.tokens, List.getLast?_append, List.getLast?_cons]

end Cursor

/-! ## Parsers that can be finished

Where a parser has read nothing it can be finished with words that do not depend on what it will
read.  That is what the rest of a sequence is finished with. -/

/-- At the end the parser stays there, and complains about nothing but the end. -/
def Parser.Idles (p : Parser α) : Prop :=
  ∀ c, c.Before [] → (p c).cursor.Before [] ∧ c.Adds (·.atEnd = true) (p c).cursor

/-- From some tokens on, the parser is done before a rest of them, and finds nothing missing. -/
def Parser.Finishes (p : Parser α) (tokens rest : List Token) : Prop :=
  ∀ c : Cursor, c.Sealed (fun _ => True) → c.tokens = tokens →
    ∃ a c', p c = .done a c' ∧ c'.tokens = rest ∧ c.Adds Diagnostic.IsComplaint c'

/-- The parser asks for more at the end, and is done with words of some kinds that are followed by a
token of some sort. -/
structure Parser.Tame (F : TokenKind → Prop) (ks : List Filler) (p : Parser α) : Prop where
  steady : p.Steady
  idles : p.Idles
  finishes : ∀ {us : List Token} {t : Token} {rest : List Token},
    us.map Token.kind = ks.map Filler.kind → F t.kind → p.Finishes (us ++ t :: rest) (t :: rest)

/-- The parser starts by asking for something that the end is not. -/
def Parser.Balks (p : Parser α) : Prop :=
  ∀ c : Cursor, c.current.kind = .endOfSource →
    ∃ what, p c = .unwound (c.report c.current (.missing what))

namespace Parser.Balks

variable {p : Parser α}

/-- A complaint is one. -/
theorem missing {what : Wanted} : Balks (α := α) (Parser.missing what) := fun _ _ => ⟨what, rfl⟩

/-- A word that has to come does not come at the end. -/
theorem expect {what : Wanted} (hend : kind ≠ .endOfSource) : Balks (Parser.expect kind what) :=
  fun c hc => ⟨what, by simp [Parser.expect, Parser.sees, Bind.bind, hc, hend.symm, Parser.missing]⟩

/-- What follows a complaint is not come to. -/
theorem bind {f : α → Parser β} (h : p.Balks) : (p >>= f).Balks := fun c hc => by
  obtain ⟨what, heq⟩ := h c hc
  exact ⟨what, Parser.bind_of_unwound heq⟩

/-- A look at the next token sees the end. -/
theorem peek {f : Token → Parser α} (h : ∀ t, t.kind = .endOfSource → (f t).Balks) :
    (Parser.peek >>= f).Balks := fun c hc => h c.current hc c hc

/-- Counting what is left changes nothing. -/
theorem remaining {f : Nat → Parser α} (h : ∀ n, (f n).Balks) : (Parser.remaining >>= f).Balks :=
  fun c hc => h c.size c hc

/-- A word that may come does not come at the end. -/
theorem accept {yes no : Parser α} (hend : kind ≠ .endOfSource) (h : no.Balks) :
    (Parser.accept kind >>= fun b => if b = true then yes else no).Balks := fun c hc => by
  simpa [Parser.accept, Parser.sees, Bind.bind, Pure.pure, hc, hend.symm] using h c hc

/-- To balk is to report nothing but that something is missing. -/
theorem idles (h : p.Balks) : p.Idles := fun c hc => by
  obtain ⟨what, heq⟩ := h c hc.atEnd
  rw [heq]
  exact ⟨hc.of_tokens rfl, .report (by simp [Cursor.report, hc.atEnd])⟩

end Parser.Balks

namespace Parser.Idles

variable {p q : Parser α}

/-- A result at hand reports nothing. -/
theorem pure {a : α} : Idles (Pure.pure a) := fun c hc => ⟨hc, .refl c⟩

/-- Two parts that idle idle one after the other. -/
theorem bind {f : α → Parser β} (hp : p.Idles) (hf : ∀ a, (f a).Idles) : (p >>= f).Idles := by
  intro c hc
  obtain ⟨hend, hadds⟩ := hp c hc
  cases hx : p c with
  | done a c' =>
    rw [hx] at hend hadds
    rw [Parser.bind_of_done hx]
    obtain ⟨hend', hadds'⟩ := hf a c' hend
    exact ⟨hend', hadds.trans hadds'⟩
  | unwound c' =>
    rw [hx] at hend hadds
    rw [Parser.bind_of_unwound hx]
    exact ⟨hend, hadds⟩

/-- At the end only what is done there matters. -/
theorem congr (h : ∀ c, c.Before [] → p c = q c) (hq : q.Idles) : p.Idles := fun c hc => by
  rw [h c hc]
  exact hq c hc

/-- A look at the next token sees the end. -/
theorem peek {f : Token → Parser α} (h : ∀ t, t.kind = .endOfSource → (f t).Idles) :
    (Parser.peek >>= f).Idles := fun c hc => h c.current hc.atEnd c hc

/-- A word that may come does not come at the end. -/
theorem accept {yes no : Parser α} (hend : kind ≠ .endOfSource) (h : no.Idles) :
    (Parser.accept kind >>= fun b => if b = true then yes else no).Idles :=
  congr (fun c hc => by
    simp [Parser.accept, Parser.sees, Bind.bind, Pure.pure, hc.atEnd, hend.symm]) h

/-- A look for it does not find it. -/
theorem sees {yes no : Parser α} (hend : kind ≠ .endOfSource) (h : no.Idles) :
    (Parser.sees kind >>= fun b => if b = true then yes else no).Idles :=
  congr (fun c hc => by simp [Parser.sees, Bind.bind, hc.atEnd, hend.symm]) h

/-- What is reported at the end is reported about the end. -/
theorem report {f : Unit → Parser α} {cause : GrammarCause} (ht : t.kind = .endOfSource)
    (h : (f ()).Idles) : (Parser.report t cause >>= f).Idles := fun c hc => by
  obtain ⟨hend, hadds⟩ := h (c.report t cause) (hc.of_tokens rfl)
  exact ⟨hend, .trans (.report (by simp [Cursor.report, ht])) hadds⟩

end Parser.Idles

namespace Parser.Finishes

variable {p q : Parser α}

/-- A part that accepts some tokens is finished by them. -/
theorem of_accepts (h : p.Accepts ts rest fun _ => True) : p.Finishes ts rest :=
  fun c _ hc => by
    obtain ⟨a, c', heq, htokens, hclean, -⟩ := h c hc
    exact ⟨a, c', heq, htokens, .of_eq hclean⟩

/-- Only what is done in front of these tokens matters. -/
theorem congr (h : ∀ c : Cursor, c.Sealed (fun _ => True) → c.tokens = ts → p c = q c)
    (hq : q.Finishes ts rest) : p.Finishes ts rest := fun c hs hc => by
  rw [h c hs hc]
  exact hq c hs hc

/-- One part is finished by the first tokens, the other one by those behind. -/
theorem bind {f : α → Parser β} (hp : p.Finishes (ts ++ us) us)
    (hf : ∀ a, (f a).Finishes us rest) : (p >>= f).Finishes (ts ++ us) rest := fun c hs hc => by
  obtain ⟨a, c₁, heq, htokens, hadds⟩ := hp c hs hc
  obtain ⟨b, c₂, heq', htokens', hadds'⟩ := hf a c₁ (hs.of_tokens (hc.trans (by rw [htokens]))) htokens
  exact ⟨b, c₂, (Parser.bind_of_done heq).trans heq', htokens', hadds.trans hadds'⟩

/-- A look at the next token changes nothing. -/
theorem peek {f : Token → Parser α} (h : (f t).Finishes (t :: ts) rest) :
    (Parser.peek >>= f).Finishes (t :: ts) rest :=
  congr (fun c _ hc => by rw [← (List.cons.inj hc).1]; rfl) h

/-- A word that has to come finishes its part by coming. -/
theorem expect {f : Token → Parser α} {what : Wanted} (hk : t.kind = kind)
    (hend : kind ≠ .endOfSource) (hts : ts ≠ []) (h : (f t).Finishes ts rest) :
    (Parser.expect kind what >>= f).Finishes (t :: ts) rest := fun c hs hc => by
  obtain ⟨rfl, htokens⟩ := Cursor.tokens_behind hc (hk ▸ hend) hts
  have hadvance := (Cursor.Reaches.advance hs (hk ▸ hend)).sealed hs
  obtain ⟨a, c', heq, htokens', hadds⟩ := h c.advance hadvance htokens
  refine ⟨a, c', ?_, htokens', .trans (.of_eq Cursor.mistakes_advance) hadds⟩
  simpa [Parser.expect, Parser.sees, Parser.next, Bind.bind, hk] using heq

/-- A report that nothing is missing in does no harm. -/
theorem report {f : Unit → Parser α} {cause : GrammarCause} (hcause : ∀ what, cause ≠ .missing what)
    (h : (f ()).Finishes ts rest) : (Parser.report t cause >>= f).Finishes ts rest := fun c hs hc => by
  obtain ⟨a, c', heq, htokens, hadds⟩ :=
    h (c.report t cause) ((Cursor.Reaches.report _ _).sealed hs) hc
  refine ⟨a, c', heq, htokens, .trans (.report ?_) hadds⟩
  simp only [Cursor.report, List.head?_cons, Option.mem_some_iff, forall_eq']
  exact ⟨cause, rfl, hcause⟩

end Parser.Finishes

namespace Parser.Tame

variable {p q : Parser α}

/-- A result at hand needs nothing. -/
theorem pure {a : α} : Tame F [] (Pure.pure a) where
  steady _ := .pure trivial
  idles := .pure
  finishes hus _ := by
    obtain rfl := List.map_eq_nil_iff.mp hus
    exact .of_accepts (.pure trivial)

/-- A word that has to come is needed first. -/
theorem expect (w : Filler) {f : Token → Parser α} {what : Wanted} (h : ∀ t, (f t).Tame F ks) :
    (Parser.expect w.kind what >>= f).Tame F (w :: ks) where
  steady _ := .expect w.kind_ne_endOfSource fun _ _ =>
    .mono ((h _).steady _) fun _ _ _ _ _ => trivial
  idles := (Balks.expect w.kind_ne_endOfSource).bind.idles
  finishes {us t rest} hus ht := by
    obtain ⟨u, us, rfl, hu, hus⟩ := List.map_eq_cons_iff.mp hus
    exact .expect hu w.kind_ne_endOfSource (by simp) ((h u).finishes hus ht)

/-- Fewer words may follow. -/
theorem weaken (h : p.Tame F ks) (hF : ∀ kind, F' kind → F kind) : p.Tame F' ks :=
  ⟨h.steady, h.idles, fun hus ht => h.finishes hus (hF _ ht)⟩

/-- The words of a sequence are those of its parts. -/
theorem bind {f : α → Parser β} (hp : p.Tame F ks) (hf : ∀ a, (f a).Tame F' ks')
    (hhead : ∀ kind, F' kind → F ((ks'.map Filler.kind).headD kind)) :
    (p >>= f).Tame F' (ks ++ ks') where
  steady c := .bind (hp.steady c) fun _ a c' _ => .mono ((hf a).steady c') fun _ _ _ _ _ _ => trivial
  idles := hp.idles.bind fun a => (hf a).idles
  finishes {us t rest} hus ht := by
    obtain ⟨us, us', rfl, hfirst, hrest⟩ := List.map_eq_append_iff.mp (hus.trans List.map_append)
    rw [List.append_assoc]
    refine .bind ?_ fun a => (hf a).finishes hrest ht
    have hhead := hhead _ ht
    rw [← hrest] at hhead
    cases us' with
    | nil => exact hp.finishes hfirst hhead
    | cons u us' => exact hp.finishes hfirst hhead

/-- A sequence whose rest needs no more words. -/
theorem bind_last {f : α → Parser β} (hp : p.Tame F ks) (hf : ∀ a, (f a).Tame F' [])
    (hF : ∀ kind, F' kind → F kind) : (p >>= f).Tame F' ks := by
  rw [← List.append_nil ks]
  exact bind hp hf hF

/-- A look at the next token changes nothing. -/
theorem peek {f : Token → Parser α} (h : ∀ t, (f t).Tame F ks) : (Parser.peek >>= f).Tame F ks where
  steady c := .peek ((h _).steady c)
  idles := .peek fun t _ => (h t).idles
  finishes {us t rest} hus ht := by
    cases us with
    | nil => exact .peek ((h t).finishes hus ht)
    | cons u us => exact .peek ((h u).finishes hus ht)

/-- A new number changes nothing. -/
theorem freshNode {f : Nat → Parser α} (h : ∀ n, (f n).Tame F ks) :
    (Parser.freshNode >>= f).Tame F ks where
  steady _ := .freshNode ((h _).steady _)
  idles c hc := (h _).idles c.count (hc.of_tokens rfl)
  finishes hus ht c hs hc :=
    (h _).finishes hus ht c.count ⟨hs.last, hs.tokens⟩ hc

/-- Only what is done in front of an end matters. -/
theorem congr (h : ∀ c : Cursor, c.Sealed (fun _ => True) → p c = q c) (hq : q.Tame F ks) :
    p.Tame F ks where
  steady c hs := by
    rw [h c hs]
    exact hq.steady c hs
  idles := .congr (fun c hc => h c hc.sealed) hq.idles
  finishes hus ht := .congr (fun c hs _ => h c hs) (hq.finishes hus ht)

end Parser.Tame

/-! ## Foresight

Of two parsers in a sequence the first may be done, unfinished or spoiled; each case says what the
sequence is. -/

/-- What a parser has done with some words before the end, and would do with more of them. -/
inductive Parser.Foresight (F : TokenKind → Prop) (p : Parser α) (c : Cursor) (ts : List Token) : Prop
  /-- It was done before the end, without a mistake. -/
  | same {a c' ts'} (h : p c = .done a c') (hsuffix : ts' <:+ ts)
      (hmore : ∀ {d us}, c.Beyond ts us d →
        ∃ d', p d = .done a d' ∧ c'.Beyond ts' us d' ∧ d'.mistakes = d.mistakes)
  /-- It met the end, and words of some kinds would finish it. -/
  | ended (ks : List Filler) (hend : (p c).cursor.Before [])
      (hadds : c.Adds (·.atEnd = true) (p c).cursor)
      (hmore : ∀ {d us t rest}, us.map Token.kind = ks.map Filler.kind → F t.kind →
        c.Beyond ts (us ++ t :: rest) d →
          ∃ a d', p d = .done a d' ∧ d'.tokens = t :: rest ∧ d.Adds Diagnostic.IsComplaint d')
  /-- It has found a mistake that no words can mend. -/
  | spoiled (h : ∃ m ∈ (p c).cursor.mistakes, m.atEnd = false)
      (hmore : ∀ {d us}, c.Beyond ts us d → (p d).cursor.mistakes ≠ d.mistakes)

/-- The parser can be finished from the start, and has foresight with at most `k` words. -/
structure Parser.Viable (k : Nat) (F : TokenKind → Prop) (ks : List Filler) (p : Parser α) : Prop
    extends p.Tame F ks where
  foresees : ∀ {c ts}, c.Before ts → ts.length ≤ k → p.Foresight F c ts

/-- A steady part reads some tokens from the front. -/
theorem Parser.Steady.reaches {p : Parser α} (h : p.Steady) (hs : c.Sealed (fun _ => True)) :
    ∃ read, c.Reaches read (p c).cursor := by
  have := h c hs
  split at this
  · next heq =>
    obtain ⟨read, hr, -⟩ := this
    exact ⟨read, by rwa [heq]⟩
  · next heq =>
    obtain ⟨read, hr, -⟩ := this
    exact ⟨read, by rwa [heq]⟩

/-- What was done is not undone: a sequence has the mistakes of its first part. -/
theorem Parser.mistakes_bind {p : Parser α} {f : α → Parser β} (hp : p.Steady)
    (hf : ∀ a, (f a).Steady) (hs : c.Sealed (fun _ => True)) :
    (p c).cursor.mistakes <:+ ((p >>= f) c).cursor.mistakes := by
  obtain ⟨read, hr⟩ := hp.reaches hs
  cases hx : p c with
  | done a c' =>
    rw [Parser.bind_of_done hx]
    rw [hx] at hr
    obtain ⟨_, hr'⟩ := (hf a).reaches (hr.sealed hs)
    exact hr'.mistakes
  | unwound c' =>
    rw [Parser.bind_of_unwound hx]
    exact List.suffix_refl _

/-- A mistake of the first part of a sequence is one of the whole. -/
theorem Parser.mistakes_bind_ne {p : Parser α} {f : α → Parser β} (hp : p.Steady)
    (hf : ∀ a, (f a).Steady) (hs : c.Sealed (fun _ => True))
    (h : (p c).cursor.mistakes ≠ c.mistakes) : ((p >>= f) c).cursor.mistakes ≠ c.mistakes := by
  obtain ⟨read, hr⟩ := hp.reaches hs
  intro heq
  have hsuffix := mistakes_bind hp hf hs
  have hle := hr.mistakes.length_le
  have hle' := hsuffix.length_le
  rw [heq] at hle'
  exact h (hr.mistakes.eq_of_length (by omega)).symm

namespace Parser.Tame

variable {p : Parser α}

/-- Where there are no words, nothing but the end was met. -/
theorem foresight (h : p.Tame F ks) (hc : c.Before []) : p.Foresight F c [] := by
  obtain ⟨hend, hadds⟩ := h.idles c hc
  refine .ended ks hend hadds fun hus ht hd => ?_
  exact h.finishes hus ht _ hd.isSealed hd.tokens

/-- At the end itself a tame part can be finished. -/
theorem viable_zero (h : p.Tame F ks) : p.Viable 0 F ks where
  toTame := h
  foresees hc hk := by
    obtain rfl := List.eq_nil_of_length_eq_zero (Nat.le_zero.mp hk)
    exact h.foresight hc

/-- One word more. -/
theorem viable_succ (h : p.Tame F ks)
    (hmore : ∀ {c t ts}, c.Before (t :: ts) → ts.length ≤ k → p.Foresight F c (t :: ts)) :
    p.Viable (k + 1) F ks where
  toTame := h
  foresees {c ts} hc hk := by
    cases ts with
    | nil => exact h.foresight hc
    | cons t ts => exact hmore hc (Nat.le_of_succ_le_succ hk)

/-- In front of the end it can if it has foresight there. -/
theorem viable (h : p.Tame F ks)
    (hmore : ∀ {c t ts}, c.Before (t :: ts) → (t :: ts).length ≤ k → p.Foresight F c (t :: ts)) :
    p.Viable k F ks where
  toTame := h
  foresees {c ts} hc hk := by
    cases ts with
    | nil => exact h.foresight hc
    | cons t ts => exact hmore hc hk

end Parser.Tame

namespace Parser.Foresight

variable {p q : Parser α}

/-- A result at hand is there whatever follows. -/
theorem pure {a : α} : Foresight F (Pure.pure a) c ts :=
  .same rfl (List.suffix_refl _) fun {d _} hd => ⟨d, rfl, hd, rfl⟩

/-- Parsers that do the same from some words on. -/
theorem congr (hc : c.Before ts) (h : ∀ d us, c.Beyond ts us d → p d = q d)
    (hq : q.Foresight F c ts) : p.Foresight F c ts := by
  obtain ⟨t, -, hself⟩ := hc.beyond
  have hpc := h c _ hself
  cases hq with
  | same hdone hsuffix hmore =>
    exact .same (hpc.trans hdone) hsuffix fun hd => by rw [h _ _ hd]; exact hmore hd
  | ended ks hend hadds hmore =>
    refine .ended ks (by rwa [hpc]) (by rwa [hpc]) fun hus ht hd => ?_
    rw [h _ _ hd]
    exact hmore hus ht hd
  | spoiled hmistake hmore =>
    refine .spoiled (by rwa [hpc]) fun hd => ?_
    rw [h _ _ hd]
    exact hmore hd

/-- A parser that goes on as another one does behind the first word. -/
theorem step (hc : c.Before (t :: ts)) (h : ∀ d : Cursor, d.current = t → p d = q d.advance)
    (hq : q.Foresight F c.advance ts) : p.Foresight F c (t :: ts) := by
  obtain ⟨hcurrent, hk⟩ := hc.current
  have hpc := h c hcurrent
  cases hq with
  | same hdone hsuffix hmore =>
    refine .same (hpc.trans hdone) (hsuffix.trans (List.suffix_cons _ _)) fun hd => ?_
    have hmore := hmore (hd.advance hk)
    rwa [Cursor.mistakes_advance, ← h _ hd.current] at hmore
  | ended ks hend hadds hmore =>
    rw [← hpc] at hend hadds
    refine .ended ks hend (.trans (.of_eq Cursor.mistakes_advance) hadds) fun hus ht hd => ?_
    obtain ⟨a, d', hdone, htokens, hadds'⟩ := hmore hus ht (hd.advance hk)
    refine ⟨a, d', (h _ hd.current).trans hdone, htokens, ?_⟩
    exact .trans (.of_eq Cursor.mistakes_advance) hadds'
  | spoiled hmistake hmore =>
    refine .spoiled (by rwa [hpc]) fun hd => ?_
    have hdirty := hmore (hd.advance hk)
    rwa [Cursor.mistakes_advance, ← h _ hd.current] at hdirty

/-- Foresight of a sequence: where the first part was done, that of the rest. -/
theorem bind {f : α → Parser β} (hp : p.Foresight F c ts) (hsteady : p.Steady) (hc : c.Before ts)
    (hf : ∀ a, (f a).Tame F' ks') (hhead : ∀ kind, F' kind → F ((ks'.map Filler.kind).headD kind))
    (hsame : ∀ a c' ts', p c = .done a c' → c'.Before ts' → ts' <:+ ts →
      (f a).Foresight F' c' ts') : (p >>= f).Foresight F' c ts := by
  have hrest := fun a => (hf a).steady
  cases hp with
  | @same a c' ts' hdone hsuffix hmore =>
    obtain ⟨t, ht, hself⟩ := hc.beyond
    obtain ⟨_, hdone', hbeyond, hclean⟩ := hmore hself
    obtain ⟨-, rfl⟩ := Parsing.done.inj (hdone.symm.trans hdone')
    have hc' := hc.of_beyond hsuffix ht hbeyond
    cases hsame a c' ts' hdone hc' hsuffix with
    | same hdone₁ hsuffix₁ hmore₁ =>
      refine .same ((Parser.bind_of_done hdone).trans hdone₁) (hsuffix₁.trans hsuffix) fun hd => ?_
      obtain ⟨d₁, hd₁, hbeyond₁, hclean₁⟩ := hmore hd
      rw [Parser.bind_of_done hd₁, ← hclean₁]
      exact hmore₁ hbeyond₁
    | ended ks hend hadds hmore₁ =>
      rw [← Parser.bind_of_done (f := f) hdone] at hend hadds
      refine .ended ks hend (.trans (.of_eq hclean) hadds) fun hus ht hd => ?_
      obtain ⟨d₁, hd₁, hbeyond₁, hclean₁⟩ := hmore hd
      obtain ⟨b, d₂, hd₂, htokens₂, hadds₂⟩ := hmore₁ hus ht hbeyond₁
      exact ⟨b, d₂, (Parser.bind_of_done hd₁).trans hd₂, htokens₂, .trans (.of_eq hclean₁) hadds₂⟩
    | spoiled hmistake hmore₁ =>
      rw [← Parser.bind_of_done (f := f) hdone] at hmistake
      refine .spoiled hmistake fun hd => ?_
      obtain ⟨d₁, hd₁, hbeyond₁, hclean₁⟩ := hmore hd
      rw [Parser.bind_of_done hd₁, ← hclean₁]
      exact hmore₁ hbeyond₁
  | ended ks hend hadds hmore =>
    have hwhole : ((p >>= f) c).cursor.Before [] ∧ c.Adds (·.atEnd = true) ((p >>= f) c).cursor := by
      cases hx : p c with
      | done a c' =>
        rw [hx] at hend hadds
        obtain ⟨hend', hadds'⟩ := (hf a).idles c' hend
        rw [Parser.bind_of_done hx]
        exact ⟨hend', hadds.trans hadds'⟩
      | unwound c' =>
        rw [hx] at hend hadds
        rw [Parser.bind_of_unwound hx]
        exact ⟨hend, hadds⟩
    refine .ended (ks ++ ks') hwhole.1 hwhole.2 fun {d us t rest} hus ht hd => ?_
    obtain ⟨us, us', rfl, hfirst, hlast⟩ := List.map_eq_append_iff.mp (hus.trans List.map_append)
    rw [List.append_assoc] at hd
    obtain ⟨u, rest', heq, hu⟩ : ∃ u rest', us' ++ t :: rest = u :: rest' ∧ F u.kind := by
      have hhead := hhead _ ht
      rw [← hlast] at hhead
      cases us' with
      | nil => exact ⟨t, rest, rfl, hhead⟩
      | cons u us' => exact ⟨u, us' ++ t :: rest, rfl, hhead⟩
    rw [heq] at hd
    obtain ⟨a, d₁, hd₁, htokens₁, hadds₁⟩ := hmore hfirst hu hd
    rw [← heq] at htokens₁
    have hread : d.tokens = (ts ++ us) ++ d₁.tokens := by
      rw [hd.tokens, htokens₁, ← heq, List.append_assoc]
    obtain ⟨b, d₂, hd₂, htokens₂, hadds₂⟩ :=
      (hf a).finishes hlast ht d₁ (hd.isSealed.of_tokens hread) htokens₁
    exact ⟨b, d₂, (Parser.bind_of_done hd₁).trans hd₂, htokens₂, hadds₁.trans hadds₂⟩
  | spoiled hmistake hmore =>
    obtain ⟨m, hm, hatEnd⟩ := hmistake
    refine .spoiled ⟨m, (mistakes_bind hsteady hrest hc.sealed).subset hm, hatEnd⟩ fun hd => ?_
    exact mistakes_bind_ne hsteady hrest hd.isSealed (hmore hd)

/-- The next token is known. -/
theorem next {f : Token → Parser α} (hc : c.Before (t :: ts))
    (h : (f t).Foresight F c.advance ts) : (Parser.next >>= f).Foresight F c (t :: ts) :=
  step hc (fun d hd => by rw [← hd]; rfl) h

/-- A look at it changes nothing. -/
theorem peek {f : Token → Parser α} (hc : c.Before (t :: ts))
    (h : (f t).Foresight F c (t :: ts)) : (Parser.peek >>= f).Foresight F c (t :: ts) :=
  congr hc (fun d _ hd => by rw [← hd.current]; rfl) h

/-- A word that may come is known to come or not. -/
theorem accept {yes no : Parser α} (hc : c.Before (t :: ts))
    (hyes : t.kind = kind → yes.Foresight F c.advance ts)
    (hno : t.kind ≠ kind → no.Foresight F c (t :: ts)) :
    (Parser.accept kind >>= fun b => if b = true then yes else no).Foresight F c (t :: ts) := by
  by_cases hk : t.kind = kind
  · refine step hc (fun d hd => ?_) (hyes hk)
    simp [Parser.accept, Parser.sees, Parser.next, Bind.bind, Pure.pure, hd, hk]
  · refine congr hc (fun d us hd => ?_) (hno hk)
    simp [Parser.accept, Parser.sees, Bind.bind, Pure.pure, hd.current, hk]

/-- A look for it is answered the same way. -/
theorem sees {yes no : Parser α} (hc : c.Before (t :: ts))
    (hyes : t.kind = kind → yes.Foresight F c (t :: ts))
    (hno : t.kind ≠ kind → no.Foresight F c (t :: ts)) :
    (Parser.sees kind >>= fun b => if b = true then yes else no).Foresight F c (t :: ts) := by
  by_cases hk : t.kind = kind
  · refine congr hc (fun d us hd => ?_) (hyes hk)
    simp [Parser.sees, Bind.bind, hd.current, hk]
  · refine congr hc (fun d us hd => ?_) (hno hk)
    simp [Parser.sees, Bind.bind, hd.current, hk]

/-- A mistake at a word. -/
theorem missing {what : Wanted} (hc : c.Before (t :: ts)) :
    Foresight (α := α) F (Parser.missing what) c (t :: ts) := by
  obtain ⟨hcurrent, hk⟩ := hc.current
  refine .spoiled ⟨_, List.mem_cons_self, ?_⟩ fun hd => ?_
  · simp [hcurrent, hk]
  · exact List.cons_ne_self _ _

/-- A word that has to come is read, or its absence is a mistake in the middle. -/
theorem expect {f : Token → Parser α} {what : Wanted} (hc : c.Before (t :: ts))
    (h : t.kind = kind → (f t).Foresight F c.advance ts) :
    (Parser.expect kind what >>= f).Foresight F c (t :: ts) := by
  by_cases hk : t.kind = kind
  · refine step hc (fun d hd => ?_) (h hk)
    simp [Parser.expect, Parser.sees, Parser.next, Bind.bind, hd, hk]
  · refine congr hc (fun d us hd => ?_) (@missing _ _ _ _ _ what hc)
    simp [Parser.expect, Parser.sees, Bind.bind, hd.current, hk, Parser.missing]

/-- A mistake at a word that was read. -/
theorem report {f : Unit → Parser α} {cause : GrammarCause} (ht : t.kind ≠ .endOfSource)
    (hc : c.Before ts) (hf : (f ()).Steady) : (Parser.report t cause >>= f).Foresight F c ts := by
  have hmistakes : ∀ {d : Cursor}, d.Sealed (fun _ => True) →
      (d.report t cause).mistakes <:+ ((Parser.report t cause >>= f) d).cursor.mistakes := by
    intro d hs
    obtain ⟨_, hr⟩ := hf.reaches ((Cursor.Reaches.report t cause).sealed hs)
    exact hr.mistakes
  refine .spoiled ⟨_, (hmistakes hc.sealed).subset List.mem_cons_self, by simp [ht]⟩ fun hd heq => ?_
  have hle := (hmistakes hd.isSealed).length_le
  rw [heq] at hle
  exact absurd hle (by simp [Cursor.report])

/-- A new number changes nothing. -/
theorem freshNode {f : Nat → Parser α}
    (h : (f c.count.node).Foresight F c.count ts) :
    (Parser.freshNode >>= f).Foresight F c ts := by
  have hnumbers : ∀ {d us}, c.Beyond ts us d →
      d.count.node = c.count.node ∧ d.count.others = c.count.others := fun hd => by
    simp [Cursor.count, hd.numbers]
  have hnode : ∀ {d us}, c.Beyond ts us d → c.count.Beyond ts us d.count := fun hd =>
    ⟨⟨hd.isSealed.last, hd.isSealed.tokens⟩, hd.tokens, hnumbers hd⟩
  have heq : ∀ {d us}, c.Beyond ts us d →
      (Parser.freshNode >>= f) d = f c.count.node d.count := fun hd => by
    rw [← (hnumbers hd).1]
    rfl
  cases h with
  | same hdone hsuffix hmore =>
    refine .same hdone hsuffix fun hd => ?_
    rw [heq hd]
    exact hmore (hnode hd)
  | ended ks hend hadds hmore =>
    refine .ended ks hend hadds fun hus ht hd => ?_
    rw [heq hd]
    exact hmore hus ht (hnode hd)
  | spoiled hmistake hmore =>
    refine .spoiled hmistake fun hd => ?_
    rw [heq hd]
    exact hmore (hnode hd)

end Parser.Foresight

namespace Parser.Viable

variable {p q : Parser α}

/-- A result at hand needs nothing. -/
theorem pure {a : α} : Viable k F [] (Pure.pure a) := ⟨.pure, fun _ _ => .pure⟩

/-- What can be finished behind some tokens can be behind fewer. -/
theorem mono (h : p.Viable k F ks) {k' : Nat} (hk : k' ≤ k) : p.Viable k' F ks :=
  ⟨h.toTame, fun hc hle => h.foresees hc (Nat.le_trans hle hk)⟩

/-- Fewer words may follow. -/
theorem weaken (h : p.Viable k F ks) (hF : ∀ kind, F' kind → F kind) : p.Viable k F' ks where
  toTame := h.toTame.weaken hF
  foresees hc hk := by
    cases h.foresees hc hk with
    | same hdone hsuffix hmore => exact .same hdone hsuffix hmore
    | ended ks hend hadds hmore => exact .ended ks hend hadds fun hus ht => hmore hus (hF _ ht)
    | spoiled hmistake hmore => exact .spoiled hmistake hmore

/-- Two parts are finished by what finishes the one and then the other. -/
theorem bind {f : α → Parser β} (hp : p.Viable k F ks) (hf : ∀ a, (f a).Viable k F' ks')
    (hhead : ∀ kind, F' kind → F ((ks'.map Filler.kind).headD kind)) :
    (p >>= f).Viable k F' (ks ++ ks') where
  toTame := hp.toTame.bind (fun a => (hf a).toTame) hhead
  foresees {c ts} hc hk := by
    refine (hp.foresees hc hk).bind hp.steady hc (fun a => (hf a).toTame) hhead ?_
    intro a c' ts' _ hc' hsuffix
    exact (hf a).foresees hc' (Nat.le_trans hsuffix.length_le hk)

/-- A word that has to come is needed first. -/
theorem expect (w : Filler) {f : Token → Parser α} {what : Wanted} (h : ∀ t, (f t).Viable k F ks) :
    (Parser.expect w.kind what >>= f).Viable k F (w :: ks) :=
  Tame.viable (.expect w fun t => (h t).toTame) fun hc hk =>
    .expect hc fun _ => (h _).foresees hc.advance (Nat.le_of_succ_le hk)

/-- A part behind which nothing has to come is finished by what finishes it alone. -/
theorem bind_last {f : α → Parser β} (hp : p.Viable k F ks) (hf : ∀ a, (f a).Viable k F' [])
    (hF : ∀ kind, F' kind → F kind) : (p >>= f).Viable k F' ks := by
  rw [← List.append_nil ks]
  exact bind hp hf hF

/-- A parser with another result. -/
theorem returns {f : α → β} (hp : p.Viable k F ks) : (p >>= fun a => Pure.pure (f a)).Viable k F ks :=
  bind_last hp (fun _ => pure) fun _ h => h

/-- A new number changes nothing. -/
theorem freshNode {f : Nat → Parser α} (h : ∀ n, (f n).Viable k F ks) :
    (Parser.freshNode >>= f).Viable k F ks :=
  ⟨.freshNode fun n => (h n).toTame, fun hc hk =>
    .freshNode ((h _).foresees (hc.of_tokens rfl) hk)⟩

/-- Only what is done in front of an end matters. -/
theorem congr (h : ∀ c : Cursor, c.Sealed (fun _ => True) → p c = q c) (hq : q.Viable k F ks) :
    p.Viable k F ks :=
  ⟨.congr h hq.toTame, fun hc hk => .congr hc (fun d _ hd => h d hd.isSealed) (hq.foresees hc hk)⟩

end Parser.Viable

end YouthLang

import YouthLang.Tree.Parse

/-!
# Proofs/Reading — parsers judged by the tokens they read

Judgements about a parser, each with one rule for every step that a parser is made of:

* `Parser.Reads` — from a cursor, whatever the tokens are: which of them the parser reads and what then
  holds.  A parser that unwinds has reported a mistake.  `Parser.Derives` is the same where what holds
  is only promised if no mistake was reported.
* `Parser.Accepts` — from given tokens: the parser reads them without a mistake, up to a given rest.
  Its rules come from `Parser.Becomes`: on known tokens a step leaves what stands behind it.
-/

namespace YouthLang

variable {α β : Type} {allowed : Token → Prop} {c c' c'' : Cursor} {read read' : List Token}

/-! ## Cursors -/

namespace Cursor

/-- The tokens from the current one on. -/
def tokens (c : Cursor) : List Token := c.current :: c.following

/-- The last token marks the end, and all of them are allowed. -/
structure Sealed (allowed : Token → Prop) (c : Cursor) : Prop where
  last : ∃ t, c.tokens.getLast? = some t ∧ t.kind = .endOfSource
  tokens : ∀ t ∈ c.tokens, allowed t

/-- A cursor further on: some tokens were read, none of which marks the end, and mistakes and nodes may
have been added. -/
structure Reaches (c : Cursor) (read : List Token) (c' : Cursor) : Prop where
  tokens : c.tokens = read ++ c'.tokens
  words : ∀ t ∈ read, t.kind ≠ .endOfSource
  mistakes : c.mistakes <:+ c'.mistakes
  node : c.node ≤ c'.node

/-- A cursor has as many tokens as its size says. -/
@[simp] theorem length_tokens (c : Cursor) : c.tokens.length = c.size := by
  simp [tokens, size]

/-- There is a token even at the end. -/
theorem size_pos (c : Cursor) : 0 < c.size := Nat.succ_pos _

/-- A report takes no token. -/
@[simp] theorem tokens_report (t : Token) (cause : GrammarCause) :
    (c.report t cause).tokens = c.tokens := rfl

/-- A token taken is no mistake. -/
@[simp] theorem mistakes_advance : c.advance.mistakes = c.mistakes := by
  unfold advance
  split
  · rfl
  · split <;> rfl

/-- Others number no nodes while a token is taken. -/
@[simp] theorem others_advance : c.advance.others = c.others := by
  unfold advance
  split
  · rfl
  · split <;> rfl

/-- A parse starts without mistakes. -/
@[simp] theorem mistakes_start (node : Nat) (t : Token) (ts : List Token) (others : List Nat) :
    (start node t ts others).mistakes = [] := rfl

/-- A new node has a number of its own. -/
theorem node_lt_count : c.node < c.count.node := Nat.lt_succ_of_le (Nat.le_add_right _ _)

/-- A token taken numbers no node. -/
@[simp] theorem node_advance : c.advance.node = c.node := by
  unfold advance
  split
  · rfl
  · split <;> rfl

/-- So it does not matter which of the two comes first. -/
@[simp] theorem node_count_advance : c.advance.count.node = c.count.node := by
  simp [count]

/-- No token comes back. -/
theorem size_advance_le (c : Cursor) : c.advance.size ≤ c.size := by
  unfold advance
  split
  · exact Nat.le_refl _
  · split
    · exact Nat.le_refl _
    · next t ts hcons => simp [size, hcons]

/-- A cursor reaches itself with no token read. -/
theorem Reaches.refl (c : Cursor) : c.Reaches [] c :=
  ⟨rfl, by simp, List.suffix_refl _, Nat.le_refl _⟩

/-- The tokens read on the way are put one behind the other. -/
theorem Reaches.trans (h : c.Reaches read c') (h' : c'.Reaches read' c'') :
    c.Reaches (read ++ read') c'' where
  tokens := by rw [h.tokens, h'.tokens, List.append_assoc]
  words t ht := (List.mem_append.mp ht).elim (h.words t) (h'.words t)
  mistakes := h.mistakes.trans h'.mistakes
  node := Nat.le_trans h.node h'.node

/-- What has been read and what is ahead are what was ahead before. -/
theorem Reaches.size (h : c.Reaches read c') : read.length + c'.size = c.size := by
  rw [← length_tokens, ← length_tokens, h.tokens, List.length_append]

/-- A cursor gets no further from the end. -/
theorem Reaches.size_le (h : c.Reaches read c') : c'.size ≤ c.size := by
  have := h.size
  omega

/-- What seals the tokens still does behind some of them. -/
theorem Reaches.sealed (h : c.Reaches read c') (hc : c.Sealed allowed) : c'.Sealed allowed where
  last := by
    obtain ⟨t, ht, hend⟩ := hc.last
    refine ⟨t, ?_, hend⟩
    rw [← ht, h.tokens]
    simp [Cursor.tokens, List.getLast?_append, List.getLast?_cons]
  tokens t ht := hc.tokens t (by rw [h.tokens]; exact List.mem_append_right _ ht)

/-- A report is made on the spot. -/
theorem Reaches.report (t : Token) (cause : GrammarCause) : c.Reaches [] (c.report t cause) :=
  ⟨rfl, by simp, List.suffix_cons _ _, Nat.le_refl _⟩

/-- A token that does not mark the end is followed by another one. -/
theorem tokens_advance (hc : c.Sealed allowed) (hk : c.current.kind ≠ .endOfSource) :
    c.tokens = c.current :: c.advance.tokens := by
  unfold advance
  rw [if_neg (by simpa [atEnd] using hk)]
  split
  · next hnil =>
    obtain ⟨t, ht, hend⟩ := hc.last
    have : c.current = t := by simpa [Cursor.tokens, hnil] using ht
    exact absurd (this ▸ hend) hk
  · next t ts hcons => simp [Cursor.tokens, hcons]

/-- A token other than the end is used up when it is taken. -/
theorem Sealed.size_advance (hc : c.Sealed allowed) (hk : c.current.kind ≠ .endOfSource) :
    c.advance.size + 1 = c.size := by
  rw [← length_tokens, ← length_tokens, tokens_advance hc hk, List.length_cons]

/-- Taking a token reads just that one. -/
theorem Reaches.advance (hc : c.Sealed allowed) (hk : c.current.kind ≠ .endOfSource) :
    c.Reaches [c.current] c.advance :=
  ⟨tokens_advance hc hk, by simpa using hk, by simp, by simp⟩

/-- Skipping up to a place to go on reads what is skipped. -/
theorem Reaches.settle : ∀ (n : Nat) {c : Cursor}, c.Sealed allowed →
    ∃ skipped, c.Reaches skipped (Cursor.settle n c)
  | 0, c, _ => ⟨[], .refl c⟩
  | n + 1, c, hc => by
      unfold Cursor.settle
      split
      · exact ⟨[], .refl c⟩
      · next hgo =>
        have hk : c.current.kind ≠ .endOfSource := fun hk => hgo (by simp [atEnd, hk])
        have hr := Reaches.advance hc hk
        obtain ⟨skipped, hr'⟩ := Reaches.settle n (hr.sealed hc)
        exact ⟨_, hr.trans hr'⟩

/-- Recovery skips some tokens. -/
theorem Reaches.recover (hc : c.Sealed allowed) : ∃ skipped, c.Reaches skipped c.recover := by
  unfold Cursor.recover
  split
  · exact ⟨[], .refl c⟩
  · by_cases hk : c.current.kind = .endOfSource
    · have hstay : c.advance = c := by simp [Cursor.advance, atEnd, hk]
      rw [hstay]
      exact Reaches.settle c.size hc
    · have hr := Reaches.advance hc hk
      obtain ⟨skipped, hr'⟩ := Reaches.settle c.size (hr.sealed hc)
      exact ⟨_, hr.trans hr'⟩

/-- Mistakes are never taken back, so none were made on the way if there are none at the end. -/
theorem Reaches.clean (h : c.Reaches read c') (h' : c'.Reaches read' c'')
    (hclean : c''.mistakes = c.mistakes) :
    c'.mistakes = c.mistakes ∧ c''.mistakes = c'.mistakes := by
  have hlen := h.mistakes.length_le
  have hlen' := h'.mistakes.length_le
  have heq : c'.mistakes = c.mistakes :=
    (h.mistakes.eq_of_length (by rw [hclean] at hlen'; omega)).symm
  exact ⟨heq, hclean.trans heq.symm⟩

end Cursor

/-! ## Sequences

One rule for each way to put parsers together.  The tokens of a sequence are those of its parts, and
a part that unwinds ends it. -/

/-- Behind a part that has come to its end the other one goes on. -/
theorem Parser.bind_of_done {p : Parser α} {f : α → Parser β} {a : α} (h : p c = .done a c') :
    (p >>= f) c = f a c' := by
  simp only [bind, h]

/-- A part that unwinds unwinds the whole. -/
theorem Parser.bind_of_unwound {p : Parser α} {f : α → Parser β} (h : p c = .unwound c') :
    (p >>= f) c = .unwound c' := by
  simp only [bind, h]

/-! ## Reading whatever comes -/

/-- From a sealed cursor the parser ends further on, with a result that something holds of, or it has
reported a mistake. -/
def Parser.Reads (allowed : Token → Prop) (p : Parser α) (c : Cursor)
    (post : List Token → α → Cursor → Prop) : Prop :=
  c.Sealed allowed → match p c with
    | .done a c' => ∃ read, c.Reaches read c' ∧ post read a c'
    | .unwound c' => ∃ read, c.Reaches read c' ∧ c'.mistakes ≠ c.mistakes

namespace Parser.Reads

variable {p : Parser α} {f : α → Parser β} {post : List Token → β → Cursor → Prop}
  {kind : TokenKind}

/-- Nothing is read for a result at hand. -/
theorem pure {b : β} (h : post [] b c) : Reads allowed (Pure.pure b) c post :=
  fun _ => ⟨[], .refl c, h⟩

/-- What is known of a result may be told in other words. -/
theorem mono {pre : List Token → β → Cursor → Prop} {p : Parser β} (hp : Reads allowed p c pre)
    (h : ∀ read b c', c.Reaches read c' → pre read b c' → post read b c') :
    Reads allowed p c post := by
  intro hc
  have := hp hc
  split at this
  · obtain ⟨read, hr, hpre⟩ := this
    exact ⟨read, hr, h _ _ _ hr hpre⟩
  · exact this

/-- What a sequence reads is what its parts read. -/
theorem bind {pre : List Token → α → Cursor → Prop} (hp : Reads allowed p c pre)
    (hf : ∀ read a c', c.Reaches read c' → pre read a c' →
      Reads allowed (f a) c' fun read' => post (read ++ read')) :
    Reads allowed (p >>= f) c post := by
  intro hc
  have hp := hp hc
  split at hp
  · next a c' heq =>
    obtain ⟨read, hr, hpre⟩ := hp
    have hf := hf read a c' hr hpre (hr.sealed hc)
    rw [Parser.bind_of_done heq]
    split at hf
    · obtain ⟨read', hr', hpost⟩ := hf
      exact ⟨read ++ read', hr.trans hr', hpost⟩
    · obtain ⟨read', hr', hne⟩ := hf
      exact ⟨read ++ read', hr.trans hr', fun hclean => hne (hr.clean hr' hclean).2⟩
  · next c' heq =>
    rw [Parser.bind_of_unwound heq]
    exact hp

/-- The result may be changed on the way. -/
theorem map {pre : List Token → α → Cursor → Prop} {g : α → β} (hp : Reads allowed p c pre)
    (h : ∀ read a c', c.Reaches read c' → pre read a c' → post read (g a) c') :
    Reads allowed (g <$> p) c post := by
  refine bind hp fun read a c' hr hpre => pure ?_
  simpa using h read a c' hr hpre

/-- A look at the next token reads nothing. -/
theorem peek {f : Token → Parser β} (h : Reads allowed (f c.current) c post) :
    Reads allowed (Parser.peek >>= f) c post := h

/-- Neither does counting what is left. -/
theorem remaining {f : Nat → Parser β} (h : Reads allowed (f c.size) c post) :
    Reads allowed (Parser.remaining >>= f) c post := h

/-- A parser that goes on as another one does behind some tokens. -/
theorem step {p q : Parser β} (hr : c.Reaches read c') (heq : p c = q c')
    (h : Reads allowed q c' fun read' => post (read ++ read')) : Reads allowed p c post := by
  intro hc
  have := h (hr.sealed hc)
  rw [heq]
  split at this
  · obtain ⟨read', hr', hpost⟩ := this
    exact ⟨read ++ read', hr.trans hr', hpost⟩
  · obtain ⟨read', hr', hne⟩ := this
    exact ⟨read ++ read', hr.trans hr', fun hclean => hne (hr.clean hr' hclean).2⟩

/-- A parser that goes on as another one does behind the current token. -/
theorem advance {p q : Parser β} (hk : c.current.kind ≠ .endOfSource) (heq : p c = q c.advance)
    (h : allowed c.current → c.advance.size + 1 = c.size →
      Reads allowed q c.advance fun read => post (c.current :: read)) :
    Reads allowed p c post := fun hc =>
  step (.advance hc hk) heq (h (hc.tokens _ (by simp [Cursor.tokens])) (hc.size_advance hk)) hc

/-- The next token is read, unless it is the end. -/
theorem next {f : Token → Parser β} (hk : c.current.kind ≠ .endOfSource)
    (h : allowed c.current → c.advance.size + 1 = c.size →
      Reads allowed (f c.current) c.advance fun read => post (c.current :: read)) :
    Reads allowed (Parser.next >>= f) c post := advance hk rfl h

/-- A new number reads nothing. -/
theorem freshNode {f : Nat → Parser β}
    (h : Reads allowed (f c.count.node) c.count post) :
    Reads allowed (Parser.freshNode >>= f) c post := by
  have hr : c.Reaches [] c.count :=
    ⟨rfl, by simp, List.suffix_refl _, Nat.le_of_lt c.node_lt_count⟩
  exact step hr rfl h

/-- A report reads nothing. -/
theorem report {f : Unit → Parser β} {t : Token} {cause : GrammarCause}
    (h : Reads allowed (f ()) (c.report t cause) post) :
    Reads allowed (Parser.report t cause >>= f) c post := step (.report t cause) rfl h

/-- A complaint has no result, so nothing has to be shown of one. -/
theorem missing {what : Wanted} : Reads allowed (Parser.missing what) c post :=
  fun _ => ⟨[], .report _ _, List.cons_ne_self _ _⟩

/-- A look for a kind of token leaves two ways to go on. -/
theorem sees {yes no : Parser β} (hyes : c.current.kind = kind → Reads allowed yes c post)
    (hno : c.current.kind ≠ kind → Reads allowed no c post) :
    Reads allowed (Parser.sees kind >>= fun b => if b = true then yes else no) c post := by
  by_cases hk : c.current.kind = kind
  · exact step (.refl c) (by simp [Parser.sees, Bind.bind, hk]) (hyes hk)
  · exact step (.refl c) (by simp [Parser.sees, Bind.bind, hk]) (hno hk)

/-- A word that may come is read where it comes. -/
theorem accept {yes no : Parser β} (hend : kind ≠ .endOfSource)
    (hyes : c.current.kind = kind → allowed c.current → c.advance.size + 1 = c.size →
      Reads allowed yes c.advance fun read => post (c.current :: read))
    (hno : c.current.kind ≠ kind → Reads allowed no c post) :
    Reads allowed (Parser.accept kind >>= fun b => if b = true then yes else no) c post := by
  by_cases hk : c.current.kind = kind
  · refine advance (hk ▸ hend) ?_ (hyes hk)
    simp [Parser.accept, Parser.sees, Parser.next, Bind.bind, Pure.pure, hk]
  · refine step (.refl c) ?_ (hno hk)
    simp [Parser.accept, Parser.sees, Bind.bind, Pure.pure, hk]

/-- A word that has to come is read, or the parser unwinds. -/
theorem expect {f : Token → Parser β} {what : Wanted} (hend : kind ≠ .endOfSource)
    (h : c.current.kind = kind → allowed c.current → c.advance.size + 1 = c.size →
      Reads allowed (f c.current) c.advance fun read => post (c.current :: read)) :
    Reads allowed (Parser.expect kind what >>= f) c post := by
  by_cases hk : c.current.kind = kind
  · refine advance (hk ▸ hend) ?_ (h hk)
    simp [Parser.expect, Parser.sees, Parser.next, Bind.bind, hk]
  · refine step (.refl c) ?_ (@missing _ allowed c _ what)
    simp [Parser.expect, Parser.sees, Bind.bind, hk, Parser.missing]

end Parser.Reads

/-! ## Reading without a mistake

What holds may be promised only for the case that nothing was reported.  A mistake is never taken
back, so a later part may assume that none was made before it. -/

/-- From a cursor before a sealed end the parser ends further on, and something holds of its result
unless it has reported a mistake. -/
def Parser.Derives (p : Parser α) (c : Cursor) (post : List Token → α → Cursor → Prop) : Prop :=
  p.Reads (fun _ => True) c fun read a c' => c'.mistakes = c.mistakes → post read a c'

namespace Parser.Derives

variable {p : Parser α} {f : α → Parser β} {post : List Token → β → Cursor → Prop}
  {kind : TokenKind}

/-- Nothing is read for a result at hand. -/
theorem pure {b : β} (h : post [] b c) : Derives (Pure.pure b) c post := Reads.pure fun _ => h

/-- What is known of a result may be told in other words. -/
theorem mono {pre : List Token → β → Cursor → Prop} {p : Parser β} (hp : p.Derives c pre)
    (h : ∀ read b c', c.Reaches read c' → pre read b c' → post read b c') : p.Derives c post :=
  Reads.mono hp fun read b c' hr hpre hclean => h read b c' hr (hpre hclean)

/-- The rest of a sequence may use what was derived before it, as long as it promises nothing to a
cursor with mistakes. -/
theorem bind {pre : List Token → α → Cursor → Prop} (hp : p.Derives c pre)
    (hf : ∀ read a c', c.Reaches read c' → (f a).Derives c' fun read' b c'' =>
      pre read a c' → post (read ++ read') b c'') : (p >>= f).Derives c post := by
  refine Reads.bind hp fun read a c' hr hpre => ?_
  refine Reads.mono (hf read a c' hr) fun read' b c'' hr' hpost hclean => ?_
  obtain ⟨hc', hc''⟩ := hr.clean hr' hclean
  exact hpost hc'' (hpre hc')

/-- The result may be changed on the way. -/
theorem map {pre : List Token → α → Cursor → Prop} {g : α → β} (hp : p.Derives c pre)
    (h : ∀ read a c', c.Reaches read c' → pre read a c' → post read (g a) c') :
    (g <$> p).Derives c post :=
  Reads.map hp fun read a c' hr hpre hclean => h read a c' hr (hpre hclean)

/-- A look at the next token reads nothing. -/
theorem peek {f : Token → Parser β} (h : (f c.current).Derives c post) :
    (Parser.peek >>= f).Derives c post := h

/-- Neither does counting what is left. -/
theorem remaining {f : Nat → Parser β} (h : (f c.size).Derives c post) :
    (Parser.remaining >>= f).Derives c post := h

/-- The next token is read, unless it is the end. -/
theorem next {f : Token → Parser β} (hk : c.current.kind ≠ .endOfSource)
    (h : c.advance.size + 1 = c.size →
      (f c.current).Derives c.advance fun read => post (c.current :: read)) :
    (Parser.next >>= f).Derives c post := by
  refine Reads.next hk fun _ hsize => ?_
  have := h hsize
  rwa [Derives, Cursor.mistakes_advance] at this

/-- A new number reads nothing. -/
theorem freshNode {f : Nat → Parser β}
    (h : (f c.count.node).Derives c.count post) :
    (Parser.freshNode >>= f).Derives c post := Reads.freshNode h

/-- A parser that reports a mistake promises nothing. -/
theorem report {f : Unit → Parser β} {t : Token} {cause : GrammarCause}
    {pre : List Token → β → Cursor → Prop} (h : (f ()).Derives (c.report t cause) pre) :
    (Parser.report t cause >>= f).Derives c post := by
  refine Reads.report (Reads.mono h fun read b c' hr _ hclean => ?_)
  have hlen := hr.mistakes.length_le
  rw [hclean] at hlen
  exact absurd hlen (by simp [Cursor.report])

/-- A complaint has no result. -/
theorem missing {what : Wanted} : Derives (Parser.missing what) c post := Reads.missing

/-- A look for a kind of token leaves two ways to go on. -/
theorem sees {yes no : Parser β} (hyes : c.current.kind = kind → yes.Derives c post)
    (hno : c.current.kind ≠ kind → no.Derives c post) :
    (Parser.sees kind >>= fun b => if b = true then yes else no).Derives c post :=
  Reads.sees hyes hno

/-- A word that may come is read where it comes. -/
theorem accept {yes no : Parser β} (hend : kind ≠ .endOfSource)
    (hyes : c.current.kind = kind → c.advance.size + 1 = c.size →
      yes.Derives c.advance fun read => post (c.current :: read))
    (hno : c.current.kind ≠ kind → no.Derives c post) :
    (Parser.accept kind >>= fun b => if b = true then yes else no).Derives c post := by
  refine Reads.accept hend (fun hk _ hsize => ?_) hno
  have := hyes hk hsize
  rwa [Derives, Cursor.mistakes_advance] at this

/-- A word that has to come is read: without it there would be a mistake. -/
theorem expect {f : Token → Parser β} {what : Wanted} (hend : kind ≠ .endOfSource)
    (h : c.current.kind = kind → c.advance.size + 1 = c.size →
      (f c.current).Derives c.advance fun read => post (c.current :: read)) :
    (Parser.expect kind what >>= f).Derives c post := by
  refine Reads.expect hend fun hk _ hsize => ?_
  have := h hk hsize
  rwa [Derives, Cursor.mistakes_advance] at this

end Parser.Derives

/-! ## Reading what is known -/

/-- The cursor behind a token that does not mark the end. -/
theorem Cursor.tokens_behind {t : Token} {ts : List Token} (hc : c.tokens = t :: ts)
    (hk : t.kind ≠ .endOfSource) (hts : ts ≠ []) : c.current = t ∧ c.advance.tokens = ts := by
  obtain ⟨rfl, hfollowing⟩ := List.cons.inj hc
  refine ⟨rfl, ?_⟩
  rw [Cursor.advance, if_neg (by simpa [Cursor.atEnd] using hk)]
  split
  · next hnil => exact absurd (hfollowing.symm.trans hnil) hts
  · next u us hcons => exact hcons.symm.trans hfollowing

/-- From some tokens on a parser goes on as another one does from other tokens on, without a
mistake. -/
def Parser.Becomes (p : Parser α) (ts : List Token) (q : Parser α) (us : List Token) : Prop :=
  ∀ c : Cursor, c.tokens = ts → ∃ c', p c = q c' ∧ c'.tokens = us ∧ c'.mistakes = c.mistakes

namespace Parser.Becomes

variable {kind : TokenKind} {t : Token} {ts : List Token} {yes no : Parser β}

/-- In front of a known token the look at it is settled. -/
theorem peek {f : Token → Parser β} :
    (Parser.peek >>= f).Becomes (t :: ts) (f t) (t :: ts) := fun c hc =>
  ⟨c, by rw [← (List.cons.inj hc).1]; rfl, hc, rfl⟩

/-- In front of known tokens their number is. -/
theorem remaining {f : Nat → Parser β} :
    (Parser.remaining >>= f).Becomes ts (f ts.length) ts := fun c hc =>
  ⟨c, by rw [← hc, Cursor.length_tokens]; rfl, hc, rfl⟩

/-- A known token is taken. -/
theorem next {f : Token → Parser β} (hk : t.kind ≠ .endOfSource) (hts : ts ≠ []) :
    (Parser.next >>= f).Becomes (t :: ts) (f t) ts := fun c hc => by
  obtain ⟨rfl, htokens⟩ := Cursor.tokens_behind hc hk hts
  exact ⟨c.advance, rfl, htokens, by simp⟩

/-- The look for its kind finds it. -/
theorem sees_yes (hk : t.kind = kind) :
    (Parser.sees kind >>= fun b => if b = true then yes else no).Becomes (t :: ts) yes (t :: ts) :=
  fun c hc => by
    obtain ⟨rfl, -⟩ := List.cons.inj hc
    exact ⟨c, by simp [Parser.sees, Bind.bind, hk], hc, rfl⟩

/-- The look for another kind does not. -/
theorem sees_no (hk : t.kind ≠ kind) :
    (Parser.sees kind >>= fun b => if b = true then yes else no).Becomes (t :: ts) no (t :: ts) :=
  fun c hc => by
    obtain ⟨rfl, -⟩ := List.cons.inj hc
    exact ⟨c, by simp [Parser.sees, Bind.bind, hk], hc, rfl⟩

/-- A word that may come and does is taken. -/
theorem accept_yes (hk : t.kind = kind) (hend : kind ≠ .endOfSource) (hts : ts ≠ []) :
    (Parser.accept kind >>= fun b => if b = true then yes else no).Becomes (t :: ts) yes ts :=
  fun c hc => by
    obtain ⟨rfl, htokens⟩ := Cursor.tokens_behind hc (hk ▸ hend) hts
    refine ⟨c.advance, ?_, htokens, by simp⟩
    simp [Parser.accept, Parser.sees, Parser.next, Bind.bind, Pure.pure, hk]

/-- One that does not come is not. -/
theorem accept_no (hk : t.kind ≠ kind) :
    (Parser.accept kind >>= fun b => if b = true then yes else no).Becomes (t :: ts) no (t :: ts) :=
  fun c hc => by
    obtain ⟨rfl, -⟩ := List.cons.inj hc
    exact ⟨c, by simp [Parser.accept, Parser.sees, Bind.bind, Pure.pure, hk], hc, rfl⟩

/-- A word that has to come and does is taken. -/
theorem expect {f : Token → Parser β} {what : Wanted} (hk : t.kind = kind)
    (hend : kind ≠ .endOfSource) (hts : ts ≠ []) :
    (Parser.expect kind what >>= f).Becomes (t :: ts) (f t) ts := fun c hc => by
  obtain ⟨rfl, htokens⟩ := Cursor.tokens_behind hc (hk ▸ hend) hts
  refine ⟨c.advance, ?_, htokens, by simp⟩
  simp [Parser.expect, Parser.sees, Parser.next, Bind.bind, hk]

/-- A token of another kind than the wanted one is reported. -/
theorem expect_missing {f : Token → Parser β} {what : Wanted} (hk : t.kind ≠ kind) :
    (Parser.expect kind what >>= f).Becomes (t :: ts) (Parser.missing what) (t :: ts) :=
  fun c hc => by
    obtain ⟨rfl, -⟩ := List.cons.inj hc
    exact ⟨c, by simp [Parser.expect, Parser.sees, Bind.bind, Parser.missing, hk], hc, rfl⟩

end Parser.Becomes

/-- From some tokens on the parser ends before a rest of them, without a mistake, with a result that
something holds of. -/
def Parser.Accepts (p : Parser α) (tokens rest : List Token) (post : α → Prop) : Prop :=
  ∀ c : Cursor, c.tokens = tokens →
    ∃ a c', p c = .done a c' ∧ c'.tokens = rest ∧ c'.mistakes = c.mistakes ∧ post a

namespace Parser.Accepts

variable {p : Parser α} {f : α → Parser β} {post : β → Prop} {kind : TokenKind} {t : Token}
  {ts us rest : List Token}

/-- Nothing is read for a result at hand. -/
theorem pure {b : β} (h : post b) : Accepts (Pure.pure b) ts ts post :=
  fun c hc => ⟨b, c, rfl, hc, rfl, h⟩

/-- What is known of a result may be told in other words. -/
theorem mono {pre : β → Prop} {p : Parser β} (hp : p.Accepts ts rest pre)
    (h : ∀ b, pre b → post b) : p.Accepts ts rest post := by
  intro c hc
  obtain ⟨b, c', heq, htokens, hclean, hpre⟩ := hp c hc
  exact ⟨b, c', heq, htokens, hclean, h b hpre⟩

/-- One part reads up to where the other one starts. -/
theorem bind {pre : α → Prop} (hp : p.Accepts ts us pre)
    (hf : ∀ a, pre a → (f a).Accepts us rest post) : (p >>= f).Accepts ts rest post := by
  intro c hc
  obtain ⟨a, c', heq, htokens, hclean, hpre⟩ := hp c hc
  obtain ⟨b, c'', heq', htokens', hclean', hpost⟩ := hf a hpre c' htokens
  exact ⟨b, c'', (Parser.bind_of_done heq).trans heq', htokens', hclean'.trans hclean, hpost⟩

/-- The result may be changed on the way. -/
theorem map {pre : α → Prop} {g : α → β} (hp : p.Accepts ts rest pre)
    (h : ∀ a, pre a → post (g a)) : (g <$> p).Accepts ts rest post :=
  bind hp fun a hpre => pure (h a hpre)

/-- A parser that goes on as another one does, at a cursor before other tokens. -/
theorem step {p q : Parser β} (hq : q.Accepts us rest post) (h : p.Becomes ts q us) :
    p.Accepts ts rest post := by
  intro c hc
  obtain ⟨c', heq, htokens, hclean⟩ := h c hc
  obtain ⟨b, c'', heq', htokens', hclean', hpost⟩ := hq c' htokens
  exact ⟨b, c'', heq.trans heq', htokens', hclean'.trans hclean, hpost⟩

/-- A look at the next token reads nothing. -/
theorem peek {f : Token → Parser β} (h : (f t).Accepts (t :: ts) rest post) :
    (Parser.peek >>= f).Accepts (t :: ts) rest post := step h .peek

/-- Neither does counting what is left. -/
theorem remaining {f : Nat → Parser β} (h : (f ts.length).Accepts ts rest post) :
    (Parser.remaining >>= f).Accepts ts rest post := step h .remaining

/-- A new number reads nothing, whatever it is. -/
theorem freshNode {f : Nat → Parser β} (h : ∀ n, (f n).Accepts ts rest post) :
    (Parser.freshNode >>= f).Accepts ts rest post := fun c hc =>
  step (h c.count.node) (fun c' hc' => ⟨c', rfl, hc', rfl⟩) c.count hc

/-- The next token is read. -/
theorem next {f : Token → Parser β} (hk : t.kind ≠ .endOfSource) (hts : ts ≠ [])
    (h : (f t).Accepts ts rest post) : (Parser.next >>= f).Accepts (t :: ts) rest post :=
  step h (.next hk hts)

/-- A look for a kind of token finds it. -/
theorem sees_yes {yes no : Parser β} (hk : t.kind = kind) (h : yes.Accepts (t :: ts) rest post) :
    (Parser.sees kind >>= fun b => if b = true then yes else no).Accepts (t :: ts) rest post :=
  step h (.sees_yes hk)

/-- A look for another kind does not. -/
theorem sees_no {yes no : Parser β} (hk : t.kind ≠ kind) (h : no.Accepts (t :: ts) rest post) :
    (Parser.sees kind >>= fun b => if b = true then yes else no).Accepts (t :: ts) rest post :=
  step h (.sees_no hk)

/-- A word that may come and does is read. -/
theorem accept_yes {yes no : Parser β} (hk : t.kind = kind) (hend : kind ≠ .endOfSource)
    (hts : ts ≠ []) (h : yes.Accepts ts rest post) :
    (Parser.accept kind >>= fun b => if b = true then yes else no).Accepts (t :: ts) rest post :=
  step h (.accept_yes hk hend hts)

/-- One that does not come is not. -/
theorem accept_no {yes no : Parser β} (hk : t.kind ≠ kind) (h : no.Accepts (t :: ts) rest post) :
    (Parser.accept kind >>= fun b => if b = true then yes else no).Accepts (t :: ts) rest post :=
  step h (.accept_no hk)

/-- A word that has to come and does is read. -/
theorem expect {f : Token → Parser β} {what : Wanted} (hk : t.kind = kind)
    (hend : kind ≠ .endOfSource) (hts : ts ≠ []) (h : (f t).Accepts ts rest post) :
    (Parser.expect kind what >>= f).Accepts (t :: ts) rest post := step h (.expect hk hend hts)

end Parser.Accepts

end YouthLang

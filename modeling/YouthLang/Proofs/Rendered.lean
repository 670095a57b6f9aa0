import YouthLang.Proofs.Rendered.Forms
import YouthLang.Tree.Render

/-!
# Proofs/Rendered — written trees read back

A tree written out tells everything about it but the numbers of its nodes and the places of its tokens
(`Stmt.bare`).  By induction on the tree, what is written of an expression is one sheet, which reads as
that expression (`Expr.Lexed.means`), and so for statements.  Hence reading what was written of a parsed
program gives the program back (`readProgram_render`), and two parsed programs are written alike only
if they are alike (`renderProgram_faithful`).
-/

namespace YouthLang

/-! ## Trees without nodes and places -/

/-- A token without its place. -/
def Token.unplaced (t : Token) : Token := .spelling t.kind t.lexeme

@[simp] theorem Token.lexeme_unplaced (t : Token) : t.unplaced.lexeme = t.lexeme := rfl

theorem Token.IsLexeme.unplaced_eq {kind : TokenKind} {t : Token} (h : t.IsLexeme kind) :
    t.unplaced = .spelling kind t.lexeme := by
  rw [unplaced, h.1]

mutual

/-- An expression without the numbers of its nodes and the places of its tokens. -/
def Expr.bare : Expr → Expr
  | .literal v => .literal v
  | .variable _ t => .variable 0 t.unplaced
  | .me _ t => .me 0 t.unplaced
  | .group e => .group e.bare
  | .unary op t e => .unary op t.unplaced e.bare
  | .binary op t left right => .binary op t.unplaced left.bare right.bare
  | .logical op t left right => .logical op t.unplaced left.bare right.bare
  | .assign _ t e => .assign 0 t.unplaced e.bare
  | .get e t => .get e.bare t.unplaced
  | .set e t value => .set e.bare t.unplaced value.bare
  | .call e _ es => .call e.bare .paren (bareArguments es)

/-- The same for a list of expressions. -/
def bareArguments : List Expr → List Expr
  | [] => []
  | e :: rest => e.bare :: bareArguments rest

end

mutual

/-- A statement without the numbers of its nodes and the places of its tokens. -/
def Stmt.bare : Stmt → Stmt
  | .failed => .failed
  | .expression e => .expression e.bare
  | .tell e => .tell e.bare
  | .declare t e? => .declare t.unplaced (e?.map Expr.bare)
  | .give _ e? => .give .giving (e?.map Expr.bare)
  | .block body => .block (bareBody body)
  | .branch e yes none => .branch e.bare yes.bare none
  | .branch e yes (some no) => .branch e.bare yes.bare (some no.bare)
  | .loop e body => .loop e.bare body.bare
  | .function f => .function f.bare
  | .youth t methods => .youth t.unplaced (bareMethods methods)

/-- The same for a function. -/
def Function.bare : Function → Function
  | .mk t ps body => .mk t.unplaced (ps.map Token.unplaced) (bareBody body)

/-- The same for a list of statements. -/
def bareBody : List Stmt → List Stmt
  | [] => []
  | s :: rest => s.bare :: bareBody rest

/-- The same for a list of methods. -/
def bareMethods : List Function → List Function
  | [] => []
  | m :: rest => m.bare :: bareMethods rest

end

/-! ## Texts that are read as something -/

namespace Text

variable {α : Type} {read : Sheet → Option α} {t u gap : Text} {a : α} {as : List α}

/-- A text is one sheet, which reads as something. -/
def Means (read : Sheet → Option α) (t : Text) (a : α) : Prop := ∃ s, t.Shows s ∧ read s = some a

/-- A text is some sheets, each behind a blank, which read as some things. -/
def MeansAll (read : Sheet → Option α) (t : Text) (as : List α) : Prop :=
  ∃ ss, t.ShowsAll ss ∧ ss.map read = as.map some

theorem MeansAll.nil : MeansAll read [] [] := ⟨[], .nil, rfl⟩

theorem MeansAll.cons (hgap : gap.IsBlank) (h : Means read t a) (hu : MeansAll read u as) :
    MeansAll read (gap ++ (t ++ u)) (a :: as) := by
  obtain ⟨s, hs, hread⟩ := h
  obtain ⟨ss, hss, hreads⟩ := hu
  exact ⟨s :: ss, .cons hgap hs hss, by rw [List.map_cons, hread, hreads, List.map_cons]⟩

theorem MeansAll.one (hgap : gap.IsBlank) (h : Means read t a) : MeansAll read (gap ++ t) [a] := by
  have hcons := cons hgap h nil
  rwa [List.append_nil] at hcons

end Text

/-- The word of a form and sheets behind it, in parentheses. -/
theorem Form.shows (f : Form) (opening : Text) {t : Text} {ss : List Sheet}
    (hopening : opening = "(" ++ f.word ++ " ") (ht : Text.ShowsAll (" " ++ t) ss) :
    Text.Shows (opening ++ t ++ ")") (.list (.word f.word :: ss)) := by
  have hlist := Text.shows_list f.isWord_word ht
  rwa [← List.append_assoc, ← hopening] at hlist

/-! ## Expressions -/

open Text (isBlank_space)

/-- What is written of a literal that was read. -/
theorem Literal.means {kind : TokenKind} {t : Text} {v : Literal} (ht : t.IsLexeme kind)
    (hv : kind.literal? = some v) : v.render.Means Sheet.expr? (.literal v) := by
  have hmean : ∀ {kind' : TokenKind} {t' : Text}, t'.IsLexeme kind' → kind'.isSingle = true →
      Expr.ofKind? kind' t' = some (.literal v) → t'.Means Sheet.expr? (.literal v) :=
    fun h hsingle hread => ⟨.word _, (h.isWord hsingle).shows, by
      rw [Sheet.expr?, Expr.ofWord?_lexeme h hsingle, hread]⟩
  unfold TokenKind.literal? at hv
  split at hv
  · obtain rfl := Option.some.inj hv
    exact hmean (show Text.IsLexeme .impossibleKey "impossible" from ⟨_, _, rfl, by decide⟩) rfl rfl
  · obtain rfl := Option.some.inj hv
    exact hmean (show Text.IsLexeme .surelyKey "surely" from ⟨_, _, rfl, by decide⟩) rfl rfl
  · obtain rfl := Option.some.inj hv
    exact hmean (show Text.IsLexeme .emptinessKey "emptiness" from ⟨_, _, rfl, by decide⟩) rfl rfl
  · next x =>
    obtain rfl := Option.some.inj hv
    obtain ⟨hfinite, hsign⟩ := ht.finite
    have hplain := Number.isLexeme_plain_absolute hfinite
    rw [Number.absolute_of_not_isNegative hsign] at hplain
    exact hmean hplain rfl rfl
  · next t =>
    obtain rfl := Option.some.inj hv
    exact ⟨.word _, (Text.isWord_quoted t).shows, Expr.ofWord?_quoted t⟩
  · exact absurd hv (by simp)

theorem renderArguments_means {es : List Expr}
    (h : ∀ e ∈ es, e.render.Means Sheet.expr? e.bare) :
    (renderArguments es).MeansAll Sheet.expr? (bareArguments es) := by
  induction es with
  | nil => exact .nil
  | cons e es ih =>
    obtain ⟨he, hes⟩ := List.forall_mem_cons.mp h
    rw [renderArguments, List.append_assoc]
    exact .cons isBlank_space he (ih hes)

/-- An operator in front of its operands, in parentheses. -/
theorem operator_means {kind : TokenKind} {t : Token} {operands : Text} {es : List Expr} {e : Expr}
    (ht : t.IsLexeme kind) (hkind : kind.isOperator = true)
    (hes : Text.MeansAll Sheet.expr? (" " ++ operands) es)
    (hread : Expr.ofOperator? kind t.lexeme (es.map some) = some e) :
    Text.Means Sheet.expr? ("(" ++ t.lexeme ++ " " ++ operands ++ ")") e := by
  obtain ⟨ss, hss, hreads⟩ := hes
  have hsingle : kind.isSingle = true := by
    cases kind <;> first | rfl | exact absurd hkind Bool.false_ne_true
  have hlist := Text.shows_list (ht.2.isWord hsingle) hss
  rw [← List.append_assoc] at hlist
  exact ⟨_, hlist, by rw [expr?_operator ht.2 hkind, hreads, hread]⟩

/-- **What is written of an expression reads as that expression.** -/
theorem Expr.Lexed.means {e : Expr} (h : e.Lexed) : e.render.Means Sheet.expr? e.bare := by
  induction h with
  | literal ht hv => exact Literal.means ht hv
  | @mention n t ht =>
    refine ⟨.word t.lexeme, (ht.2.isWord rfl).shows, ?_⟩
    rw [Sheet.expr?, Expr.ofWord?_lexeme ht.2 rfl, Expr.bare, ht.unplaced_eq]
    rfl
  -- The receiver is written by its keyword, which is the only lexeme of its kind.
  | @me n t ht =>
    have hreceiver := ht.2.eq_receiver
    refine ⟨.word receiver, ?_, ?_⟩
    · rw [Expr.render, ← hreceiver]
      exact (ht.2.isWord rfl).shows
    · rw [← hreceiver, Sheet.expr?, Expr.ofWord?_lexeme ht.2 rfl, Expr.bare, ht.unplaced_eq]
      rfl
  | @group e he ih =>
    obtain ⟨s, hs, hread⟩ := ih
    refine ⟨_, Form.shows .group "(group " (by decide) (.one isBlank_space hs), ?_⟩
    rw [expr?_form, List.map_singleton, hread]
    rfl
  | @unary op t e ht he ih =>
    rw [Expr.bare, ht.unplaced_eq]
    exact operator_means ht (by cases op <;> rfl) (.one isBlank_space ih) (ofOperator?_unary op)
  | @binary op t left right ht hleft hright ihleft ihright =>
    have hmeans := operator_means ht (by cases op <;> rfl)
      (.cons isBlank_space ihleft (.one isBlank_space ihright)) (ofOperator?_binary op)
    rw [Expr.bare, ht.unplaced_eq]
    simpa only [Expr.render, List.append_assoc] using hmeans
  | @logical op t left right ht hleft hright ihleft ihright =>
    have hmeans := operator_means ht (by cases op <;> rfl)
      (.cons isBlank_space ihleft (.one isBlank_space ihright)) (ofOperator?_logical op)
    rw [Expr.bare, ht.unplaced_eq]
    simpa only [Expr.render, List.append_assoc] using hmeans
  | @assign n t e ht he ih =>
    obtain ⟨s, hs, hread⟩ := ih
    have hlist := Form.shows .assign "(= " (by decide)
      (.cons isBlank_space (ht.2.isWord rfl).shows (.one isBlank_space hs))
    refine ⟨_, by simpa only [Expr.render, List.append_assoc] using hlist, ?_⟩
    rw [expr?_form, List.map_cons, List.map_singleton, hread, Expr.bare, ht.unplaced_eq]
    rfl
  | @get e t he ht ih =>
    obtain ⟨s, hs, hread⟩ := ih
    have hlist := Form.shows .get "(. " (by decide)
      (.cons isBlank_space (ht.2.isWord rfl).shows (.one isBlank_space hs))
    refine ⟨_, by simpa only [Expr.render, List.append_assoc] using hlist, ?_⟩
    rw [expr?_form, List.map_cons, List.map_singleton, hread, Expr.bare, ht.unplaced_eq]
    rfl
  -- A field written is a list in an assignment's list: `(= . name object value)`.
  | @set e t value he ht hvalue ihe ihvalue =>
    obtain ⟨s, hs, hread⟩ := ihe
    obtain ⟨s', hs', hread'⟩ := ihvalue
    have hlist := Form.shows .assign "(= " (by decide)
      (.cons isBlank_space Form.get.isWord_word.shows
        (.cons isBlank_space (ht.2.isWord rfl).shows
          (.cons isBlank_space hs (.one isBlank_space hs'))))
    have hopening : ("(= . " : Text) = "(= " ++ (Form.get.word ++ " ") := by decide
    refine ⟨_, by simpa only [Expr.render, hopening, List.append_assoc] using hlist, ?_⟩
    simp only [expr?_form, List.map_cons, List.map_nil, hread, hread', Expr.bare, ht.unplaced_eq]
    rfl
  | @call e t es he hes ihe ihes =>
    obtain ⟨s, hs, hread⟩ := ihe
    obtain ⟨ss, hss, hreads⟩ := renderArguments_means ihes
    have hlist := Form.shows .call "(call " (by decide) (.cons isBlank_space hs hss)
    refine ⟨_, by simpa only [Expr.render, List.append_assoc] using hlist, ?_⟩
    rw [expr?_form, List.map_cons, hread, hreads, Expr.bare, Expr.ofForm?, reduceOption_map_some]

/-! ## Statements -/

theorem isBlank_indented (depth : Nat) : (indented depth).IsBlank := by
  refine ⟨List.cons_ne_nil _ _, List.forall_mem_cons.mpr ⟨by decide, fun b hb => ?_⟩⟩
  rw [List.eq_of_mem_replicate hb]
  decide

theorem Text.join_cons (separator t : Text) (ts : List Text) :
    Text.join separator (t :: ts) = t ++ ts.flatMap fun u => separator ++ u := by
  induction ts generalizing t with
  | nil => rw [join, List.flatMap_nil, List.append_nil]
  | cons u ts ih => rw [join, ih u, List.flatMap_cons, List.append_assoc, List.append_assoc]

/-- Words with spaces between them, in parentheses. -/
theorem Text.shows_join {ts : List Text} (h : ∀ t ∈ ts, t.IsWord) :
    Shows ("(" ++ Text.join " " ts ++ ")") (.list (ts.map .word)) := by
  cases ts with
  | nil => exact fun r _ => rfl
  | cons t ts =>
    obtain ⟨ht, hts⟩ := List.forall_mem_cons.mp h
    have hrest : ∀ {us : List Text}, (∀ u ∈ us, u.IsWord) →
        ShowsAll (us.flatMap fun u => " " ++ u) (us.map .word) := by
      intro us hus
      induction us with
      | nil => exact .nil
      | cons u us ih =>
        obtain ⟨hu, hus⟩ := List.forall_mem_cons.mp hus
        rw [List.flatMap_cons, List.append_assoc, List.map_cons]
        exact .cons isBlank_space hu.shows (ih hus)
    rw [Text.join_cons, ← List.append_assoc]
    exact shows_list ht (hrest hts)

section Lines

variable {depth : Nat}

theorem renderLines_means {body : List Stmt}
    (h : ∀ s ∈ body, (s.render depth).Means Sheet.stmt? s.bare) :
    (renderLines depth body).MeansAll Sheet.stmt? (bareBody body) := by
  induction body with
  | nil => exact .nil
  | cons s body ih =>
    obtain ⟨hs, hbody⟩ := List.forall_mem_cons.mp h
    rw [renderLines, List.append_assoc]
    exact .cons (isBlank_indented depth) hs (ih hbody)

theorem renderMethods_means {methods : List Function}
    (h : ∀ m ∈ methods, (m.render depth).Means Sheet.stmt? (.function m.bare)) :
    (renderMethods depth methods).MeansAll Sheet.stmt? ((bareMethods methods).map .function) := by
  induction methods with
  | nil => exact .nil
  | cons m methods ih =>
    obtain ⟨hm, hmethods⟩ := List.forall_mem_cons.mp h
    rw [renderMethods, List.append_assoc]
    exact .cons (isBlank_indented depth) hm (ih hmethods)

end Lines

/-- A form with an expression, in parentheses. -/
theorem Form.means_of_expr (f : Form) (opening : Text) {e : Expr} {stmt : Stmt}
    (hopening : opening = "(" ++ f.word ++ " ") (he : e.Lexed)
    (hread : ∀ s : Sheet, s.expr? = some e.bare → Stmt.ofForm? f [s] [s.stmt?] = some stmt) :
    Text.Means Sheet.stmt? (opening ++ e.render ++ ")") stmt := by
  obtain ⟨s, hs, hexpr⟩ := he.means
  refine ⟨_, f.shows opening hopening (.one isBlank_space hs), ?_⟩
  rw [stmt?_form, List.map_singleton, hread s hexpr]

/-- A form with nothing behind its word. -/
theorem Form.shows_alone (f : Form) : Text.Shows ("(" ++ f.word ++ ")") (.list [.word f.word]) := by
  have hlist := Text.shows_list f.isWord_word .nil
  rwa [List.append_nil] at hlist

mutual

/-- **What is written of a statement reads as that statement**, at any depth. -/
theorem Stmt.Lexed.means : ∀ {s : Stmt}, s.Lexed → ∀ depth : Nat,
    (s.render depth).Means Sheet.stmt? s.bare
  | _, .failed, _ => ⟨_, Form.shows_alone .failed, by rw [stmt?_form]; rfl⟩
  | _, .expression he, _ => Form.means_of_expr .expression "(; " (by decide) he fun s hs => by
      rw [Stmt.ofForm?, hs]
      rfl
  | _, .tell he, _ => Form.means_of_expr .tell "(tell " (by decide) he fun s hs => by
      rw [Stmt.ofForm?, hs]
      rfl
  -- A declaration without a value is a list of two.
  | .declare t none, .declare ht _, _ => by
      have hlist := Form.shows .declare "(is " (by decide)
        (.one isBlank_space (ht.2.isWord rfl).shows)
      refine ⟨_, hlist, ?_⟩
      rw [stmt?_form, Stmt.bare, ht.unplaced_eq]
      rfl
  | .declare t (some e), .declare ht he, _ => by
      obtain ⟨s, hs, hread⟩ := (he e rfl).means
      have hlist := Form.shows .declare "(is " (by decide)
        (.cons isBlank_space (ht.2.isWord rfl).shows (.one isBlank_space hs))
      refine ⟨_, by simpa only [Stmt.render, List.append_assoc] using hlist, ?_⟩
      rw [stmt?_form, Stmt.ofForm?, hread, Stmt.bare, ht.unplaced_eq]
      rfl
  | .give t none, .give _, _ => ⟨_, Form.shows_alone .give, by rw [stmt?_form]; rfl⟩
  | .give t (some e), .give he, _ =>
      Form.means_of_expr .give "(give " (by decide) (he e rfl) fun s hs => by
        rw [Stmt.ofForm?, hs]
        rfl
  -- What stands in a block is written one level deeper, line by line.
  | .block body, .block hbody, depth => by
      obtain ⟨ss, hss, hreads⟩ := renderLines_means fun s hs => (hbody s hs).means (depth + 1)
      have hlist := Text.shows_list Form.block.isWord_word hss
      have hopening : ("(block" : Text) = "(" ++ Form.block.word := by decide
      refine ⟨_, by rwa [Stmt.render, hopening], ?_⟩
      rw [stmt?_form, hreads, Stmt.ofForm?, reduceOption_map_some, Stmt.bare]
  -- A branch is told from one with an alternative by its length.
  | .branch e yes none, .branch he hyes _, depth => by
      obtain ⟨s, hs, hread⟩ := he.means
      obtain ⟨s', hs', hread'⟩ := hyes.means (depth + 1)
      have hlist := Form.shows .branch "(if " (by decide)
        (.cons isBlank_space hs (.one (isBlank_indented (depth + 1)) hs'))
      refine ⟨_, by simpa only [Stmt.render, List.append_assoc] using hlist, ?_⟩
      rw [stmt?_form, List.map_cons, List.map_singleton, hread', Stmt.ofForm?, hread, Stmt.bare]
      rfl
  | .branch e yes (some no), .branch he hyes hno, depth => by
      obtain ⟨s, hs, hread⟩ := he.means
      obtain ⟨s', hs', hread'⟩ := hyes.means (depth + 1)
      obtain ⟨s'', hs'', hread''⟩ := (hno no rfl).means (depth + 1)
      have hlist := Form.shows .branch "(if " (by decide)
        (.cons isBlank_space hs (.cons (isBlank_indented (depth + 1)) hs'
          (.one (isBlank_indented (depth + 1)) hs'')))
      refine ⟨_, by simpa only [Stmt.render, List.append_assoc] using hlist, ?_⟩
      rw [stmt?_form, List.map_cons, List.map_cons, List.map_singleton, hread', hread'',
        Stmt.ofForm?, hread, Stmt.bare]
      rfl
  | .loop e body, .loop he hbody, depth => by
      obtain ⟨s, hs, hread⟩ := he.means
      obtain ⟨s', hs', hread'⟩ := hbody.means (depth + 1)
      have hlist := Form.shows .loop "(while " (by decide)
        (.cons isBlank_space hs (.one (isBlank_indented (depth + 1)) hs'))
      refine ⟨_, by simpa only [Stmt.render, List.append_assoc] using hlist, ?_⟩
      rw [stmt?_form, List.map_cons, List.map_singleton, hread', Stmt.ofForm?, hread, Stmt.bare]
      rfl
  | .function _, .function hf, depth => hf.means depth
  | .youth t methods, .youth ht hms, depth => by
      obtain ⟨ss, hss, hreads⟩ := renderMethods_means fun m hm => (hms m hm).means (depth + 1)
      have hlist := Form.shows .youth "(youth " (by decide)
        (.cons isBlank_space (ht.2.isWord rfl).shows hss)
      refine ⟨_, by simpa only [Stmt.render, List.append_assoc] using hlist, ?_⟩
      rw [stmt?_form, List.map_cons, hreads, Stmt.ofForm?, reduceOption_map_some,
        filterMap_function?, Stmt.bare, ht.unplaced_eq]

/-- **What is written of a function reads as that function**, at any depth. -/
theorem Function.Lexed.means : ∀ {f : Function}, f.Lexed → ∀ depth : Nat,
    (f.render depth).Means Sheet.stmt? (.function f.bare)
  | .mk t ps body, .mk ht hps hbody, depth => by
      obtain ⟨ss, hss, hreads⟩ := renderLines_means fun s hs => (hbody s hs).means (depth + 1)
      have hwords : ∀ u ∈ ps.map Token.lexeme, u.IsWord := fun u hu => by
        obtain ⟨p, hp, rfl⟩ := List.mem_map.mp hu
        exact (hps p hp).2.isWord rfl
      have hlist := Form.shows .function "(listen " (by decide)
        (.cons isBlank_space (ht.2.isWord rfl).shows
          (.cons isBlank_space (Text.shows_join hwords) hss))
      have hopening : (" (" : Text) = " " ++ "(" := by decide
      refine ⟨_, by simpa only [Function.render, hopening, List.append_assoc] using hlist, ?_⟩
      have hps' : ps.map Token.unplaced = (ps.map Token.lexeme).map (.spelling .identifier) := by
        rw [List.map_map]
        exact List.map_congr_left fun p hp => (hps p hp).unplaced_eq
      rw [stmt?_form, List.map_cons, List.map_cons, hreads, Stmt.ofForm?, reduceOption_map_some,
        wordsIn_map_word, Function.bare, ht.unplaced_eq, hps']

end

/-! ## Programs -/

/-- What is written of a program made of lexemes is sheets, which read as its statements. -/
theorem renderProgram_means {p : List Stmt} (h : ∀ s ∈ p, s.Lexed) :
    ∃ ss : List Sheet, Text.signs (renderProgram p) = itemSigns ss
      ∧ ss.map Sheet.stmt? = (p.map Stmt.bare).map some := by
  induction p with
  | nil => exact ⟨[], rfl, rfl⟩
  | cons s p ih =>
    obtain ⟨hs, hp⟩ := List.forall_mem_cons.mp h
    obtain ⟨ss, hss, hreads⟩ := ih hp
    obtain ⟨sheet, hsheet, hread⟩ := hs.means 0
    refine ⟨sheet :: ss, ?_, by rw [List.map_cons, hread, hreads, List.map_cons, List.map_cons]⟩
    -- a line end closes the statement in front of it, and is no sign itself
    have hclose : Text.Closes (Text.newline :: renderProgram p) := fun b hb => by
      obtain rfl := Option.some.inj hb
      decide
    have hline : renderProgram (s :: p) = s.render 0 ++ (Text.newline :: renderProgram p) := by
      simp [renderProgram, Text.line]
    rw [hline, hsheet _ hclose, itemSigns, ← hss]
    rfl

/-- **What is written of a program made of lexemes reads as that program.** -/
theorem readProgram_render {p : List Stmt} (h : ∀ s ∈ p, s.Lexed) :
    readProgram (renderProgram p) = p.map Stmt.bare := by
  obtain ⟨ss, hss, hreads⟩ := renderProgram_means h
  rw [readProgram, hss, sheetsOf_signs, hreads, reduceOption_map_some]

mutual

theorem Expr.render_bare : ∀ e : Expr, e.bare.render = e.render
  | .literal _ | .variable _ _ | .me _ _ => rfl
  | .group e | .assign _ _ e | .unary _ _ e | .get e _ => by
      simp only [Expr.bare, Expr.render, Token.lexeme_unplaced, e.render_bare]
  | .binary _ _ left right | .logical _ _ left right | .set left _ right => by
      simp only [Expr.bare, Expr.render, Token.lexeme_unplaced, left.render_bare,
        right.render_bare]
  | .call e _ es => by
      rw [Expr.bare, Expr.render, Expr.render, e.render_bare, renderArguments_bare es]

theorem renderArguments_bare : ∀ es : List Expr,
    renderArguments (bareArguments es) = renderArguments es
  | [] => rfl
  | e :: es => by
      rw [bareArguments, renderArguments, renderArguments, e.render_bare, renderArguments_bare es]

end

mutual

theorem Stmt.render_bare (depth : Nat) : ∀ s : Stmt, s.bare.render depth = s.render depth
  | .failed | .declare _ none | .give _ none => rfl
  | .expression e | .tell e | .declare _ (some e) | .give _ (some e) => by
      simp only [Stmt.bare, Stmt.render, Option.map_some, Token.lexeme_unplaced, e.render_bare]
  | .block body => by
      rw [Stmt.bare, Stmt.render, Stmt.render, renderLines_bare (depth + 1) body]
  | .branch e body none | .loop e body => by
      simp only [Stmt.bare, Stmt.render, e.render_bare, body.render_bare (depth + 1)]
  | .branch e yes (some no) => by
      simp only [Stmt.bare, Stmt.render, e.render_bare, yes.render_bare (depth + 1),
        no.render_bare (depth + 1)]
  | .function f => f.render_bare depth
  | .youth t methods => by
      rw [Stmt.bare, Stmt.render, Stmt.render, renderMethods_bare (depth + 1) methods,
        Token.lexeme_unplaced]

theorem Function.render_bare (depth : Nat) : ∀ f : Function, f.bare.render depth = f.render depth
  | .mk t ps body => by
      rw [Function.bare, Function.render, Function.render, renderLines_bare (depth + 1) body,
        List.map_map]
      rfl

theorem renderLines_bare (depth : Nat) : ∀ body : List Stmt,
    renderLines depth (bareBody body) = renderLines depth body
  | [] => rfl
  | s :: body => by
      rw [bareBody, renderLines, renderLines, s.render_bare depth, renderLines_bare depth body]

theorem renderMethods_bare (depth : Nat) : ∀ methods : List Function,
    renderMethods depth (bareMethods methods) = renderMethods depth methods
  | [] => rfl
  | m :: methods => by
      rw [bareMethods, renderMethods, renderMethods, m.render_bare depth,
        renderMethods_bare depth methods]

end

/-- Nothing that `Stmt.bare` leaves out is written. -/
theorem renderProgram_bare (p : List Stmt) : renderProgram (p.map Stmt.bare) = renderProgram p := by
  rw [renderProgram, List.flatMap_map]
  exact List.flatMap_congr fun s _ => by rw [s.render_bare 0]

/-- **Writing trees is faithful**: what is written of statements is what is written of each, one behind
another, and two parsed programs, whatever mistakes are in their sources, are written alike only if
they are the same but for nodes and places. -/
theorem renderProgram_faithful :
    (∀ p q, renderProgram (p ++ q) = renderProgram p ++ renderProgram q)
      ∧ ∀ (node node' : Nat) (source source' : Text),
        renderProgram (parse node (scan source).tokens).statements
            = renderProgram (parse node' (scan source').tokens).statements
          ↔ (parse node (scan source).tokens).statements.map Stmt.bare
            = (parse node' (scan source').tokens).statements.map Stmt.bare := by
  refine ⟨renderProgram_append, fun node node' source source' => ⟨fun h => ?_, fun h => ?_⟩⟩
  · rw [← readProgram_render (parse_lexed node source), h,
      readProgram_render (parse_lexed node' source')]
  · rw [← renderProgram_bare, h, renderProgram_bare]

end YouthLang

import YouthLang.Proofs.Grammar.Sound
import YouthLang.Proofs.Grammar.Complete

/-!
# Proofs/Grammar/Exact — the parser accepts the grammar

What the parser accepts is a program of the strict grammar (`sound_programFrom`) and the other way round
(`complete_programFrom`).  The plain grammar has the same programs: a second part that the plain rules
give to a branch further out can be given to the nearest one (`Statement.attach`), so a run of tokens
that has a tree has a strict one.
-/

namespace YouthLang.Grammar

/-! ## The second part of a branch -/

/-- A second part goes to the nearest branch that can take it. -/
theorem Statement.attach {us : List Token} {no : Stmt} {last? : Bool} {word : Token}
    (hword : word.kind = .elseKey) (hno : Statement true last? us no) {open? : Bool}
    {ts : List Token} {s : Stmt} (h : Statement true open? ts s) (ho : open? = true) :
    ∃ open? s', Statement true open? (ts ++ word :: us) s' := by
  match h with
  | .counting hfor hleft hi hc hend hn hright h =>
    obtain ⟨open?', s', h'⟩ := Statement.attach hword hno h ho
    exact ⟨open?', _, by simpa using .counting hfor hleft hi hc hend hn hright h'⟩
  | @Statement.branch _ _ _ _ _ _ open? _ _ hif hleft hc hright h =>
    cases ho : open? with
    | false =>
      exact ⟨_, _, by simpa using .branches hif hleft hc hright h (fun _ => ho) hword hno⟩
    | true =>
      obtain ⟨open?', s', h'⟩ := Statement.attach hword hno h ho
      exact ⟨true, _, by simpa using .branch hif hleft hc hright h'⟩
  | .branches hif hleft hc hright hyes hnearest hword' h =>
    obtain ⟨open?', s', h'⟩ := Statement.attach hword hno h ho
    exact ⟨open?', _, by simpa using .branches hif hleft hc hright hyes hnearest hword' h'⟩
  | .loop hwhile hleft hc hright h =>
    obtain ⟨open?', s', h'⟩ := Statement.attach hword hno h ho
    exact ⟨open?', _, by simpa using .loop hwhile hleft hc hright h'⟩
  | .tell _ _ _ | .give _ _ _ | .block _ _ _ | .expression _ _ _ => exact absurd ho (by decide)

mutual

theorem Declaration.nearest {ts : List Token} {s : Stmt} :
    Declaration false ts s → ∃ s', Declaration true ts s'
  | .youth hword hname hleft h hright => by
      obtain ⟨methods, h'⟩ := nearest_methods h
      exact ⟨_, .youth hword hname hleft h' hright⟩
  | .function hword h => by
      obtain ⟨f, h'⟩ := h.nearest
      exact ⟨_, .function hword h'⟩
  | .variable hword h => ⟨_, .variable hword h⟩
  | .statement h => by
      obtain ⟨_, s', h'⟩ := h.nearest
      exact ⟨s', .statement h'⟩

theorem Callable.nearest {ts : List Token} {f : Function} :
    Callable false ts f → ∃ f', Callable true ts f'
  | .mk hname hleft hparameters hright hleft' h hright' => by
      obtain ⟨body, h'⟩ := nearest_body h
      exact ⟨_, .mk hname hleft hparameters hright hleft' h' hright'⟩

theorem Method.nearest {ts : List Token} {f : Function} :
    Method false ts f → ∃ f', Method true ts f'
  | .mk hword h => by
      obtain ⟨f, h'⟩ := h.nearest
      exact ⟨f, .mk hword h'⟩

theorem Statement.nearest {open? : Bool} {ts : List Token} {s : Stmt} :
    Statement false open? ts s → ∃ open? s', Statement true open? ts s'
  | .counting hfor hleft hi hc hend hn hright h => by
      obtain ⟨open?', s', h'⟩ := h.nearest
      exact ⟨open?', _, .counting hfor hleft hi hc hend hn hright h'⟩
  | .branch hif hleft hc hright h => by
      obtain ⟨open?', s', h'⟩ := h.nearest
      exact ⟨true, _, .branch hif hleft hc hright h'⟩
  | .branches hif hleft hc hright hyes _ hword hno => by
      obtain ⟨open?, yes, hyes'⟩ := hyes.nearest
      obtain ⟨open?', no, hno'⟩ := hno.nearest
      cases ho : open? with
      | false => exact ⟨_, _, .branches hif hleft hc hright hyes' (fun _ => ho) hword hno'⟩
      | true =>
        obtain ⟨_, s', h'⟩ := Statement.attach hword hno' hyes' ho
        exact ⟨true, _, .branch hif hleft hc hright h'⟩
  | .loop hwhile hleft hc hright h => by
      obtain ⟨open?', s', h'⟩ := h.nearest
      exact ⟨open?', _, .loop hwhile hleft hc hright h'⟩
  | .tell hword h hend => ⟨_, _, .tell hword h hend⟩
  | .give hword h hend => ⟨_, _, .give hword h hend⟩
  | .block hleft h hright => by
      obtain ⟨body, h'⟩ := nearest_body h
      exact ⟨_, _, .block hleft h' hright⟩
  | .expression hfirst h hend => ⟨_, _, .expression hfirst h hend⟩

theorem nearest_body {ts : List Token} {body : List Stmt} :
    Repeated (Declaration false) ts body → ∃ body', Repeated (Declaration true) ts body'
  | .nil => ⟨[], .nil⟩
  | .cons h hrest => by
      obtain ⟨s, h'⟩ := h.nearest
      obtain ⟨body, hrest'⟩ := nearest_body hrest
      exact ⟨_, .cons h' hrest'⟩

theorem nearest_methods {ts : List Token} {methods : List Function} :
    Repeated (Method false) ts methods → ∃ methods', Repeated (Method true) ts methods'
  | .nil => ⟨[], .nil⟩
  | .cons h hrest => by
      obtain ⟨f, h'⟩ := h.nearest
      obtain ⟨methods, hrest'⟩ := nearest_methods hrest
      exact ⟨_, .cons h' hrest'⟩

end

/-! ## The strict grammar inside of the plain one -/

mutual

theorem Declaration.plain {ts : List Token} {s : Stmt} :
    Declaration true ts s → Declaration false ts s
  | .youth hword hname hleft h hright => .youth hword hname hleft (plain_methods h) hright
  | .function hword h => .function hword h.plain
  | .variable hword h => .variable hword h
  | .statement h => .statement h.plain

theorem Callable.plain {ts : List Token} {f : Function} : Callable true ts f → Callable false ts f
  | .mk hname hleft hparameters hright hleft' h hright' =>
      .mk hname hleft hparameters hright hleft' (plain_body h) hright'

theorem Method.plain {ts : List Token} {f : Function} : Method true ts f → Method false ts f
  | .mk hword h => .mk hword h.plain

theorem Statement.plain {open? : Bool} {ts : List Token} {s : Stmt} :
    Statement true open? ts s → Statement false open? ts s
  | .counting hfor hleft hi hc hend hn hright h =>
      .counting hfor hleft hi hc hend hn hright h.plain
  | .branch hif hleft hc hright h => .branch hif hleft hc hright h.plain
  | .branches hif hleft hc hright hyes _ hword hno =>
      .branches hif hleft hc hright hyes.plain (by simp) hword hno.plain
  | .loop hwhile hleft hc hright h => .loop hwhile hleft hc hright h.plain
  | .tell hword h hend => .tell hword h hend
  | .give hword h hend => .give hword h hend
  | .block hleft h hright => .block hleft (plain_body h) hright
  | .expression hfirst h hend => .expression hfirst h hend

theorem plain_body {ts : List Token} {body : List Stmt} :
    Repeated (Declaration true) ts body → Repeated (Declaration false) ts body
  | .nil => .nil
  | .cons h hrest => .cons h.plain (plain_body hrest)

theorem plain_methods {ts : List Token} {methods : List Function} :
    Repeated (Method true) ts methods → Repeated (Method false) ts methods
  | .nil => .nil
  | .cons h hrest => .cons h.plain (plain_methods hrest)

end

/-! ## The parser -/

section Parsing

variable {node : Nat} {body : List Token} {last : Token}

/-- Tokens with one end are cut at it in one way. -/
theorem eq_of_append_end {read us : List Token} {t : Token}
    (hbody : ∀ t ∈ body, t.kind ≠ .endOfSource) (ht : t.kind = .endOfSource)
    (h : body ++ [last] = read ++ t :: us) : read = body := by
  obtain ⟨rest, hread, hrest⟩ | ⟨rest, hbody', hrest⟩ := List.append_eq_append_iff.mp h
  · cases rest with
    | nil => simpa using hread
    | cons u rest => simp at hrest
  · cases rest with
    | nil => simpa using hbody'.symm
    | cons u rest =>
      obtain rfl : t = u := (List.cons.inj hrest).1
      exact absurd ht (hbody t (by simp [hbody']))

/-- The cursor before the first token of a program. -/
def start (node : Nat) (body : List Token) (last : Token) : Cursor :=
  .start node (body.headD last) (body ++ [last]).tail

theorem tokens_start : (start node body last).tokens = body ++ [last] := by
  cases body <;> rfl

theorem parse_eq_programFrom : parse node (body ++ [last])
    = ⟨(programFrom (start node body last).size [] (start node body last)).1,
      (programFrom (start node body last).size [] (start node body last)).2.node,
      (programFrom (start node body last).size [] (start node body last)).2.mistakes.reverse⟩ := by
  cases body <;> rfl

/-- What is parsed without a mistake is a program. -/
theorem program_of_parse (hlast : last.kind = .endOfSource)
    (hbody : ∀ t ∈ body, t.kind ≠ .endOfSource)
    (hclean : (parse node (body ++ [last])).diagnostics = []) :
    Program true body (parse node (body ++ [last])).statements := by
  rw [parse_eq_programFrom] at hclean ⊢
  have hs : (start node body last).Sealed fun _ => True :=
    ⟨⟨last, by rw [tokens_start]; simp, hlast⟩, by simp⟩
  obtain ⟨read, more, hr, hend, hmore, hprogram⟩ :=
    sound_programFrom _ [] hs (Nat.le_refl _) (List.reverse_eq_nil_iff.mp hclean)
  obtain rfl := eq_of_append_end hbody (by simpa [Cursor.atEnd] using hend)
    (tokens_start.symm.trans hr.tokens)
  simpa [hmore] using hprogram

/-- Two programs, one behind the other, are parsed without a mistake and into their trees.  The tokens
may be other ones of the same kinds. -/
theorem parse_joined {f g : Token → Token} (hf : ∀ t, (f t).kind = t.kind)
    (hg : ∀ t, (g t).kind = t.kind) (hlast : last.kind = .endOfSource) {ts us : List Token}
    {program program' : List Stmt} (h : Program true ts program) (h' : Program true us program') :
    (parse node (ts.map f ++ us.map g ++ [last])).diagnostics = []
      ∧ ∃ more more', (parse node (ts.map f ++ us.map g ++ [last])).statements = more ++ more'
        ∧ BodyAlike (Moved f) AnyNode program more ∧ BodyAlike (Moved g) AnyNode program' more' := by
  have hparts : Parts last := by simp [Parts, hlast]
  obtain ⟨t, rest, hrest, ht⟩ := h'.follow hg hparts []
  have hstart : (start node (ts.map f ++ us.map g) last).tokens = ts.map f ++ t :: rest := by
    rw [tokens_start, List.append_assoc, hrest]
  obtain ⟨n, more, c, heq, halike, htokens, hclean, hsize⟩ :=
    complete_programFrom hf ht h _ [] _ hstart (Nat.le_refl _)
  obtain ⟨n', more', c', heq', halike', htokens', hclean', -⟩ :=
    complete_programFrom hg hparts h' n (more.reverse ++ []) c (htokens.trans hrest.symm) hsize
  have hend : c'.atEnd = true := by simp [Cursor.atEnd, (List.cons.inj htokens').1, hlast]
  have hstop : programFrom n' (more'.reverse ++ (more.reverse ++ [])) c' = (more ++ more', c') := by
    cases n' <;> simp [programFrom, hend]
  rw [parse_eq_programFrom, heq, heq', hstop]
  exact ⟨by simp [hclean, hclean', start], more, more', rfl, halike, halike'⟩

/-- A program is parsed without a mistake, and into its tree. -/
theorem parse_of_program (hlast : last.kind = .endOfSource) {program : List Stmt}
    (h : Program true body program) : (parse node (body ++ [last])).diagnostics = []
      ∧ BodyAlike Eq AnyNode program (parse node (body ++ [last])).statements := by
  have hmoved : Moved id = Eq := by
    funext t t'
    exact propext eq_comm
  obtain ⟨hclean, more, more', heq, halike, halike'⟩ :=
    @parse_joined node last id id (fun _ => rfl) (fun _ => rfl) hlast body [] program [] h .nil
  cases halike' with
  | nil =>
    simp only [List.map_id, List.map_nil, List.append_nil] at hclean heq
    rw [heq, ← hmoved]
    exact ⟨hclean, halike⟩

/-- **The parser accepts the grammar and builds its trees.**  It reports nothing exactly for the
programs of the plain grammar.  The tree it builds is then a tree of the plain grammar, and it is the
only one that gives the second part of a branch to the nearest branch, up to the numbers of the
nodes. -/
theorem parse_exact (hlast : last.kind = .endOfSource)
    (hbody : ∀ t ∈ body, t.kind ≠ .endOfSource) :
    ((parse node (body ++ [last])).diagnostics = [] ↔ ∃ program, Program false body program)
    ∧ ((parse node (body ++ [last])).diagnostics = [] →
      Program false body (parse node (body ++ [last])).statements
      ∧ Program true body (parse node (body ++ [last])).statements
      ∧ ∀ program, Program true body program →
        BodyAlike Eq AnyNode program (parse node (body ++ [last])).statements) := by
  refine ⟨⟨fun hclean => ?_, ?_⟩, fun hclean => ?_⟩
  · exact ⟨_, plain_body (program_of_parse hlast hbody hclean)⟩
  · rintro ⟨program, h⟩
    obtain ⟨program', h'⟩ := nearest_body h
    exact (parse_of_program hlast h').1
  · have h := program_of_parse hlast hbody hclean
    exact ⟨plain_body h, h, fun program h' => (parse_of_program hlast h').2⟩

/-- The tokens of `if (surely) if (impossible) x; else y;`, without their end. -/
def nestedBranches : List Token :=
  [⟨.ifKey, "if", ⟨1, 1⟩⟩, ⟨.leftParen, "(", ⟨1, 4⟩⟩, ⟨.surelyKey, "surely", ⟨1, 5⟩⟩,
    ⟨.rightParen, ")", ⟨1, 11⟩⟩, ⟨.ifKey, "if", ⟨1, 13⟩⟩, ⟨.leftParen, "(", ⟨1, 16⟩⟩,
    ⟨.impossibleKey, "impossible", ⟨1, 17⟩⟩, ⟨.rightParen, ")", ⟨1, 27⟩⟩,
    ⟨.identifier, "x", ⟨1, 29⟩⟩, ⟨.semicolon, ";", ⟨1, 30⟩⟩, ⟨.elseKey, "else", ⟨1, 32⟩⟩,
    ⟨.identifier, "y", ⟨1, 37⟩⟩, ⟨.semicolon, ";", ⟨1, 38⟩⟩]

/-- The second part goes to the inner branch. -/
theorem parse_exact_nestedBranches : (∃ program, Program false nestedBranches program)
    ∧ Program true nestedBranches [.branch (.literal (.truth true))
      (.branch (.literal (.truth false))
        (.expression (.variable 1 ⟨.identifier, "x", ⟨1, 29⟩⟩))
        (some (.expression (.variable 2 ⟨.identifier, "y", ⟨1, 37⟩⟩)))) none] := by
  have h := @parse_exact 0 nestedBranches ⟨.endOfSource, [], ⟨1, 39⟩⟩ rfl (by decide)
  exact ⟨h.1.mp rfl, (h.2 rfl).2.1⟩

end Parsing

end YouthLang.Grammar

import YouthLang.Proofs.Reading
import YouthLang.Tree.References

/-!
# Proofs/Formed — what a parsed tree looks like

Whatever the tokens are, a parser numbers the nodes that use a name one after another, each once, and
writes each of them with a token of the right kind (`Numbered`); the names it declares are identifiers,
and behind a condition stands no declaration (`Stmt.Formed`).  `parse_formed` says so of a whole
program.
-/

namespace YouthLang

/-- The kind of token that a use of a name is written with. -/
def Use.kind : Use → TokenKind
  | .read | .write => .identifier
  | .receiver => .meKey

/-- A reference is written with a token of the right kind, one of those allowed. -/
def Reference.Formed (allowed : Token → Prop) (ref : Reference) : Prop :=
  ref.token.kind = ref.use.kind ∧ allowed ref.token

/-- A token that can be declared: an identifier, and one of those allowed. -/
def Token.IsName (allowed : Token → Prop) (t : Token) : Prop := t.kind = .identifier ∧ allowed t

/-- A statement that enters a name in the scope it stands in. -/
def Stmt.declares : Stmt → Bool
  | .declare _ _ | .function _ | .youth _ _ => true
  | _ => false

mutual

/-- Every declared name is an identifier, and no branch or loop body is a declaration. -/
def Stmt.Formed (allowed : Token → Prop) : Stmt → Prop
  | .failed => True
  | .expression _ => True
  | .tell _ => True
  | .declare name _ => name.IsName allowed
  | .give _ _ => True
  | .block body => BodyFormed allowed body
  | .branch _ yes none => yes.declares = false ∧ yes.Formed allowed
  | .branch _ yes (some no) =>
    yes.declares = false ∧ yes.Formed allowed ∧ no.declares = false ∧ no.Formed allowed
  | .loop _ body => body.declares = false ∧ body.Formed allowed
  | .function declaration => declaration.Formed allowed
  | .youth name methods => name.IsName allowed ∧ MethodsFormed allowed methods

/-- The same for a function. -/
def Function.Formed (allowed : Token → Prop) : Function → Prop
  | .mk name parameters body =>
    name.IsName allowed ∧ (∀ p ∈ parameters, p.IsName allowed) ∧ BodyFormed allowed body

/-- The same for a list of statements. -/
def BodyFormed (allowed : Token → Prop) : List Stmt → Prop
  | [] => True
  | s :: rest => s.Formed allowed ∧ BodyFormed allowed rest

/-- The same for a list of methods. -/
def MethodsFormed (allowed : Token → Prop) : List Function → Prop
  | [] => True
  | m :: rest => m.Formed allowed ∧ MethodsFormed allowed rest

end

/-! ## Numbered references

Numbers are drawn from one count as the tokens are read.  So the references of what is read later
have larger numbers, and no two have the same. -/

/-- References with nodes of their own, all behind one number and up to another, each written with a
token of the right kind. -/
structure Numbered (allowed : Token → Prop) (first last : Nat) (refs : List Reference) : Prop where
  le : first ≤ last
  within : ∀ ref ∈ refs, first < ref.node ∧ ref.node ≤ last
  distinct : (refs.map Reference.node).Nodup
  formed : ∀ ref ∈ refs, ref.Formed allowed

namespace Numbered

variable {allowed : Token → Prop} {first last next : Nat} {refs refs' : List Reference}

/-- Nothing is numbered between any two numbers. -/
theorem nil (hle : first ≤ last) : Numbered allowed first last [] :=
  ⟨hle, by simp, by simp, by simp⟩

/-- More room does no harm. -/
theorem widen (h : Numbered allowed first last refs) (hle : last ≤ next) :
    Numbered allowed first next refs where
  le := Nat.le_trans h.le hle
  within ref href := ⟨(h.within ref href).1, Nat.le_trans (h.within ref href).2 hle⟩
  distinct := h.distinct
  formed := h.formed

/-- References that were read one after the other. -/
theorem append (h : Numbered allowed first last refs) (h' : Numbered allowed last next refs') :
    Numbered allowed first next (refs ++ refs') where
  le := Nat.le_trans h.le h'.le
  within ref href := by
    rcases List.mem_append.mp href with href | href
    · exact ⟨(h.within ref href).1, Nat.le_trans (h.within ref href).2 h'.le⟩
    · exact ⟨Nat.lt_of_le_of_lt h.le (h'.within ref href).1, (h'.within ref href).2⟩
  distinct := by
    rw [List.map_append, List.nodup_append]
    refine ⟨h.distinct, h'.distinct, ?_⟩
    intro n hn m hm
    obtain ⟨ref, href, rfl⟩ := List.mem_map.mp hn
    obtain ⟨ref', href', rfl⟩ := List.mem_map.mp hm
    exact Nat.ne_of_lt (Nat.lt_of_le_of_lt (h.within ref href).2 (h'.within ref' href').1)
  formed ref href := by
    rcases List.mem_append.mp href with href | href
    · exact h.formed ref href
    · exact h'.formed ref href

/-- One reference is numbered up to its own number. -/
theorem singleton {ref : Reference} (hnode : first < ref.node) (hf : ref.Formed allowed) :
    Numbered allowed first ref.node [ref] where
  le := Nat.le_of_lt hnode
  within := by simp [hnode]
  distinct := by simp
  formed := by simpa using hf

/-- The order of the references does not matter. -/
theorem perm (h : Numbered allowed first last refs) (hp : refs'.Perm refs) :
    Numbered allowed first last refs' where
  le := h.le
  within ref href := h.within ref (hp.mem_iff.mp href)
  distinct := (hp.map Reference.node).nodup_iff.mpr h.distinct
  formed ref href := h.formed ref (hp.mem_iff.mp href)

/-- References that were read, some of them dropped since. -/
theorem sublist (h : Numbered allowed first last refs) (hs : refs'.Sublist refs) :
    Numbered allowed first last refs' where
  le := h.le
  within ref href := h.within ref (hs.mem href)
  distinct := h.distinct.sublist (hs.map Reference.node)
  formed ref href := h.formed ref (hs.mem href)

end Numbered

/-- The references in two lists of arguments are those of the whole. -/
theorem argumentReferences_append (es fs : List Expr) :
    argumentReferences (es ++ fs) = argumentReferences es ++ argumentReferences fs := by
  induction es with
  | nil => rfl
  | cons e es ih => simp [argumentReferences, ih]

/-- Those in two bodies are. -/
theorem bodyReferences_append (ss us : List Stmt) :
    bodyReferences (ss ++ us) = bodyReferences ss ++ bodyReferences us := by
  induction ss with
  | nil => rfl
  | cons s ss ih => simp [bodyReferences, ih]

/-- Those in two lists of methods are. -/
theorem methodReferences_append (ms us : List Function) :
    methodReferences (ms ++ us) = methodReferences ms ++ methodReferences us := by
  induction ms with
  | nil => rfl
  | cons m ms ih => simp [methodReferences, ih]

/-- An operator refers to what its operands refer to. -/
theorem Level.references_node {level : Level} {t : Token} {node : Expr → Expr → Expr}
    (h : level.node? t = some node) (left right : Expr) :
    (node left right).references = left.references ++ right.references := by
  unfold Level.node? at h
  split at h <;> first | (obtain rfl := Option.some.inj h; rfl) | exact absurd h (by simp)

/-- The token of an operator does not mark the end. -/
theorem Level.kind_ne_endOfSource {level : Level} {t : Token} {node : Expr → Expr → Expr}
    (h : level.node? t = some node) : t.kind ≠ .endOfSource := by
  intro hend
  unfold Level.node? at h
  split at h <;> simp_all

/-! ## Expressions -/

section Expressions

variable {allowed : Token → Prop} {expression operand : Parser Expr} {k : Nat}

open YouthLang.Parser

/-- A parser that, with at most `k` tokens left, numbers what it reads. -/
def Parser.Numbers (allowed : Token → Prop) (k : Nat) (p : Parser Expr) : Prop :=
  ∀ c : Cursor, c.size ≤ k →
    p.Reads allowed c fun _ e c' => Numbered allowed c.node c'.node e.references

/-- Each round of a chain numbers behind the rounds before it. -/
theorem numbers_chainFrom {level : Level} (hop : operand.Numbers allowed k) (first : Nat) :
    ∀ (n : Nat) (left : Expr) (c : Cursor), c.size ≤ k →
      Numbered allowed first c.node left.references →
      (chainFrom level operand n left).Reads allowed c fun _ e c' =>
        Numbered allowed first c'.node e.references
  | 0, left, c, _, hleft => .pure hleft
  | n + 1, left, c, hc, hleft => by
      unfold chainFrom
      refine .peek ?_
      split
      · exact .pure hleft
      · next node hnode =>
        refine .next (Level.kind_ne_endOfSource hnode) fun _ hsize => ?_
        refine .bind (hop c.advance (by omega)) fun _ right c' hr hright => ?_
        rw [Cursor.node_advance] at hright
        refine numbers_chainFrom hop first n _ c' (by have := hr.size_le; omega) ?_
        rw [Level.references_node hnode]
        exact hleft.append hright

/-- A chain is numbered from its first operand on. -/
theorem numbers_chain {level : Level} (hop : operand.Numbers allowed k) :
    (chain level operand).Numbers allowed k := fun c hc => by
  unfold chain
  refine .bind (hop c hc) fun _ left c' hr hleft => .remaining ?_
  exact numbers_chainFrom hop c.node _ left c' (Nat.le_trans hr.size_le hc) hleft

/-- Each argument is numbered behind those before it. -/
theorem numbers_argumentsFrom (hex : expression.Numbers allowed k) (first : Nat) :
    ∀ (n : Nat) (read : List Expr) (c : Cursor), c.size ≤ k →
      Numbered allowed first c.node (argumentReferences read.reverse) →
      (argumentsFrom expression n read).Reads allowed c fun _ es c' =>
        Numbered allowed first c'.node (argumentReferences es)
  | 0, read, c, _, hread => .pure hread
  | n + 1, read, c, hc, hread => by
      unfold argumentsFrom
      have hmore : ∀ c : Cursor, c.size ≤ k →
          Numbered allowed first c.node (argumentReferences read.reverse) →
          Parser.Reads allowed (do
            let argument ← expression
            if ← accept .comma then argumentsFrom expression n (argument :: read)
            else pure (argument :: read).reverse) c
            fun _ es c' => Numbered allowed first c'.node (argumentReferences es) := by
        intro c hc hread
        refine .bind (hex c hc) fun _ e c' hr he => ?_
        have hread' : Numbered allowed first c'.node (argumentReferences (e :: read).reverse) := by
          rw [List.reverse_cons, argumentReferences_append]
          simpa [argumentReferences] using hread.append he
        refine .accept (by decide) (fun _ _ hsize => ?_) fun _ => .pure hread'
        exact numbers_argumentsFrom hex first n _ c'.advance (by have := hr.size_le; omega)
          (by simpa using hread')
      split
      · exact .peek (.report (hmore _ hc hread))
      · exact hmore c hc hread

/-- Arguments between two parentheses are numbered in their order. -/
theorem numbers_callArguments (hex : expression.Numbers allowed k) (c : Cursor) (hc : c.size ≤ k) :
    (callArguments expression).Reads allowed c fun _ es c' =>
      Numbered allowed c.node c'.node (argumentReferences es) := by
  unfold callArguments
  refine .sees (fun _ => .pure (.nil (Nat.le_refl _))) fun _ => .remaining ?_
  exact numbers_argumentsFrom hex c.node _ [] c hc (.nil (Nat.le_refl _))

/-- Each suffix is numbered behind what it hangs on. -/
theorem numbers_suffixesFrom (hex : expression.Numbers allowed k) (first : Nat) :
    ∀ (n : Nat) (e : Expr) (c : Cursor), c.size ≤ k + 1 →
      Numbered allowed first c.node e.references →
      (suffixesFrom expression n e).Reads allowed c fun _ e' c' =>
        Numbered allowed first c'.node e'.references
  | 0, e, c, _, he => .pure he
  | n + 1, e, c, hc, he => by
      unfold suffixesFrom
      refine .accept (by decide) (fun _ _ hsize => ?_) fun _ => .accept (by decide)
        (fun _ _ hsize => ?_) fun _ => .pure he
      · refine .bind (numbers_callArguments hex c.advance (by omega)) fun _ es c' hr hes => ?_
        rw [Cursor.node_advance] at hes
        refine .expect (by decide) fun _ _ hsize' => ?_
        have hle := hr.size_le
        exact numbers_suffixesFrom hex first n _ c'.advance (by omega)
          (by simpa [Expr.references] using he.append hes)
      · refine .expect (by decide) fun _ _ hsize' => ?_
        exact numbers_suffixesFrom hex first n _ _ (by omega) (by simpa [Expr.references] using he)

/-- An operand takes a number of its own if it is a reference. -/
theorem numbers_primary (hex : expression.Numbers allowed k) :
    (primary expression).Numbers allowed (k + 1) := fun c hc => by
  unfold primary
  refine .peek ?_
  split
  · next h => exact .next (h ▸ by decide) fun _ _ => .pure (.nil (by simp))
  · next h => exact .next (h ▸ by decide) fun _ _ => .pure (.nil (by simp))
  · next h => exact .next (h ▸ by decide) fun _ _ => .pure (.nil (by simp))
  · next h => exact .next (by simp [h]) fun _ _ => .pure (.nil (by simp))
  · next h => exact .next (by simp [h]) fun _ _ => .pure (.nil (by simp))
  · next h =>
    refine .next (h ▸ by decide) fun hallowed _ => .freshNode (.pure ?_)
    have := @Numbered.singleton allowed c.node ⟨.receiver, c.current, c.count.node⟩ c.node_lt_count
      ⟨h, hallowed⟩
    simpa [Expr.references] using this
  · next h =>
    refine .next (h ▸ by decide) fun hallowed _ => .freshNode (.pure ?_)
    have := @Numbered.singleton allowed c.node ⟨.read, c.current, c.count.node⟩ c.node_lt_count
      ⟨h, hallowed⟩
    simpa [Expr.references] using this
  · next h =>
    refine .next (h ▸ by decide) fun _ hsize => ?_
    refine .bind (hex c.advance (by omega)) fun _ e c' hr he => ?_
    refine .expect (by decide) fun _ _ _ => .pure ?_
    simpa [Expr.references] using he
  · exact .missing

/-- One with suffixes is numbered from its head on. -/
theorem numbers_suffixed (hex : expression.Numbers allowed k) :
    (suffixed expression).Numbers allowed (k + 1) := fun c hc => by
  unfold suffixed
  refine .bind (numbers_primary hex c hc) fun _ e c' hr he => .remaining ?_
  exact numbers_suffixesFrom hex c.node _ e c' (Nat.le_trans hr.size_le hc) he

/-- A sign takes no number. -/
theorem numbers_signedFrom (hex : expression.Numbers allowed k) : ∀ n : Nat,
    (signedFrom expression n).Numbers allowed (k + 1)
  | 0 => numbers_suffixed hex
  | n + 1 => fun c hc => by
      unfold signedFrom
      have hsign : ∀ op : UnaryOp, c.current.kind ≠ .endOfSource →
          Parser.Reads allowed (do
            let _ ← next
            return Expr.unary op c.current (← signedFrom expression n)) c
            fun _ e c' => Numbered allowed c.node c'.node e.references := by
        intro op hk
        refine .next hk fun _ _ => ?_
        refine .bind (numbers_signedFrom hex n c.advance (Nat.le_trans c.size_advance_le hc))
          fun _ e c' _ he => .pure ?_
        simpa [Expr.references] using he
      refine .peek ?_
      split
      · next h => exact hsign .not (h ▸ by decide)
      · next h => exact hsign .negate (h ▸ by decide)
      · exact numbers_suffixed hex c hc

/-- Level by level the chains are numbered. -/
theorem numbers_operation (hex : expression.Numbers allowed k) :
    (operation expression).Numbers allowed (k + 1) := by
  have hsigned : (signed expression).Numbers allowed (k + 1) := fun c hc => by
    unfold signed
    exact .remaining (numbers_signedFrom hex _ c hc)
  exact numbers_chain (numbers_chain (numbers_chain (numbers_chain (numbers_chain
    (numbers_chain hsigned)))))

/-- An assignment takes the number of its target or a new one, behind its value. -/
theorem numbers_assignment (hex : expression.Numbers allowed k) :
    (assignment expression).Numbers allowed (k + 1) := fun c hc => by
  unfold assignment
  refine .bind (numbers_operation hex c hc) fun _ target c' hr htarget => .peek ?_
  refine .accept (by decide) (fun _ _ hsize => ?_) fun _ => .pure htarget
  have hle := hr.size_le
  refine .bind (hex c'.advance (by omega)) fun _ value c'' hr' hvalue => ?_
  rw [Cursor.node_advance] at hvalue
  have hboth := htarget.append hvalue
  split
  · next node name =>
    refine .freshNode (.pure ?_)
    -- the node of the target is dropped, and its token goes to a new node
    have hname : Reference.Formed allowed ⟨.write, name, c''.count.node⟩ :=
      htarget.formed ⟨.read, name, node⟩ (by simp [Expr.references])
    have hwrite := (hboth.sublist (List.sublist_append_right _ _)).append
      (Numbered.singleton c''.node_lt_count hname)
    exact hwrite.perm (List.perm_append_singleton _ _).symm
  · exact .pure hboth
  · exact .report (.pure (hboth.sublist (List.sublist_append_left _ _)))

/-- At every depth an expression is numbered from where the count stands. -/
theorem numbers_expressionAt : ∀ n : Nat, (expressionAt n).Numbers allowed n
  | 0 => fun c hc => absurd c.size_pos (by omega)
  | n + 1 => numbers_assignment (numbers_expressionAt n)

/-- **An expression is numbered in one piece of the count.** -/
theorem numbers_expression (c : Cursor) : Parser.Reads allowed YouthLang.expression c fun _ e c' =>
    Numbered allowed c.node c'.node e.references :=
  .remaining (numbers_expressionAt _ c (Nat.le_refl _))

end Expressions

/-! ## Statements -/

section Statements

variable {allowed : Token → Prop} {statement declaration : Parser Stmt} {k : Nat}

open YouthLang.Parser

/-- A list of statements is formed if its statements are. -/
theorem bodyFormed_iff {body : List Stmt} :
    BodyFormed allowed body ↔ ∀ s ∈ body, s.Formed allowed := by
  induction body with
  | nil => simp [BodyFormed]
  | cons s body ih => simp [BodyFormed, ih]

/-- Methods are formed one by one. -/
theorem methodsFormed_iff {ms : List Function} :
    MethodsFormed allowed ms ↔ ∀ m ∈ ms, m.Formed allowed := by
  induction ms with
  | nil => simp [MethodsFormed]
  | cons m ms ih => simp [MethodsFormed, ih]

/-- A parser that, with at most `k` tokens left, forms what it reads and numbers it. -/
def Parser.Forms (allowed : Token → Prop) (k : Nat) (rule : Rule) (p : Parser Stmt) : Prop :=
  ∀ c : Cursor, c.size ≤ k → p.Reads allowed c fun _ s c' =>
    Numbered allowed c.node c'.node s.references ∧ s.Formed allowed
      ∧ (rule = .statement → s.declares = false)

/-- Each declaration is numbered behind those before it. -/
theorem forms_declarationsFrom (hd : declaration.Forms allowed k .declaration) (first : Nat) :
    ∀ (n : Nat) (read : List Stmt) (c : Cursor), c.size ≤ k →
      Numbered allowed first c.node (bodyReferences read.reverse) →
      (∀ s ∈ read, s.Formed allowed) →
      (declarationsFrom declaration n read).Reads allowed c fun _ body c' =>
        Numbered allowed first c'.node (bodyReferences body) ∧ BodyFormed allowed body
  | 0, read, c, _, hread, hformed => .pure ⟨hread, bodyFormed_iff.mpr (by simpa using hformed)⟩
  | n + 1, read, c, hc, hread, hformed => by
      unfold declarationsFrom
      refine .peek ?_
      split
      · exact .pure ⟨hread, bodyFormed_iff.mpr (by simpa using hformed)⟩
      · refine .bind (hd c hc) fun _ s c' hr hs => ?_
        refine forms_declarationsFrom hd first n _ c' (Nat.le_trans hr.size_le hc) ?_ ?_
        · rw [List.reverse_cons, bodyReferences_append]
          simpa [bodyReferences] using hread.append hs.1
        · exact List.forall_mem_cons.mpr ⟨hs.2.1, hformed⟩

/-- A block is numbered as its declarations are. -/
theorem forms_block (hd : declaration.Forms allowed k .declaration) (c : Cursor) (hc : c.size ≤ k) :
    (block declaration).Reads allowed c fun _ body c' =>
      Numbered allowed c.node c'.node (bodyReferences body) ∧ BodyFormed allowed body := by
  unfold block
  refine .remaining (.bind (forms_declarationsFrom hd c.node _ [] c hc (.nil (Nat.le_refl _))
    (by simp)) fun _ body c' _ hbody => ?_)
  exact .expect (by decide) fun _ _ _ => .pure (by simpa using hbody)

/-- Every parameter is a name. -/
theorem forms_parametersFrom : ∀ (n : Nat) (read : List Token) (c : Cursor),
    (∀ p ∈ read, p.IsName allowed) →
    (parametersFrom n read).Reads allowed c fun _ ps _ => ∀ p ∈ ps, p.IsName allowed
  | 0, read, c, hread => .pure (by simpa using hread)
  | n + 1, read, c, hread => by
      unfold parametersFrom
      have hmore : ∀ c : Cursor, Parser.Reads allowed (do
            let name ← expect .identifier (.name .parameter)
            if ← accept .comma then parametersFrom n (name :: read)
            else pure (name :: read).reverse) c fun _ ps _ => ∀ p ∈ ps, p.IsName allowed := by
        intro c
        refine .expect (by decide) fun hk hallowed _ => ?_
        have hread' : ∀ p ∈ c.current :: read, p.IsName allowed :=
          List.forall_mem_cons.mpr ⟨⟨hk, hallowed⟩, hread⟩
        refine .accept (by decide) (fun _ _ _ => ?_) fun _ => .pure ?_
        · exact forms_parametersFrom n _ _ hread'
        · exact fun p hp => hread' p (List.mem_reverse.mp hp)
      split
      · exact .peek (.report (hmore _))
      · exact hmore c

/-- So is every one between two parentheses. -/
theorem forms_parameterList (c : Cursor) :
    parameterList.Reads allowed c fun _ ps _ => ∀ p ∈ ps, p.IsName allowed := by
  unfold parameterList
  exact .sees (fun _ => .pure (by simp)) fun _ => .remaining (forms_parametersFrom _ [] c (by simp))

/-- A routine is numbered as its body is. -/
theorem forms_routine (kind : Routine) (hd : declaration.Forms allowed k .declaration) (c : Cursor)
    (hc : c.size ≤ k) : (routine kind declaration).Reads allowed c fun _ f c' =>
      Numbered allowed c.node c'.node f.references ∧ f.Formed allowed := by
  unfold routine
  refine .expect (by decide) fun hk hallowed h₁ => .expect (by decide) fun _ _ h₂ => ?_
  refine .bind (forms_parameterList _) fun _ ps c₁ hr hps => ?_
  refine .expect (by decide) fun _ _ h₃ => .expect (by decide) fun _ _ h₄ => ?_
  have hle := hr.size_le
  refine .bind (forms_block hd _ (by omega)) fun _ body c₂ _ hbody => .pure ?_
  refine ⟨?_, ⟨hk, hallowed⟩, hps, hbody.2⟩
  have hnode : c.node ≤ c₁.node := by simpa using hr.node
  have := (Numbered.nil hnode).append (by simpa using hbody.1)
  simpa [Function.references] using this

/-- Each method is numbered behind those before it. -/
theorem forms_methodsFrom (hd : declaration.Forms allowed k .declaration) (first : Nat) :
    ∀ (n : Nat) (read : List Function) (c : Cursor), c.size ≤ k →
      Numbered allowed first c.node (methodReferences read.reverse) →
      (∀ m ∈ read, m.Formed allowed) →
      (methodsFrom declaration n read).Reads allowed c fun _ ms c' =>
        Numbered allowed first c'.node (methodReferences ms) ∧ MethodsFormed allowed ms
  | 0, read, c, _, hread, hformed =>
      .pure ⟨hread, methodsFormed_iff.mpr (by simpa using hformed)⟩
  | n + 1, read, c, hc, hread, hformed => by
      unfold methodsFrom
      refine .peek ?_
      split
      · exact .pure ⟨hread, methodsFormed_iff.mpr (by simpa using hformed)⟩
      · refine .expect (by decide) fun _ _ hsize => ?_
        refine .bind (forms_routine .method hd _ (by omega)) fun _ m c' hr hm => ?_
        have hle := hr.size_le
        refine forms_methodsFrom hd first n _ c' (by omega) ?_ ?_
        · rw [List.reverse_cons, methodReferences_append]
          simpa [methodReferences] using hread.append (by simpa using hm.1)
        · exact List.forall_mem_cons.mpr ⟨hm.2, hformed⟩

/-- A class is numbered as its methods are. -/
theorem forms_youthDeclaration (hd : declaration.Forms allowed k .declaration) (c : Cursor)
    (hc : c.size ≤ k) : (youthDeclaration declaration).Reads allowed c fun _ s c' =>
      Numbered allowed c.node c'.node s.references ∧ s.Formed allowed := by
  unfold youthDeclaration
  refine .expect (by decide) fun hk hallowed h₁ => .expect (by decide) fun _ _ h₂ => .remaining ?_
  refine .bind (forms_methodsFrom hd c.node _ [] _ (by omega) (.nil (by simp)) (by simp))
    fun _ ms c' _ hms => .expect (by decide) fun _ _ _ => .pure ?_
  exact ⟨by simpa [Stmt.references] using hms.1, ⟨hk, hallowed⟩, hms.2⟩

/-- The references of an expression that may be missing. -/
def optionalReferences (e? : Option Expr) : List Reference := e?.elim [] Expr.references

/-- What is left out takes no number. -/
theorem numbers_expressionUnless (kind : TokenKind) (c : Cursor) :
    (expressionUnless kind).Reads allowed c fun _ e? c' =>
      Numbered allowed c.node c'.node (optionalReferences e?) := by
  unfold expressionUnless
  refine .sees (fun _ => .pure (.nil (Nat.le_refl _))) fun _ => ?_
  exact .map (numbers_expression c) fun _ _ _ _ h => h

/-- A variable is no reference, but its value may have some. -/
theorem forms_variableDeclaration (c : Cursor) :
    variableDeclaration.Reads allowed c fun _ s c' =>
      Numbered allowed c.node c'.node s.references ∧ s.Formed allowed := by
  unfold variableDeclaration
  refine .expect (by decide) fun hk hallowed _ => ?_
  have hend : ∀ (e? : Option Expr) (c' : Cursor),
      Numbered allowed c.node c'.node (optionalReferences e?) →
      Parser.Reads allowed (do
        let _ ← expect .semicolon (.semicolon .declaration)
        return Stmt.declare c.current e?) c' fun _ s c'' =>
        Numbered allowed c.node c''.node s.references ∧ s.Formed allowed := by
    intro e? c' he
    refine .expect (by decide) fun _ _ _ => .pure ⟨?_, hk, hallowed⟩
    cases e? <;> simpa [Stmt.references, optionalReferences] using he
  refine .accept (by decide) (fun _ _ _ => ?_) fun _ => hend none _ (.nil (by simp))
  have hsome : Parser.Reads allowed (some <$> expression) c.advance.advance fun _ e? c' =>
      Numbered allowed c.node c'.node (optionalReferences e?) :=
    .map (numbers_expression _) fun _ _ _ _ h => by simpa [optionalReferences] using h
  exact .bind hsome fun _ e? c' _ he => hend e? c' he

/-- The first part of a loop is a declaration or an expression. -/
theorem forms_loopInitializer (c : Cursor) :
    loopInitializer.Reads allowed c fun _ s? c' => ∀ s ∈ s?,
      Numbered allowed c.node c'.node s.references ∧ s.Formed allowed := by
  unfold loopInitializer
  refine .accept (by decide) (fun _ _ _ => .pure (by simp)) fun _ => ?_
  refine .accept (by decide) (fun _ _ _ => ?_) fun _ => ?_
  · refine .bind (forms_variableDeclaration _) fun _ s c' _ hs => .pure ?_
    simpa using hs
  · refine .bind (numbers_expression c) fun _ e c' _ he => .expect (by decide) fun _ _ _ => .pure ?_
    simpa [Stmt.references, Stmt.Formed] using he

/-- A counting loop has the references of its clauses and of its body. -/
theorem references_countingLoop (s? : Option Stmt) (condition increment : Option Expr)
    (body : Stmt) : (countingLoop s? condition increment body).references.Perm
      (s?.elim [] Stmt.references ++ (optionalReferences condition
        ++ (optionalReferences increment ++ body.references))) := by
  have hcondition : (condition.getD (.literal (.truth true))).references
      = optionalReferences condition := by cases condition <;> rfl
  -- the increment is read before the body and stands behind it
  have hswap : ∀ e : Expr, (body.references ++ e.references).Perm
      (optionalReferences (some e) ++ body.references) := fun _ => List.perm_append_comm
  cases s? with
  | none =>
    cases increment with
    | none => simp [countingLoop, Stmt.references, hcondition, optionalReferences]
    | some e =>
      simpa [countingLoop, Stmt.references, bodyReferences, hcondition]
        using (hswap e).append_left (optionalReferences condition)
  | some s =>
    cases increment with
    | none => simp [countingLoop, Stmt.references, bodyReferences, hcondition, optionalReferences]
    | some e =>
      simpa [countingLoop, Stmt.references, bodyReferences, hcondition]
        using ((hswap e).append_left (optionalReferences condition)).append_left s.references

/-- A counting loop is formed of its parts, as its body declares nothing. -/
theorem formed_countingLoop {s? : Option Stmt} {condition increment : Option Expr} {body : Stmt}
    (hs : ∀ s ∈ s?, s.Formed allowed) (hd : body.declares = false) (hbody : body.Formed allowed) :
    (countingLoop s? condition increment body).Formed allowed
      ∧ (countingLoop s? condition increment body).declares = false := by
  cases s? <;> cases increment <;>
    simp_all [countingLoop, Stmt.Formed, Stmt.declares, BodyFormed]

/-- Its parts are numbered as they are written, the last one before the body. -/
theorem forms_forStatement (hst : statement.Forms allowed k .statement) :
    (forStatement statement).Forms allowed (k + 1) .statement := fun c hc => by
  unfold forStatement
  refine .expect (by decide) fun _ _ h₁ => ?_
  refine .bind (forms_loopInitializer _) fun _ s? c₁ hr₁ hs => ?_
  refine .bind (numbers_expressionUnless .semicolon c₁) fun _ condition c₂ hr₂ hcondition => ?_
  refine .expect (by decide) fun _ _ h₂ => ?_
  refine .bind (numbers_expressionUnless .rightParen _) fun _ increment c₃ hr₃ hincrement => ?_
  refine .expect (by decide) fun _ _ h₃ => ?_
  have hle₁ := hr₁.size_le
  have hle₂ := hr₂.size_le
  have hle₃ := hr₃.size_le
  refine .bind (hst _ (by omega)) fun _ body c₄ _ hbody => .pure ?_
  simp only [Cursor.node_advance] at hs hincrement hbody
  obtain ⟨hformed, hdeclares⟩ := @formed_countingLoop allowed s? condition increment body
    (fun s h => (hs s h).2) (hbody.2.2 trivial) hbody.2.1
  refine ⟨?_, hformed, fun _ => hdeclares⟩
  refine Numbered.perm ?_ (references_countingLoop s? condition increment body)
  have hinitializer : Numbered allowed c.node c₁.node (s?.elim [] Stmt.references) := by
    cases s? with
    | none => exact .nil (by simpa using hr₁.node)
    | some s => exact (hs s rfl).1
  exact hinitializer.append (hcondition.append (hincrement.append hbody.1))

/-- A choice is numbered from its condition on. -/
theorem forms_ifStatement (hst : statement.Forms allowed k .statement) :
    (ifStatement statement).Forms allowed (k + 1) .statement := fun c hc => by
  unfold ifStatement
  refine .expect (by decide) fun _ _ h₁ => ?_
  refine .bind (numbers_expression _) fun _ condition c₁ hr₁ hcondition => ?_
  refine .expect (by decide) fun _ _ h₂ => ?_
  have hle₁ := hr₁.size_le
  refine .bind (hst _ (by omega)) fun _ yes c₂ hr₂ hyes => ?_
  simp only [Cursor.node_advance] at hcondition hyes
  have hle₂ := hr₂.size_le
  have hboth := hcondition.append hyes.1
  refine .accept (by decide) (fun _ _ h₃ => ?_) fun _ => .pure ?_
  · refine .bind (hst _ (by omega)) fun _ no c₃ _ hno => .pure ?_
    rw [Cursor.node_advance] at hno
    exact ⟨hboth.append hno.1, ⟨hyes.2.2 trivial, hyes.2.1, hno.2.2 rfl, hno.2.1⟩, fun _ => rfl⟩
  · exact ⟨hboth, ⟨hyes.2.2 trivial, hyes.2.1⟩, fun _ => rfl⟩

/-- So is a loop. -/
theorem forms_whileStatement (hst : statement.Forms allowed k .statement) :
    (whileStatement statement).Forms allowed (k + 1) .statement := fun c hc => by
  unfold whileStatement
  refine .expect (by decide) fun _ _ h₁ => ?_
  refine .bind (numbers_expression _) fun _ condition c₁ hr₁ hcondition => ?_
  refine .expect (by decide) fun _ _ h₂ => ?_
  have hle₁ := hr₁.size_le
  refine .bind (hst _ (by omega)) fun _ body c₂ _ hbody => .pure ?_
  simp only [Cursor.node_advance] at hcondition hbody
  exact ⟨hcondition.append hbody.1, ⟨hbody.2.2 trivial, hbody.2.1⟩, fun _ => rfl⟩

/-- Each kind of statement is numbered where what stands inside it is. -/
theorem forms_statement {parse : Rule → Parser Stmt}
    (hp : ∀ rule, (parse rule).Forms allowed k rule) :
    (YouthLang.statement parse).Forms allowed (k + 1) .statement := fun c hc => by
  unfold YouthLang.statement
  refine .peek ?_
  split
  · next h =>
    refine .next (h ▸ by decide) fun _ hsize => ?_
    simpa using forms_forStatement (hp .statement) c.advance (by omega)
  · next h =>
    refine .next (h ▸ by decide) fun _ hsize => ?_
    simpa using forms_ifStatement (hp .statement) c.advance (by omega)
  · next h =>
    refine .next (h ▸ by decide) fun _ _ => ?_
    refine .bind (numbers_expression _) fun _ e c' _ he => .expect (by decide) fun _ _ _ => .pure ?_
    exact ⟨by simpa [Stmt.references] using he, trivial, fun _ => rfl⟩
  · next h =>
    refine .next (h ▸ by decide) fun _ _ => ?_
    refine .bind (numbers_expressionUnless .semicolon _) fun _ e? c' _ he => ?_
    refine .expect (by decide) fun _ _ _ => .pure ⟨?_, trivial, fun _ => rfl⟩
    cases e? <;> simpa [Stmt.references, optionalReferences] using he
  · next h =>
    refine .next (h ▸ by decide) fun _ hsize => ?_
    simpa using forms_whileStatement (hp .statement) c.advance (by omega)
  · next h =>
    refine .next (h ▸ by decide) fun _ hsize => ?_
    refine .bind (forms_block (hp .declaration) _ (by omega)) fun _ body c' _ hbody => .pure ?_
    exact ⟨by simpa [Stmt.references] using hbody.1, hbody.2, fun _ => rfl⟩
  · refine .bind (numbers_expression _) fun _ e c' _ he => .expect (by decide) fun _ _ _ => .pure ?_
    exact ⟨by simpa [Stmt.references] using he, trivial, fun _ => rfl⟩

/-- A declaration may be a statement, which is read from the same token on. -/
theorem forms_declarationBody {parse : Rule → Parser Stmt}
    (hd : (parse .declaration).Forms allowed k .declaration)
    (hst : (parse .statement).Forms allowed (k + 1) .statement) :
    (declarationBody parse).Forms allowed (k + 1) .declaration := fun c hc => by
  unfold declarationBody
  refine .peek ?_
  split
  · next h =>
    refine .next (h ▸ by decide) fun _ hsize => ?_
    refine .mono (forms_youthDeclaration hd c.advance (by omega)) fun _ s c' _ hs => ?_
    exact ⟨by simpa using hs.1, hs.2, by simp⟩
  · next h =>
    refine .next (h ▸ by decide) fun _ hsize => ?_
    refine .bind (forms_routine .function hd c.advance (by omega)) fun _ f c' _ hf => .pure ?_
    exact ⟨by simpa [Stmt.references] using hf.1, hf.2, by simp⟩
  · next h =>
    refine .next (h ▸ by decide) fun _ _ => ?_
    refine .mono (forms_variableDeclaration c.advance) fun _ s c' _ hs => ?_
    exact ⟨by simpa using hs.1, hs.2, by simp⟩
  · exact .mono (hst c hc) fun _ s c' _ hs => ⟨hs.1, hs.2.1, by simp⟩

/-- Recovery only goes on, and leaves a statement without names in place of what it skips. -/
theorem forms_recovering {p : Parser Stmt} (hp : p.Forms allowed k .declaration) :
    (recovering p).Forms allowed k .declaration := fun c hc hs => by
  have := hp c hc hs
  unfold recovering
  split at this
  · next s c' heq =>
    simpa only [heq] using this
  · next c' heq =>
    obtain ⟨read, hr, -⟩ := this
    obtain ⟨skipped, hr'⟩ := Cursor.Reaches.recover (hr.sealed hs)
    simp only [heq]
    have hr'' := hr.trans hr'
    exact ⟨_, hr'', .nil hr''.node, trivial, by simp⟩

/-- With enough nesting allowed for, the tokens left bound it: each second level reads one. -/
theorem forms_statementAt : ∀ n k : Nat,
    (2 * k ≤ n → (statementAt n .declaration).Forms allowed k .declaration)
      ∧ (2 * k ≤ n + 1 → (statementAt n .statement).Forms allowed k .statement)
  | 0, k => by
      refine ⟨fun hk c hc => absurd c.size_pos (by omega), fun hk c hc => ?_⟩
      exact absurd c.size_pos (by omega)
  | n + 1, 0 =>
      ⟨fun _ c hc => absurd c.size_pos (by omega), fun _ c hc => absurd c.size_pos (by omega)⟩
  | n + 1, k + 1 => by
      refine ⟨fun hk => forms_recovering (forms_declarationBody ?_ ?_), fun hk => ?_⟩
      · exact (forms_statementAt n k).1 (by omega)
      · exact (forms_statementAt n (k + 1)).2 (by omega)
      · refine forms_statement fun rule => ?_
        cases rule with
        | declaration => exact (forms_statementAt n k).1 (by omega)
        | statement => exact (forms_statementAt n k).2 (by omega)

/-- **A declaration is formed, and numbered in one piece of the count.** -/
theorem forms_declaration (c : Cursor) : YouthLang.declaration.Reads allowed c fun _ s c' =>
    Numbered allowed c.node c'.node s.references ∧ s.Formed allowed :=
  .remaining (.mono ((forms_statementAt (2 * c.size) c.size).1 (Nat.le_refl _) c (Nat.le_refl _))
    fun _ _ _ _ hs => ⟨hs.1, hs.2.1⟩)

/-! ## Programs -/

/-- Declaration by declaration a program is numbered. -/
theorem forms_programFrom (first : Nat) : ∀ (n : Nat) (read : List Stmt) (c : Cursor),
    c.Sealed allowed → Numbered allowed first c.node (bodyReferences read.reverse) →
    (∀ s ∈ read, s.Formed allowed) →
      Numbered allowed first (programFrom n read c).2.node
        (bodyReferences (programFrom n read c).1)
      ∧ BodyFormed allowed (programFrom n read c).1
  | 0, read, c, _, hread, hformed =>
      ⟨hread, bodyFormed_iff.mpr (by simpa [programFrom] using hformed)⟩
  | n + 1, read, c, hc, hread, hformed => by
      unfold programFrom
      have hd := forms_declaration c hc
      split
      · exact ⟨hread, bodyFormed_iff.mpr (by simpa using hformed)⟩
      · split at hd
        · next s c' heq =>
          obtain ⟨_, hr, hs⟩ := hd
          simp only [heq]
          refine forms_programFrom first n _ c' (hr.sealed hc) ?_ ?_
          · rw [List.reverse_cons, bodyReferences_append]
            simpa [bodyReferences] using hread.append hs.1
          · exact List.forall_mem_cons.mpr ⟨hs.2, hformed⟩
        · next c' heq =>
          obtain ⟨_, hr, -⟩ := hd
          simp only [heq]
          exact ⟨hread.widen hr.node, bodyFormed_iff.mpr (by simpa using hformed)⟩

/-- **A parsed program is formed and numbered**, whatever its tokens are. -/
theorem parse_formed (node : Nat) {tokens : List Token} (hallowed : ∀ t ∈ tokens, allowed t)
    (hlast : ∃ t, tokens.getLast? = some t ∧ t.kind = .endOfSource) (others : List Nat := []) :
    Numbered allowed node (parse node tokens others).node
        (bodyReferences (parse node tokens others).statements)
      ∧ BodyFormed allowed (parse node tokens others).statements := by
  cases tokens with
  | nil => exact ⟨.nil (Nat.le_refl _), trivial⟩
  | cons t ts =>
    have := forms_programFrom node (ts.length + 1) [] (.start node t ts others) ⟨hlast, hallowed⟩
      (.nil (Nat.le_refl _)) (by simp)
    exact this

end Statements

end YouthLang

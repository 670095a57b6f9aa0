import YouthLang.Proofs.Rendered.Quoted
import YouthLang.Proofs.Scanning.Layout

/-!
# Proofs/Rendered/Sheets — parentheses read back

A text with parentheses is a run of signs: parentheses, and words with blanks between them, where a
word between quotes may hold anything.  A `Sheet` is a word or a list of sheets in parentheses.  A text
shows a sheet if, in front of whatever closes a word, its signs are those of the sheet
(`Text.Shows`); lists are put together from the texts of their items (`Text.shows_list`).  The signs of
some sheets give them back (`sheetsOf_signs`).
-/

namespace YouthLang

/-! ## Signs -/

/-- A sign of a text with parentheses. -/
inductive Sign where
  | opening
  | closing
  | word (t : Text)
deriving DecidableEq

/-- What a reader of signs is in the middle of, with what it has read of it. -/
inductive Reading where
  | between
  | word (read : Text)
  | quoted (read : Text)
  | escaped (read : Text)

/-- The signs that a byte outside of quotes is, if it is no part of a word. -/
def Sign.ofByte? (b : UInt8) : Option (List Sign) :=
  if b = 0x28 then some [.opening]
  else if b = 0x29 then some [.closing]
  else if b = 0x20 ∨ b = Text.newline then some []
  else none

/-- The signs of a text, from the middle of a reading on. -/
def signsFrom : Reading → Text → List Sign
  | .between, [] => []
  | .word read, [] => [.word read]
  | .quoted _, [] => []
  | .escaped _, [] => []
  | .between, b :: rest =>
    match Sign.ofByte? b with
    | some signs => signs ++ signsFrom .between rest
    | none => signsFrom (if b = Text.quote then .quoted [b] else .word [b]) rest
  | .word read, b :: rest =>
    match Sign.ofByte? b with
    | some signs => .word read :: signs ++ signsFrom .between rest
    | none => signsFrom (.word (read ++ [b])) rest
  | .quoted read, b :: rest =>
    if b = 0x5C then signsFrom (.escaped (read ++ [b])) rest
    else if b = Text.quote then .word (read ++ [b]) :: signsFrom .between rest
    else signsFrom (.quoted (read ++ [b])) rest
  | .escaped read, b :: rest => signsFrom (.quoted (read ++ [b])) rest

/-- The signs of a text. -/
def Text.signs (t : Text) : List Sign := signsFrom .between t

/-- What may follow a word: nothing, a parenthesis or a blank. -/
def Text.Closes (r : Text) : Prop := ∀ b ∈ r.head?, (Sign.ofByte? b).isSome = true

/-- A text that is one word wherever it stands. -/
def Text.IsWord (t : Text) : Prop := ∀ r : Text, r.Closes → Text.signs (t ++ r) = .word t :: r.signs

namespace Text

variable {t r : Text}

theorem signsFrom_word (h : r.Closes) : signsFrom (.word t) r = .word t :: r.signs := by
  cases r with
  | nil => rfl
  | cons b r =>
    obtain ⟨found, hfound⟩ := Option.isSome_iff_exists.mp (h b rfl)
    simp only [signs, signsFrom, hfound, List.cons_append]

theorem signsFrom_word_append (read : Text) (h : ∀ b ∈ t, Sign.ofByte? b = none) :
    signsFrom (.word read) (t ++ r) = signsFrom (.word (read ++ t)) r := by
  induction t generalizing read with
  | nil => rw [List.nil_append, List.append_nil]
  | cons b t ih =>
    obtain ⟨hb, ht⟩ := List.forall_mem_cons.mp h
    simp only [List.cons_append, signsFrom, hb]
    rw [ih (read ++ [b]) ht, List.append_assoc]
    rfl

/-- **Bytes that are neither signs nor quotes are a word.** -/
theorem isWord_of_plain (hne : t ≠ []) (h : ∀ b ∈ t, Sign.ofByte? b = none ∧ b ≠ quote) :
    t.IsWord := by
  intro r hr
  obtain ⟨b, more, rfl⟩ := List.exists_cons_of_ne_nil hne
  obtain ⟨hb, hmore⟩ := List.forall_mem_cons.mp h
  simp only [List.cons_append, signs, signsFrom, hb.1, if_neg hb.2]
  rw [signsFrom_word_append [b] fun b' hb' => (hmore b' hb').1, signsFrom_word hr]
  rfl

theorem signsFrom_quoted_append (read : Text) (h : ∀ b ∈ t, IsInner b) :
    signsFrom (.quoted read) (t ++ r) = signsFrom (.quoted (read ++ t)) r := by
  induction t generalizing read with
  | nil => rw [List.nil_append, List.append_nil]
  | cons b t ih =>
    obtain ⟨hb, ht⟩ := List.forall_mem_cons.mp h
    simp only [List.cons_append, signsFrom, if_neg hb.2, if_neg (show b ≠ quote from hb.1)]
    rw [ih (read ++ [b]) ht, List.append_assoc]
    rfl

theorem signsFrom_quoted_glyphs {u : Text} : ∀ {gs : List Glyph} (read : Text),
    (∀ g ∈ gs, g ∈ u.glyphs) →
    signsFrom (.quoted read) (gs.flatMap Glyph.quoted ++ r)
      = signsFrom (.quoted (read ++ gs.flatMap Glyph.quoted)) r
  | [], read, _ => by rw [List.flatMap_nil, List.nil_append, List.append_nil]
  | g :: gs, read, h => by
      obtain ⟨hg, hgs⟩ := List.forall_mem_cons.mp h
      rw [List.flatMap_cons, List.append_assoc, ← List.append_assoc read]
      obtain hplain | ⟨b, more, hescape, hplain⟩ := Glyph.quoted_cases hg
      · rw [signsFrom_quoted_append read hplain, signsFrom_quoted_glyphs _ hgs]
      · rw [hescape]
        simp only [List.cons_append, signsFrom, if_true]
        rw [signsFrom_quoted_append _ hplain, signsFrom_quoted_glyphs _ hgs]
        simp

/-- **A quoted text is a word.** -/
theorem isWord_quoted (t : Text) : t.quoted.IsWord := by
  intro r hr
  have hquote : Sign.ofByte? quote = none := by decide
  have hread : signs (t.quoted ++ r)
      = signsFrom (.quoted [quote]) (t.glyphs.flatMap Glyph.quoted ++ quote :: r) := by
    change signs (quote :: ((t.glyphs.flatMap Glyph.quoted ++ [quote]) ++ r)) = _
    rw [List.append_assoc]
    simp only [signs, signsFrom, hquote, if_true]
    rfl
  rw [hread, signsFrom_quoted_glyphs _ fun _ hg => hg]
  rfl

end Text

/-! ## Sheets -/

/-- A word, or sheets in parentheses. -/
inductive Sheet where
  | word (t : Text)
  | list (items : List Sheet)

mutual

/-- The signs of a sheet. -/
def Sheet.signs : Sheet → List Sign
  | .word t => [.word t]
  | .list items => .opening :: itemSigns items ++ [.closing]

/-- The signs of some sheets. -/
def itemSigns : List Sheet → List Sign
  | [] => []
  | s :: rest => s.signs ++ itemSigns rest

end

/-- The sheets that some signs spell, behind those already read (latest first) and those that the lists
around them started with. -/
def sheetsFrom : List Sheet → List (List Sheet) → List Sign → List Sheet
  | read, _, [] => read.reverse
  | read, outer, .word t :: rest => sheetsFrom (.word t :: read) outer rest
  | read, outer, .opening :: rest => sheetsFrom [] (read :: outer) rest
  | read, before :: outer, .closing :: rest => sheetsFrom (.list read.reverse :: before) outer rest
  | read, [], .closing :: rest => sheetsFrom read [] rest

/-- The sheets that some signs spell. -/
def sheetsOf (signs : List Sign) : List Sheet := sheetsFrom [] [] signs

mutual

theorem sheetsFrom_signs (read : List Sheet) (outer : List (List Sheet)) (rest : List Sign) :
    ∀ s : Sheet, sheetsFrom read outer (s.signs ++ rest) = sheetsFrom (s :: read) outer rest
  | .word _ => rfl
  | .list items => by
      have hitems := sheetsFrom_itemSigns [] (read :: outer) (.closing :: rest) items
      rw [List.append_nil] at hitems
      rw [Sheet.signs, List.cons_append, List.cons_append, List.append_assoc, List.singleton_append,
        sheetsFrom, hitems, sheetsFrom, List.reverse_reverse]

theorem sheetsFrom_itemSigns (read : List Sheet) (outer : List (List Sheet)) (rest : List Sign) :
    ∀ ss : List Sheet,
      sheetsFrom read outer (itemSigns ss ++ rest) = sheetsFrom (ss.reverse ++ read) outer rest
  | [] => rfl
  | s :: ss => by
      rw [itemSigns, List.append_assoc, sheetsFrom_signs read outer _ s,
        sheetsFrom_itemSigns (s :: read) outer rest ss, List.reverse_cons, List.append_assoc]
      rfl

end

/-- **The signs of some sheets give them back.** -/
theorem sheetsOf_signs (ss : List Sheet) : sheetsOf (itemSigns ss) = ss := by
  have hread := sheetsFrom_itemSigns [] [] [] ss
  rwa [List.append_nil, List.append_nil, sheetsFrom, List.reverse_reverse] at hread

/-! ## Texts that show sheets -/

namespace Text

/-- A text is a sheet, in front of whatever may follow a word. -/
def Shows (t : Text) (s : Sheet) : Prop :=
  ∀ r : Text, r.Closes → Text.signs (t ++ r) = s.signs ++ r.signs

/-- A text is some sheets, each behind a blank, in front of whatever may follow a word. -/
def ShowsAll (t : Text) (ss : List Sheet) : Prop :=
  ∀ r : Text, r.Closes → Closes (t ++ r) ∧ Text.signs (t ++ r) = itemSigns ss ++ r.signs

/-- Blanks between words, one or more. -/
def IsBlank (t : Text) : Prop := t ≠ [] ∧ ∀ b ∈ t, Sign.ofByte? b = some []

variable {t u gap head : Text} {s : Sheet} {ss ss' : List Sheet}

theorem IsWord.shows (h : t.IsWord) : t.Shows (.word t) := h

theorem IsBlank.signs_append (h : gap.IsBlank) (r : Text) :
    Closes (gap ++ r) ∧ Text.signs (gap ++ r) = r.signs := by
  obtain ⟨hne, hblank⟩ := h
  constructor
  · obtain ⟨b, gap, rfl⟩ := List.exists_cons_of_ne_nil hne
    intro b' hb'
    obtain rfl := Option.some.inj hb'
    rw [hblank _ List.mem_cons_self]
    rfl
  · clear hne
    induction gap with
    | nil => rfl
    | cons b gap ih =>
      obtain ⟨hb, hblank⟩ := List.forall_mem_cons.mp hblank
      rw [← ih hblank]
      simp only [Text.signs, List.cons_append, signsFrom, hb, List.nil_append]

theorem isBlank_space : IsBlank " " :=
  ⟨List.cons_ne_nil _ _, List.forall_mem_singleton.mpr (by decide)⟩

namespace ShowsAll

theorem nil : ShowsAll [] [] := fun _ hr => ⟨hr, rfl⟩

theorem cons (hgap : gap.IsBlank) (h : t.Shows s) (hu : u.ShowsAll ss) :
    ShowsAll (gap ++ (t ++ u)) (s :: ss) := by
  intro r hr
  obtain ⟨hclose, hsigns⟩ := hu r hr
  obtain ⟨hclose', hsigns'⟩ := hgap.signs_append (t ++ (u ++ r))
  rw [List.append_assoc, List.append_assoc]
  refine ⟨hclose', ?_⟩
  rw [hsigns', h _ hclose, hsigns, itemSigns, List.append_assoc]

theorem one (hgap : gap.IsBlank) (h : t.Shows s) : ShowsAll (gap ++ t) [s] := by
  have hcons := cons hgap h nil
  rwa [List.append_nil] at hcons

end ShowsAll

theorem closes_closing (r : Text) : Closes (0x29 :: r) := fun b hb => by
  obtain rfl := Option.some.inj hb
  decide

theorem signs_closing (r : Text) : signs (0x29 :: r) = .closing :: r.signs := rfl

theorem signs_opening (r : Text) : signs (0x28 :: r) = .opening :: r.signs := rfl

/-- **A word and sheets behind it, in parentheses, are a list.** -/
theorem shows_list (hhead : head.IsWord) (ht : t.ShowsAll ss) :
    Shows ("(" ++ head ++ t ++ ")") (.list (.word head :: ss)) := by
  intro r hr
  obtain ⟨hclose, hsigns⟩ := ht (0x29 :: r) (closes_closing r)
  have hsplit : "(" ++ head ++ t ++ ")" ++ r = 0x28 :: (head ++ (t ++ 0x29 :: r)) := by
    have hopening : ofString "(" = [0x28] := by decide
    have hclosing : ofString ")" = [0x29] := by decide
    rw [hopening, hclosing, List.append_assoc, List.append_assoc, List.append_assoc]
    rfl
  rw [hsplit, signs_opening, hhead _ hclose, hsigns, signs_closing, Sheet.signs, itemSigns,
    Sheet.signs]
  simp

end Text

end YouthLang

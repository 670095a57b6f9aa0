import Mathlib.Data.List.DropRight
import YouthLang.Prompt
import YouthLang.Proofs.Scanning.Joined

/-!
# Proofs/Entries — typed lines are made up into entries

Every line that is read goes into one entry.  `OpenLines` are lines that wait for more, `WholeLines`
those of an entry; `entriesFrom_eq` cuts the lines of a typed text into such groups, so that an entry
has the lines of its group and no others.  What is heard of the entries ends with the first command to
quit (`heard`), and `read_heard` says what that means for the lines.
-/

namespace YouthLang

/-! ## Lines -/

namespace Text

/-- Lines with newlines between them. -/
abbrev joined (ls : List Text) : Text := join [newline] ls

theorem lines_eq_singleton {t : Text} (h : newline ∉ t) : t.lines = [t] := by
  induction t with
  | nil => rfl
  | cons c rest ih =>
    rw [List.mem_cons, not_or] at h
    have ih : splitOn newline rest = [rest] := ih h.2
    simp [lines, splitOn, Ne.symm h.1, ih]

theorem not_mem_of_mem_splitOn {b : UInt8} {t l : Text} (h : l ∈ splitOn b t) : b ∉ l := by
  induction t generalizing l with
  | nil => simp_all [splitOn]
  | cons c rest ih =>
    simp only [splitOn] at h
    split at h
    next hc =>
      rcases List.mem_cons.mp h with rfl | h
      · exact List.not_mem_nil
      · exact ih h
    next hc =>
      cases hpieces : splitOn b rest with
      | nil => exact absurd hpieces (splitOn_ne_nil b rest)
      | cons piece pieces =>
        rw [hpieces] at h ih
        rcases List.mem_cons.mp h with rfl | h
        · simp [Ne.symm hc, ih List.mem_cons_self]
        · exact ih (List.mem_cons_of_mem _ h)

theorem joined_append {ls ms : List Text} (hls : ls ≠ []) (hms : ms ≠ []) :
    joined (ls ++ ms) = joined ls ++ newline :: joined ms := by
  obtain ⟨m, ms, rfl⟩ := List.exists_cons_of_ne_nil hms
  induction ls with
  | nil => exact absurd rfl hls
  | cons first rest ih =>
    cases rest with
    | nil => simp [joined, join]
    | cons second rest =>
      calc joined (first :: second :: rest ++ m :: ms)
          = first ++ newline :: joined (second :: rest ++ m :: ms) := by simp [joined, join]
        _ = joined (first :: second :: rest) ++ newline :: joined (m :: ms) := by
          rw [ih (List.cons_ne_nil _ _)]
          simp [joined, join]

/-- Lines that are joined are the lines of the text. -/
theorem lines_joined {ls : List Text} (hne : ls ≠ []) (h : ∀ l ∈ ls, newline ∉ l) :
    (joined ls).lines = ls := by
  induction ls with
  | nil => exact absurd rfl hne
  | cons l ls ih =>
    obtain ⟨hhere, hrest⟩ := List.forall_mem_cons.mp h
    by_cases hls : ls = []
    · subst hls
      exact lines_eq_singleton hhere
    · have hsplit := joined_append (List.cons_ne_nil l []) hls
      rw [List.singleton_append] at hsplit
      rw [hsplit, lines_append_newline, ih hls hrest]
      exact congrArg (· ++ ls) (lines_eq_singleton hhere)

/-- Texts of some lines each, joined, are all the lines joined. -/
theorem joined_map_joined {groups : List (List Text)} (h : ∀ g ∈ groups, g ≠ []) :
    joined (groups.map joined) = joined groups.flatten := by
  induction groups with
  | nil => rfl
  | cons g groups ih =>
    obtain ⟨hhere, hrest⟩ := List.forall_mem_cons.mp h
    cases groups with
    | nil => simp [joined, join]
    | cons g' groups =>
      have hflatten : (g' :: groups).flatten ≠ [] := by
        simp [(List.forall_mem_cons.mp hrest).1]
      rw [List.flatten_cons, joined_append hhere hflatten, ← ih hrest]
      simp [joined, join]

end Text

/-! ## White space at the ends -/

namespace Text

/-- The glyphs of a text without white space at their start. -/
def started (t : Text) : List Glyph := t.glyphs.dropWhile Glyph.isBlank

theorem trim_eq (t : Text) : t.trim = ofGlyphs (t.started.rdropWhile Glyph.isBlank) := rfl

theorem started_ne_nil {t : Text} (h : t.isBlank = false) : t.started ≠ [] := by
  intro hnil
  simp [isBlank, trim_eq, hnil, ofGlyphs] at h

/-- White space at the start of a text does not reach over a newline behind something else. -/
theorem started_append_newline {p : Text} (h : p.isBlank = false) (q : Text) :
    (p ++ newline :: q).started = p.started ++ .char '\n' :: q.glyphs := by
  have hne : (p.glyphs.dropWhile Glyph.isBlank).isEmpty = false := by
    simpa [started] using started_ne_nil h
  simp [started, glyphs_append_newline, List.dropWhile_append, hne]

/-- A trimmed text starts with what is not white space. -/
theorem head?_trim {t : Text} {g : Glyph} {rest : List Glyph} (h : t.started = g :: rest) :
    t.trim.head? = g.encode.head? := by
  have hblank : g.isBlank = false := by
    have hglyphs : t.glyphs.dropWhile Glyph.isBlank = g :: rest := h
    have hfirst := List.head?_dropWhile_not Glyph.isBlank t.glyphs
    rwa [hglyphs] at hfirst
  have hkept : (g :: rest).rdropWhile Glyph.isBlank ≠ [] := by
    rw [Ne, List.rdropWhile_eq_nil_iff]
    intro hall
    simp [hall g List.mem_cons_self] at hblank
  obtain ⟨g', kept, hcons⟩ := List.exists_cons_of_ne_nil hkept
  have hprefix := List.rdropWhile_prefix Glyph.isBlank (g :: rest)
  rw [hcons] at hprefix
  obtain rfl : g' = g := by
    obtain ⟨more, hmore⟩ := hprefix
    exact (List.cons.inj hmore).1
  obtain ⟨b, bs, hb⟩ := List.exists_cons_of_ne_nil g'.encode_ne_nil
  rw [trim_eq, h, hcons]
  simp [ofGlyphs, hb]

/-- What follows a newline is trimmed away as a whole, or the newline stays. -/
theorem trim_append_newline {p : Text} (h : p.isBlank = false) (q : Text) :
    (p ++ newline :: q).trim = p.trim ∨ newline ∈ (p ++ newline :: q).trim := by
  have hbreak : Glyph.isBlank (.char '\n') = true := by decide
  rw [trim_eq, trim_eq, started_append_newline h, List.rdropWhile, List.rdropWhile,
    List.reverse_append, List.dropWhile_append]
  split
  next => exact .inl rfl
  next hkept =>
    right
    rw [List.reverse_cons, List.dropWhile_append] at hkept ⊢
    split
    next hnone => simp [hnone, hbreak] at hkept
    next =>
      have hnewline : newline ∈ (Glyph.char '\n').encode := by decide
      simp only [List.reverse_append, List.reverse_reverse, ofGlyphs, List.mem_flatMap]
      exact ⟨.char '\n', by simp, hnewline⟩

theorem isBlank_append_newline {p : Text} (h : p.isBlank = false) (q : Text) :
    (p ++ newline :: q).isBlank = false := by
  rw [isBlank, List.isEmpty_eq_false_iff] at h ⊢
  rcases trim_append_newline (by rwa [isBlank, List.isEmpty_eq_false_iff]) q with htrim | hmem
  · rwa [htrim]
  · exact List.ne_nil_of_mem hmem

end Text

/-- A source of several lines is a command only if its first line is one. -/
theorem Command.isCommand_append_newline {p q : Text} (h : p.isBlank = false)
    (hcommand : isCommand (p ++ Text.newline :: q) = true) : isCommand p = true := by
  obtain ⟨g, rest, hstarted⟩ := List.exists_cons_of_ne_nil (Text.started_ne_nil h)
  have hhead : (p ++ Text.newline :: q).trim.head? = p.trim.head? := by
    rw [Text.head?_trim hstarted, Text.head?_trim (t := p ++ Text.newline :: q)
      (by rw [Text.started_append_newline h, hstarted]; rfl)]
  simp only [isCommand, Bool.or_eq_true, decide_eq_true_eq] at hcommand ⊢
  rcases hcommand with hexit | hcolon
  · rcases Text.trim_append_newline h q with htrim | hmem
    · exact .inl (htrim ▸ hexit)
    · rw [hexit] at hmem
      exact absurd hmem (by decide)
  · exact .inr (hhead ▸ hcolon)

/-! ## How lines go on -/

/-- Lines that wait for more: none of them has made an entry of the ones so far. -/
inductive OpenLines : List Text → Prop
  | first {line : Text} (h : isEntry none line = false) : OpenLines [line]
  | next {ls : List Text} {line : Text} (hls : OpenLines ls)
      (h : isEntry (some (Text.joined ls)) line = false) : OpenLines (ls ++ [line])

/-- The lines of an entry: the last of them, and only that one, makes an entry of the ones so far. -/
inductive WholeLines : List Text → Prop
  | single {line : Text} (h : isEntry none line = true) : WholeLines [line]
  | last {ls : List Text} {line : Text} (hls : OpenLines ls)
      (h : isEntry (some (Text.joined ls)) line = true) : WholeLines (ls ++ [line])

/-- The source of some lines, `none` if there are none. -/
def sourceOf? (ls : List Text) : Option Text := if ls = [] then none else some (Text.joined ls)

theorem OpenLines.ne_nil {ls : List Text} (h : OpenLines ls) : ls ≠ [] := by
  cases h with
  | first h => exact List.cons_ne_nil _ _
  | next hls h => simp

theorem WholeLines.ne_nil {ls : List Text} (h : WholeLines ls) : ls ≠ [] := by
  cases h with
  | single h => exact List.cons_ne_nil _ _
  | last hls h => simp

theorem OpenLines.extended {ls : List Text} (h : OpenLines ls) (line : Text) :
    YouthLang.extended (some (Text.joined ls)) line = Text.joined (ls ++ [line]) := by
  rw [Text.joined_append h.ne_nil (List.cons_ne_nil _ _)]
  simp [YouthLang.extended, Text.joined, Text.join]

theorem isEntry_eq_false {pending : Option Text} {line : Text} (h : isEntry pending line = false) :
    (YouthLang.extended pending line).isBlank = false
      ∧ isIncomplete (YouthLang.extended pending line) = true := by
  simp only [isEntry, Bool.or_eq_false_iff, Bool.not_eq_false'] at h
  exact ⟨h.1.2, h.2⟩

/-- Lines that wait for more are neither blank nor complete. -/
theorem OpenLines.incomplete {ls : List Text} (h : OpenLines ls) :
    (Text.joined ls).isBlank = false ∧ isIncomplete (Text.joined ls) = true := by
  cases h with
  | first h => exact isEntry_eq_false h
  | next hls h =>
    rw [← hls.extended]
    exact isEntry_eq_false h

/-- Lines that wait for more have done so from the first line on. -/
theorem OpenLines.take {ls : List Text} (h : OpenLines ls) {k : Nat} (hpos : 0 < k) :
    OpenLines (ls.take k) := by
  induction h with
  | first h =>
    rw [List.take_of_length_le (Nat.succ_le_of_lt hpos)]
    exact .first h
  | @next ls line hls h ih =>
    by_cases hk : k ≤ ls.length
    · rwa [List.take_append_of_le_length hk]
    · rw [List.take_of_length_le (by simp; omega)]
      exact .next hls h

/-- With one more line a source that is neither blank nor a command is no command either. -/
theorem not_isCommand_append {ls : List Text} (h : OpenLines ls)
    (hcommand : Command.isCommand (Text.joined ls) = false) (line : Text) :
    Command.isCommand (Text.joined (ls ++ [line])) = false := by
  rw [Text.joined_append h.ne_nil (List.cons_ne_nil _ _), ← Bool.not_eq_true]
  intro hmore
  have hfirst := Command.isCommand_append_newline h.incomplete.1 hmore
  rw [hcommand] at hfirst
  cases hfirst

/-- Lines that wait for more are no command. -/
theorem OpenLines.isCommand_eq {ls : List Text} (h : OpenLines ls) :
    Command.isCommand (Text.joined ls) = false := by
  induction h with
  | @first line h =>
    simp only [isEntry, Option.isNone_none, Bool.true_and, Bool.or_eq_false_iff] at h
    exact h.1.1
  | next hls h ih => exact not_isCommand_append hls ih _

theorem OpenLines.first_not_command {first : Text} {rest : List Text}
    (h : OpenLines (first :: rest)) : Command.isCommand first = false := by
  have hfirst : OpenLines [first] := h.take Nat.one_pos
  exact hfirst.isCommand_eq

/-! ## The entries of lines -/

/-- Lines are cut into those of entries and those that still wait for more.  The induction is on the lines
that are still to be read; those read since the last entry wait for more. -/
theorem entriesFrom_eq : ∀ (rest init : List Text), (init = [] ∨ OpenLines init) →
    ∃ (groups : List (List Text)) (left : List Text), init ++ rest = groups.flatten ++ left
      ∧ entriesFrom (sourceOf? init) rest = (groups.map Text.joined, sourceOf? left)
      ∧ (∀ g ∈ groups, WholeLines g) ∧ (left = [] ∨ OpenLines left)
  | [], init, hinit => ⟨[], init, by simp, by simp [entriesFrom], by simp, hinit⟩
  | line :: rest, init, hinit => by
      have hextended : extended (sourceOf? init) line = Text.joined (init ++ [line]) := by
        rcases hinit with rfl | hopen
        · rfl
        · rw [sourceOf?, if_neg hopen.ne_nil, hopen.extended]
      cases hentry : isEntry (sourceOf? init) line with
      | true =>
        have hwhole : WholeLines (init ++ [line]) := by
          rcases hinit with rfl | hopen
          · exact .single hentry
          · rw [sourceOf?, if_neg hopen.ne_nil] at hentry
            exact .last hopen hentry
        obtain ⟨groups, left, hlines, hentries, hgroups, hleft⟩ :=
          entriesFrom_eq rest [] (.inl rfl)
        have hentries : entriesFrom none rest = (groups.map Text.joined, sourceOf? left) := hentries
        refine ⟨(init ++ [line]) :: groups, left, ?_, ?_, ?_, hleft⟩
        · rw [List.flatten_cons, List.append_assoc, ← hlines]
          simp
        · simp only [entriesFrom, hentry, if_true, hentries, hextended, List.map_cons]
        · exact List.forall_mem_cons.mpr ⟨hwhole, hgroups⟩
      | false =>
        have hopen : OpenLines (init ++ [line]) := by
          rcases hinit with rfl | hopen
          · exact .first hentry
          · rw [sourceOf?, if_neg hopen.ne_nil] at hentry
            exact .next hopen hentry
        obtain ⟨groups, left, hlines, hentries, hgroups, hleft⟩ :=
          entriesFrom_eq rest (init ++ [line]) (.inr hopen)
        refine ⟨groups, left, ?_, ?_, hgroups, hleft⟩
        · rw [← hlines]
          simp
        · rw [sourceOf?, if_neg hopen.ne_nil] at hentries
          simp only [entriesFrom, hentry, Bool.false_eq_true, if_false, hextended, hentries]

/-- The lines of one entry: whole, or waiting for more when reading has come to the end. -/
structure Cut (lines : List Text) (groups : List (List Text)) : Prop where
  flatten : groups.flatten = lines
  whole : ∀ before g after, groups = before ++ g :: after →
    WholeLines g ∨ OpenLines g ∧ after = []

/-- The entries of lines that are all read are those of a cut of the lines. -/
theorem entries_eq {t : Typed} (h : t.isCut = false) :
    ∃ groups, Cut t.lines groups ∧ entries t = groups.map Text.joined := by
  obtain ⟨groups, left, hlines, hentries, hgroups, hleft⟩ := entriesFrom_eq t.lines [] (.inl rfl)
  have hentries : entriesFrom none t.lines = (groups.map Text.joined, sourceOf? left) := hentries
  have heq : entries t = groups.map Text.joined ++ (sourceOf? left).toList := by
    simp [entries, hentries, h]
  rcases hleft with rfl | hopen
  · refine ⟨groups, ⟨by simpa using hlines.symm, ?_⟩, by simpa [sourceOf?] using heq⟩
    rintro before g after rfl
    exact .inl (hgroups g (by simp))
  · refine ⟨groups ++ [left], ⟨by simpa using hlines.symm, ?_⟩,
      by simpa [sourceOf?, hopen.ne_nil] using heq⟩
    intro before g after hsplit
    rcases List.eq_nil_or_concat after with rfl | ⟨after, last, rfl⟩
    · obtain ⟨rfl, hlast⟩ := List.append_inj' hsplit rfl
      obtain rfl := List.singleton_inj.mp hlast
      exact .inr ⟨hopen, rfl⟩
    · rw [List.concat_eq_append, ← List.cons_append, ← List.append_assoc] at hsplit
      obtain ⟨rfl, -⟩ := List.append_inj' hsplit rfl
      exact .inl (hgroups g (by simp))

/-! ## What is read -/

/-- Whether an entry is a command to quit. -/
def quits (entry : Text) : Bool :=
  Command.isCommand entry && decide (Command.ofWords entry.trim = .quit)

/-- The entries up to and including the first command to quit, or all of them. -/
def heard (entries : List Text) : List Text := entries.take (entries.findIdx quits + 1)

@[simp] theorem heard_nil : heard [] = [] := rfl

theorem heard_cons (entry : Text) (rest : List Text) :
    heard (entry :: rest) = if quits entry then [entry] else entry :: heard rest := by
  cases hquits : quits entry <;> simp [heard, List.findIdx_cons, hquits]

/-- Without a command to quit all entries are heard. -/
theorem heard_eq_self : ∀ {entries : List Text}, (∀ e ∈ heard entries, quits e = false) →
    heard entries = entries
  | [], _ => rfl
  | entry :: rest, h => by
      cases hquits : quits entry with
      | true => simp [heard_cons, hquits] at h
      | false =>
        simp only [heard_cons, hquits, Bool.false_eq_true, if_false, List.forall_mem_cons] at h ⊢
        rw [heard_eq_self h.2]

/-- Nothing is heard after a command to quit. -/
theorem eq_nil_of_quits : ∀ {entries before after : List Text} {e : Text},
    heard entries = before ++ e :: after → quits e = true → after = []
  | [], before, after, e, h, _ => by simp at h
  | entry :: rest, [], after, e, h, he => by
      rw [heard_cons] at h
      split at h
      next => exact (List.cons.inj h).2.symm
      next hquits =>
        obtain ⟨rfl, -⟩ := List.cons.inj h
        exact absurd he hquits
  | entry :: rest, b :: before, after, e, h, he => by
      rw [heard_cons] at h
      split at h
      next => simp at h
      next => exact eq_nil_of_quits (List.cons.inj h).2 he

/-- What is read of lines: entries that are made up of the lines, one after the other, up to and
including the first command to quit. -/
structure Read (lines entries : List Text) : Prop where
  /-- The lines of the entries are the first of all lines, each once and in order. -/
  inOrder : entries.flatMap Text.lines <+: lines
  joined : Text.joined entries
    = Text.joined (lines.take (entries.flatMap Text.lines).length)
  /-- Reading goes on to the end unless it is told to quit. -/
  all : (∀ e ∈ entries, quits e = false) → entries.flatMap Text.lines = lines
  /-- Nothing is read after a command to quit. -/
  quit : ∀ before e after, entries = before ++ e :: after → quits e = true → after = []
  /-- Every source that an entry has grown from waited for more. -/
  minimal : ∀ e ∈ entries, ∀ k, 0 < k → k < e.lines.length →
    isIncomplete (Text.joined (e.lines.take k)) = true
  /-- An entry of several lines waits for more only if there are no more. -/
  complete : ∀ before e after, entries = before ++ e :: after → 1 < e.lines.length →
    isIncomplete e = true → after = [] ∧ entries.flatMap Text.lines = lines
  /-- A line is a command where it starts an entry, and then it is all of it. -/
  command : ∀ e ∈ entries, ∀ first rest, e.lines = first :: rest →
    (Command.isCommand e = Command.isCommand first) ∧ (Command.isCommand first = true → rest = [])

/-- What a group of lines is as an entry. -/
theorem spec_of_group {g : List Text} (h : WholeLines g ∨ OpenLines g) :
    g ≠ [] ∧ (∀ k, 0 < k → k < g.length → isIncomplete (Text.joined (g.take k)) = true)
      ∧ ∀ first rest, g = first :: rest →
        (Command.isCommand (Text.joined g) = Command.isCommand first)
          ∧ (Command.isCommand first = true → rest = []) := by
  rcases h with hwhole | hopen
  · refine ⟨hwhole.ne_nil, ?_⟩
    cases hwhole with
    | @single line h =>
      refine ⟨fun k hpos hlt => ?_, fun first rest heq => ?_⟩
      · simp only [List.length_singleton] at hlt
        omega
      · obtain ⟨rfl, rfl⟩ := List.cons.inj heq
        exact ⟨rfl, fun _ => rfl⟩
    | @last ls line hls h =>
      refine ⟨fun k hpos hlt => ?_, fun first rest heq => ?_⟩
      · rw [List.length_append, List.length_singleton] at hlt
        rw [List.take_append_of_le_length (Nat.le_of_lt_succ hlt)]
        exact (hls.take hpos).incomplete.2
      · obtain ⟨first', rest', rfl⟩ := List.exists_cons_of_ne_nil hls.ne_nil
        obtain ⟨rfl, rfl⟩ := List.cons.inj heq
        rw [not_isCommand_append hls hls.isCommand_eq, hls.first_not_command]
        exact ⟨rfl, nofun⟩
  · refine ⟨hopen.ne_nil, fun k hpos _ => (hopen.take hpos).incomplete.2, ?_⟩
    rintro first rest rfl
    rw [hopen.isCommand_eq, hopen.first_not_command]
    exact ⟨rfl, nofun⟩

/-- An entry of several lines that is whole does not wait for more. -/
theorem WholeLines.complete {g : List Text} (h : WholeLines g) (hlines : 1 < g.length) :
    isIncomplete (Text.joined g) = false := by
  cases h with
  | single h => simp at hlines
  | @last ls line hls h =>
    have hblank : (Text.joined (ls ++ [line])).isBlank = false := by
      rw [Text.joined_append hls.ne_nil (List.cons_ne_nil _ _)]
      exact Text.isBlank_append_newline hls.incomplete.1 _
    simp only [isEntry, hls.extended, hblank, Bool.or_false] at h
    simpa using h

namespace Cut

variable {lines : List Text} {groups kept : List (List Text)} {g : List Text}

theorem whole_or_open (hc : Cut lines groups) (hg : g ∈ groups) : WholeLines g ∨ OpenLines g := by
  obtain ⟨before, after, hsplit⟩ := List.append_of_mem hg
  exact (hc.whole before g after hsplit).imp_right And.left

/-- The lines of an entry are those that it was cut to. -/
theorem lines_joined (hc : Cut lines groups) (hlines : ∀ l ∈ lines, Text.newline ∉ l)
    (hg : g ∈ groups) : (Text.joined g).lines = g := by
  refine Text.lines_joined (spec_of_group (hc.whole_or_open hg)).1 fun l hl => hlines l ?_
  rw [← hc.flatten]
  exact List.mem_flatten_of_mem hg hl

theorem flatMap_lines (hc : Cut lines groups) (hlines : ∀ l ∈ lines, Text.newline ∉ l)
    (hkept : kept ⊆ groups) : (kept.map Text.joined).flatMap Text.lines = kept.flatten := by
  rw [List.flatMap_map, List.flatMap_def,
    List.map_congr_left fun g hg => hc.lines_joined hlines (hkept hg), List.map_id']

/-- **The first groups of a cut are read**, if they are all or end with a command to quit. -/
theorem read (hc : Cut lines groups) (hlines : ∀ l ∈ lines, Text.newline ∉ l) (hkept : kept <+: groups)
    (hall : (∀ e ∈ kept.map Text.joined, quits e = false) → kept = groups)
    (hquit : ∀ before e after, kept.map Text.joined = before ++ e :: after → quits e = true →
      after = []) : Read lines (kept.map Text.joined) := by
  have hread := hc.flatMap_lines hlines hkept.subset
  have hprefix : kept.flatten <+: lines := by
    obtain ⟨more, rfl⟩ := hkept
    rw [← hc.flatten, List.flatten_append]
    exact List.prefix_append _ _
  have hgroup : ∀ e ∈ kept.map Text.joined, ∃ g ∈ groups, e = Text.joined g ∧ e.lines = g := by
    intro e he
    obtain ⟨g, hg, rfl⟩ := List.mem_map.mp he
    exact ⟨g, hkept.subset hg, rfl, hc.lines_joined hlines (hkept.subset hg)⟩
  refine ⟨?inOrder, ?joined, ?all, hquit, ?minimal, ?complete, ?command⟩
  case inOrder => rwa [hread]
  case joined =>
    rw [hread, ← List.prefix_iff_eq_take.mp hprefix, Text.joined_map_joined fun g hg =>
      (spec_of_group (hc.whole_or_open (hkept.subset hg))).1]
  case all =>
    intro hnone
    rw [hread, hall hnone, hc.flatten]
  case minimal =>
    intro e he k hpos hlt
    obtain ⟨g, hg, rfl, heq⟩ := hgroup e he
    rw [heq] at hlt ⊢
    exact (spec_of_group (hc.whole_or_open hg)).2.1 k hpos hlt
  case complete =>
    -- An entry of several lines that is still incomplete cannot be whole, so it is the last group.
    intro before e after hsplit hlt hincomplete
    obtain ⟨kept₁, kept₂, rfl, rfl, hrest⟩ := List.map_eq_append_iff.mp hsplit
    obtain ⟨g, kept₃, rfl, rfl, rfl⟩ := List.map_eq_cons_iff.mp hrest
    obtain ⟨more, hmore⟩ := hkept
    have hsplit' : groups = kept₁ ++ g :: (kept₃ ++ more) := by
      rw [← hmore]
      simp
    rw [hc.lines_joined hlines (by simp [hsplit'])] at hlt
    rcases hc.whole kept₁ g _ hsplit' with hwhole | ⟨-, hnil⟩
    · rw [hwhole.complete hlt] at hincomplete
      cases hincomplete
    · obtain ⟨rfl, rfl⟩ := List.append_eq_nil_iff.mp hnil
      rw [List.append_nil] at hmore
      exact ⟨rfl, by rw [hread, hmore, hc.flatten]⟩
  case command =>
    intro e he first rest hfirst
    obtain ⟨g, hg, rfl, heq⟩ := hgroup e he
    exact (spec_of_group (hc.whole_or_open hg)).2.2 first rest (heq ▸ hfirst)

end Cut

/-- **The entries that are read have all the lines**, each once and in order. -/
theorem read_heard {t : Typed} (hcut : t.isCut = false) (hlines : ∀ l ∈ t.lines, Text.newline ∉ l) :
    Read t.lines (heard (entries t)) := by
  obtain ⟨groups, hc, hentries⟩ := entries_eq hcut
  obtain ⟨kept, hkept, hheard⟩ : ∃ kept, kept <+: groups
      ∧ heard (entries t) = kept.map Text.joined := by
    rw [hentries]
    exact ⟨groups.take _, List.take_prefix _ _, (List.map_take ..).symm⟩
  rw [hheard]
  refine hc.read hlines hkept (fun hnone => ?_) fun before e after hsplit he =>
    eq_nil_of_quits (hheard.trans hsplit) he
  have hlength := congrArg List.length (heard_eq_self (hheard ▸ hnone))
  rw [hheard, hentries, List.length_map, List.length_map] at hlength
  exact hkept.eq_of_length hlength

end YouthLang

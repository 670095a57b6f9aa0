import Mathlib.Data.List.TakeWhile
import YouthLang.Proofs.Scanning.Partition
import YouthLang.Text.Framed

/-!
# Proofs/Scanning/Numeral — numerals as bytes

A numeral is digits, or digits, a point and digits (`Text.numeral`).  What is found behind a digit is
a numeral (`Content.numeral_eq`).
-/

namespace YouthLang

/-- Decimal digits. -/
def Text.IsDigits (t : Text) : Prop := ∀ b ∈ t, Text.isDecimal b = true

/-- A numeral: digits, or digits, a point and digits. -/
def Text.numeral (whole fraction : Text) : Text :=
  if fraction = [] then whole else whole ++ "." ++ fraction

/-- A digit is one byte. -/
theorem Glyph.encode_of_isDigit {g : Glyph} (h : g.isDigit = true) :
    ∃ b, g.encode = [b] ∧ Text.isDecimal b = true := by
  cases g with
  | stray b => simp [isDigit] at h
  | char c =>
    simp only [isDigit, Bool.and_eq_true, decide_eq_true_eq] at h
    have hdigit : c.isDigit = true := by
      simp only [Char.isDigit, Bool.and_eq_true, decide_eq_true_eq]
      exact h
    have hle : c.val.toNat ≤ 57 := UInt32.le_iff_toNat_le.mp h.2
    refine ⟨c.toUInt8, ?_, Text.isDecimal_toUInt8_of_isDigit hdigit⟩
    have hshort : c.val.toNat ≤ 127 := by omega
    simp only [encode, String.utf8EncodeChar, hshort, if_true]
    rfl

theorem Text.isDigits_ofGlyphs {gs : List Glyph} (h : ∀ g ∈ gs, g.isDigit = true) :
    (Text.ofGlyphs gs).IsDigits := by
  intro b hb
  obtain ⟨g, hg, hmem⟩ := List.mem_flatMap.mp hb
  obtain ⟨b', hencode, hdigit⟩ := Glyph.encode_of_isDigit (h g hg)
  rw [hencode] at hmem
  rwa [List.mem_singleton.mp hmem]

namespace Content

variable {first : Glyph} {rest : List Glyph}

/-- Behind the whole digits stands a point with the digits behind it, or nothing that belongs to the
numeral. -/
theorem fraction_cases (gs : List Glyph) : fraction gs = []
    ∨ ∃ more, gs = .char '.' :: (fraction gs ++ more) ∧ ∀ g ∈ fraction gs, g.isDigit = true := by
  unfold fraction
  split
  · next rest =>
    obtain ⟨more, hmore⟩ := List.takeWhile_prefix (l := rest) Glyph.isDigit
    exact .inr ⟨more, by rw [hmore], fun g hg => List.mem_takeWhile_imp hg⟩
  · exact .inl rfl

/-- The digits of a numeral and what stands behind them. -/
theorem whole_append_drop (rest : List Glyph) :
    rest.takeWhile Glyph.isDigit ++ rest.drop (rest.takeWhile Glyph.isDigit).length = rest :=
  List.prefix_iff_eq_append.mp (List.takeWhile_prefix _)

/-- A numeral is spelled by its digits. -/
theorem ofGlyphs_numeral (first : Glyph) (rest : List Glyph) :
    Text.ofGlyphs (first :: rest.take (numeral first rest).2)
      = Text.numeral (Text.ofGlyphs (first :: rest.takeWhile Glyph.isDigit))
        (Text.ofGlyphs (fraction (rest.drop (rest.takeWhile Glyph.isDigit).length))) := by
  have hsplit := whole_append_drop rest
  rw [numeral_length]
  generalize rest.takeWhile Glyph.isDigit = more at hsplit ⊢
  generalize rest.drop more.length = behind at hsplit ⊢
  subst hsplit
  rw [List.take_length_add_append, Text.numeral]
  obtain hnone | ⟨_, hpoint, -⟩ := fraction_cases behind
  · simp [hnone]
  · by_cases hnone : fraction behind = []
    · simp [hnone]
    · have hspelled : Text.ofGlyphs (fraction behind) ≠ [] :=
        List.ne_nil_of_length_pos (Text.length_ofGlyphs_pos hnone)
      rw [if_neg hnone, if_neg hspelled]
      have htake : behind.take ((fraction behind).length + 1) = .char '.' :: fraction behind := by
        generalize fraction behind = places at hpoint ⊢
        rw [hpoint, List.take_succ_cons, List.take_left' rfl]
      have hdot : (Glyph.char '.').encode = Text.ofString "." := by decide
      rw [htake, ← List.cons_append, Text.ofGlyphs_append, Text.ofGlyphs_cons (.char '.'), hdot,
        List.append_assoc]

/-- **A numeral is digits, or digits, a point and digits**, and it is a number if there is one near
it. -/
theorem numeral_eq (hfirst : first.isDigit = true) : ∃ whole fraction : Text,
    whole ≠ [] ∧ whole.IsDigits ∧ fraction.IsDigits
      ∧ Text.ofGlyphs (first :: rest.take (numeral first rest).2) = Text.numeral whole fraction
      ∧ (numeral first rest).1 = (Number.ofNumeral? whole fraction).elim
          (.refused (.unrepresentable (Text.numeral whole fraction))) (.token ∘ .number) := by
  have hwhole : ∀ g ∈ first :: rest.takeWhile Glyph.isDigit, g.isDigit = true :=
    List.forall_mem_cons.mpr ⟨hfirst, fun g hg => List.mem_takeWhile_imp hg⟩
  have hplaces : (Text.ofGlyphs
      (fraction (rest.drop (rest.takeWhile Glyph.isDigit).length))).IsDigits := by
    obtain hnone | ⟨_, -, hdigits⟩ :=
      fraction_cases (rest.drop (rest.takeWhile Glyph.isDigit).length)
    · rw [hnone]
      exact List.forall_mem_nil _
    · exact Text.isDigits_ofGlyphs hdigits
  refine ⟨_, _, List.ne_nil_of_length_pos (Text.length_ofGlyphs_pos (List.cons_ne_nil _ _)),
    Text.isDigits_ofGlyphs hwhole, hplaces, ofGlyphs_numeral first rest, ?_⟩
  have hspelled := ofGlyphs_numeral first rest
  rw [numeral_length] at hspelled
  unfold numeral
  simp only [hspelled]
  generalize Number.ofNumeral? _ _ = value?
  cases value? <;> rfl

end Content

end YouthLang

import YouthLang.Number.Notation

/-!
# Text/Framed — texts one behind the other

A framed text stands behind its length and a colon, so that any bytes may follow it.
-/

namespace YouthLang.Text

/-- Whether a byte is a decimal digit. -/
def isDecimal (b : UInt8) : Bool := 0x30 ≤ b && b ≤ 0x39

/-- The byte between the length and the text. -/
def frameMark : UInt8 := 0x3A

/-- A text behind its length. -/
def frame (t : Text) : Text := ofNat t.length ++ frameMark :: t

/-- The framed text at the head of a text, and what follows it. -/
def unframe? (t : Text) : Option (Text × Text) :=
  let digits := t.takeWhile isDecimal
  match t.dropWhile isDecimal with
  | [] => none
  | mark :: rest =>
    let length := Number.digitsValue digits
    if mark = frameMark && length ≤ rest.length then some (rest.take length, rest.drop length)
    else none

/-- Texts framed one behind the other. -/
def frameAll (ts : List Text) : Text := ts.flatMap frame

/-- A digit keeps its number as a byte. -/
theorem toNat_toUInt8_of_isDigit {c : Char} (h : c.isDigit = true) : c.toUInt8.toNat = c.toNat := by
  simp only [Char.isDigit, ge_iff_le, Bool.and_eq_true, decide_eq_true_eq] at h
  have hc : c.toNat ≤ 57 := h.2
  simp only [Char.toUInt8, UInt32.toNat_toUInt8]
  exact Nat.mod_eq_of_lt (by change c.toNat < 256; omega)

theorem isDecimal_toUInt8_of_isDigit {c : Char} (h : c.isDigit = true) :
    isDecimal c.toUInt8 = true := by
  have hn := toNat_toUInt8_of_isDigit h
  simp only [Char.isDigit, ge_iff_le, Bool.and_eq_true, decide_eq_true_eq] at h
  have h₁ : 48 ≤ c.toNat := h.1
  have h₂ : c.toNat ≤ 57 := h.2
  simp only [isDecimal, Bool.and_eq_true, decide_eq_true_eq, UInt8.le_iff_toNat_le]
  exact ⟨by rw [hn]; exact h₁, by rw [hn]; exact h₂⟩

/-- The digits of a number are decimal digits. -/
theorem isDecimal_of_mem_ofNat {n : Nat} {b : UInt8} (h : b ∈ ofNat n) : isDecimal b = true := by
  obtain ⟨c, hc, rfl⟩ := List.mem_map.1 h
  exact isDecimal_toUInt8_of_isDigit (Nat.isDigit_of_mem_toDigits (by decide) (by decide) hc)

theorem foldl_digits (cs : List Char) (h : ∀ c ∈ cs, c.isDigit = true) (n : Nat) :
    (cs.map Char.toUInt8).foldl (fun n b => 10 * n + (b.toNat - 0x30)) n
      = Nat.ofDigitChars 10 cs n := by
  induction cs generalizing n with
  | nil => rfl
  | cons c rest ih =>
    have hc := toNat_toUInt8_of_isDigit (h c (by simp))
    simp only [List.map_cons, List.foldl_cons, hc]
    exact ih (fun c' hc' => h c' (by simp [hc'])) _

/-- **The digits of a number have its value.** -/
theorem digitsValue_ofNat (n : Nat) : Number.digitsValue (ofNat n) = n := by
  rw [Number.digitsValue, ofNat,
    foldl_digits _ (fun c hc => Nat.isDigit_of_mem_toDigits (by decide) (by decide) hc)]
  exact Nat.ofDigitChars_toDigits (by decide) (by decide)

end YouthLang.Text

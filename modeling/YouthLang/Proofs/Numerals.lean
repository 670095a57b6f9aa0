import Mathlib
import YouthLang.Machine
import YouthLang.Proofs.Rounding
import YouthLang.Proofs.Scanning.Spacing

/-!
# Proofs/Numerals — printed numbers read back

A finite number without its sign is the number nearest to the digits chosen for it
(`toFloat?_digits`), and digits before and after the point are a numeral of that value
(`Digits.positional_eq`).  A numeral is one token (`Text.isLexeme_numeral`), so the text of a number is
the number, behind a minus sign if it has one (`scan_plain`).
-/

namespace YouthLang

namespace Number

variable {x y : Float}

/-! ## Numbers without their sign -/

/-- Bits whose exponent is not the last one are the bits of a number. -/
theorem toBits_ofBits {b : UInt64} (h : b.toNat / fractionCount % 0x800 ≠ 0x7FF) :
    (Float.ofBits b).toBits = b := by
  refine UInt64.toBitVec_inj.mp (Float.Model.UnpackedFloat.pack_unpack_of_valid ⟨fun hones => ?_⟩)
  rw [Float.Model.UnpackedFloat.unpackExponent_def] at hones
  have hnat := congrArg BitVec.toNat hones
  rw [BitVec.extractLsb'_toNat, Nat.shiftRight_eq_div_pow] at hnat
  exact absurd hnat h

/-- A finite number has an exponent below the highest. -/
theorem exponentBits_lt (hfinite : isFinite x = true) : exponentBits x < 0x7FF := by
  have hne : exponentBits x ≠ 0x7FF := of_decide_eq_true hfinite
  have hlt : exponentBits x < 0x800 := Nat.mod_lt _ (by decide)
  omega

/-- **Leaving out the sign clears the sign bit.** -/
theorem toBits_absolute (hfinite : isFinite x = true) :
    (absolute x).toBits = x.toBits &&& 0x7FFFFFFFFFFFFFFF := by
  have hexponent := exponentBits_lt hfinite
  have hfraction := fractionBits_lt x
  refine toBits_ofBits ?_
  rw [toNat_bits_and]
  unfold fractionCount at *
  omega

/-- To drop the sign leaves the exponent. -/
theorem exponentBits_absolute (hfinite : isFinite x = true) :
    exponentBits (absolute x) = exponentBits x := by
  have hexponent := exponentBits_lt hfinite
  have hfraction := fractionBits_lt x
  rw [exponentBits, toBits_absolute hfinite, toNat_bits_and]
  unfold fractionCount at *
  omega

/-- It leaves the fraction. -/
theorem fractionBits_absolute (hfinite : isFinite x = true) :
    fractionBits (absolute x) = fractionBits x := by
  have hfraction := fractionBits_lt x
  rw [fractionBits, toBits_absolute hfinite, toNat_bits_and]
  unfold fractionCount at *
  omega

/-- What is finite stays so without its sign. -/
theorem isFinite_absolute (hfinite : isFinite x = true) : isFinite (absolute x) = true := by
  unfold isFinite at *
  rwa [exponentBits_absolute hfinite]

/-- Bits without the sign's are those of a number that is its own absolute value. -/
theorem absolute_eq_of_bits (h : x.toBits &&& 0x7FFFFFFFFFFFFFFF = x.toBits) : absolute x = x := by
  rw [absolute, h, Float.ofBits_toBits]

/-- Once dropped, the sign stays dropped. -/
theorem absolute_absolute (hfinite : isFinite x = true) : absolute (absolute x) = absolute x := by
  refine absolute_eq_of_bits ?_
  rw [toBits_absolute hfinite, UInt64.and_assoc, UInt64.and_self]

/-- **A number that is near something is finite and has no sign.** -/
theorem finite_of_nearest? {r : Ratio} (h : nearest? r = some x) :
    isFinite x = true ∧ isNegative x = false := by
  obtain ⟨hlt, hx⟩ := Option.ite_none_right_eq_some.mp h
  obtain rfl := Option.some.inj hx
  have hnat : (UInt64.ofNat (nearestBits r)).toNat = nearestBits r := by
    rw [UInt64.toNat_ofNat', Nat.mod_eq_of_lt]
    unfold fractionCount at hlt
    omega
  have hexponent : nearestBits r / fractionCount % 0x800 < 0x7FF := by
    unfold fractionCount at *
    omega
  have hbits : (Float.ofBits (UInt64.ofNat (nearestBits r))).toBits = UInt64.ofNat (nearestBits r) :=
    toBits_ofBits (by rw [hnat]; omega)
  constructor
  · unfold isFinite exponentBits
    rw [hbits, hnat, decide_eq_true_eq]
    omega
  · unfold isNegative
    rw [hbits, decide_eq_false_iff_not, ge_iff_le, UInt64.le_iff_toNat_le, hnat]
    have hsign : (0x8000000000000000 : UInt64).toNat = 0x8000000000000000 := rfl
    unfold fractionCount at hlt
    omega

/-- A number is its sign bit and the rest of its bits. -/
theorem toNat_bits_eq (x : Float) : x.toBits.toNat
    = (if isNegative x = true then 0x8000000000000000 else 0)
      + (x.toBits &&& 0x7FFFFFFFFFFFFFFF).toNat := by
  have hmask : (0x7FFFFFFFFFFFFFFF : UInt64).toNat = 2 ^ 63 - 1 := rfl
  have hsign : isNegative x = true ↔ 0x8000000000000000 ≤ x.toBits.toNat := by
    rw [isNegative, decide_eq_true_iff, ge_iff_le, UInt64.le_iff_toNat_le]
    rfl
  have hlt := x.toBits.toNat_lt
  rw [UInt64.toNat_and, hmask, Nat.and_two_pow_sub_one_eq_mod]
  simp only [hsign]
  split <;> omega

/-- A number without a sign is its own absolute value. -/
theorem absolute_of_not_isNegative (h : isNegative x = false) : absolute x = x := by
  refine absolute_eq_of_bits (UInt64.toNat_inj.mp ?_)
  have hbits := toNat_bits_eq x
  rw [h] at hbits
  simpa using hbits.symm

/-- A finite number is told by its sign and the number without it. -/
theorem eq_of_absolute (hx : isFinite x = true) (hy : isFinite y = true)
    (hsign : isNegative x = isNegative y) (h : absolute x = absolute y) : x = y := by
  refine Float.toBits_inj.mp (UInt64.toNat_inj.mp ?_)
  have hbits := congrArg Float.toBits h
  rw [toBits_absolute hx, toBits_absolute hy] at hbits
  rw [toNat_bits_eq x, toNat_bits_eq y, hbits, hsign]

/-! ## Decimals that read back -/

namespace Decimal

/-- A decimal stands for its digits times a power of ten. -/
theorem toRat_value (d : Decimal) : d.value.toRat = d.significand * 10 ^ d.exponent := by
  rw [value, Ratio.toRat_scaled, Nat.cast_ofNat]

/-- Its denominator is a power, so not zero. -/
theorem den_value_pos (d : Decimal) : 0 < d.value.den := Ratio.den_scaled_pos _ (by decide) _

/-- Decimals of one value read as one number. -/
theorem toFloat?_congr {d d' : Decimal} (h : d.value.toRat = d'.value.toRat) :
    d.toFloat? = d'.toFloat? := nearest?_congr d.den_value_pos d'.den_value_pos h

/-- A decimal is chosen on a grid only if it reads back. -/
theorem toFloat?_of_onGrid? {e : Int} {d : Decimal} (h : onGrid? x e = some d) :
    d.toFloat? = some x := by
  have hround := Ratio.round_cases ((magnitude x).shift 10 e)
  unfold onGrid? at h
  simp only at h
  refine of_decide_eq_true (show d.reads x = true from ?_)
  split at h
  · next hlo hhi =>
    obtain rfl := Option.some.inj h
    obtain heq | heq := hround
    · rwa [heq]
    · rwa [heq]
  · next hlo _ => rwa [← Option.some.inj h]
  · next hhi => rwa [← Option.some.inj h]
  · simp at h

/-- What the search for short digits stops at reads back, as that is its test. -/
theorem toFloat?_of_search {k : Int} {d : Decimal} : ∀ {tries n : Nat},
    search x k tries n = some d → d.toFloat? = some x
  | 0, _, h => by simp [search] at h
  | tries + 1, n, h => by
      obtain hgrid | ⟨-, hlater⟩ := Option.or_eq_some_iff.mp h
      · exact toFloat?_of_onGrid? hgrid
      · exact toFloat?_of_search hlater

/-- The exact decimal has the value of the number. -/
theorem toRat_exact (x : Float) : (exact x).value.toRat = (magnitude x).toRat := by
  rw [toRat_value, toRat_magnitude]
  unfold exact
  split
  · next he =>
    obtain ⟨k, hk⟩ := Int.eq_ofNat_of_zero_le he
    simp [hk]
  · next he =>
    obtain ⟨k, hk⟩ := Int.exists_eq_neg_ofNat (Int.le_of_not_le he)
    have hten : (10 : ℚ) = 5 * 2 := by norm_num
    simp only [hk, Int.natAbs_neg, Int.natAbs_natCast, Nat.pow_eq, Nat.cast_mul, Nat.cast_pow,
      Nat.cast_ofNat, zpow_neg, zpow_natCast, hten, mul_pow]
    field_simp

end Decimal

/-- The shortest decimal reads back. -/
theorem toFloat?_shortest (hfinite : isFinite x = true) (hsign : absolute x = x) :
    (shortest x).toFloat? = some x := by
  unfold shortest
  cases hsearch : Decimal.search x (Decimal.point (magnitude x)) 17 1 with
  | none =>
    have hexact := nearest?_of_toRat hfinite (Decimal.den_value_pos _) (Decimal.toRat_exact x)
    rwa [hsign] at hexact
  | some d => exact Decimal.toFloat?_of_search hsearch

/-! ## Digits -/

/-- Digits behind others move those up by a power of ten. -/
theorem digitsValue_append (t u : Text) :
    digitsValue (t ++ u) = digitsValue t * 10 ^ u.length + digitsValue u := by
  have hfoldl : ∀ (u : Text) (n : Nat), u.foldl (fun n b => 10 * n + (b.toNat - 0x30)) n
      = n * 10 ^ u.length + digitsValue u := by
    intro u
    induction u with
    | nil => simp [digitsValue]
    | cons b u ih =>
      intro n
      rw [digitsValue, List.foldl_cons, List.foldl_cons, ih, ih, List.length_cons, Nat.pow_succ]
      ring
  rw [digitsValue, List.foldl_append, hfoldl]
  rfl

/-- Zeros have no value. -/
theorem digitsValue_zeros (n : Nat) : digitsValue (zeros n) = 0 := by
  induction n with
  | zero => rfl
  | succ n ih => exact ih

/-- There are as many as were asked for. -/
theorem length_zeros (n : Nat) : (zeros n).length = n := List.length_replicate

/-- The decimal that some digits stand for. -/
def Digits.decimal (d : Digits) : Decimal := ⟨digitsValue d.digits, d.place - d.digits.length⟩

/-- What is left without the trailing zeros. -/
theorem dropTrailing_append_zeros (t : Text) :
    ∃ n, t = Text.dropTrailing 0x30 t ++ zeros n := by
  have hsplit : t.rdropWhile (· = 0x30) ++ t.rtakeWhile (· = 0x30) = t :=
    List.rdropWhile_append_rtakeWhile
  have hzeros : t.rtakeWhile (· = 0x30) = zeros (t.rtakeWhile (· = 0x30)).length :=
    List.eq_replicate_of_mem fun b hb => of_decide_eq_true (List.mem_rtakeWhile_imp hb :)
  exact ⟨_, hsplit.symm.trans (congrArg _ hzeros)⟩

/-- They are digits. -/
theorem isDigits_zeros (n : Nat) : (zeros n).IsDigits := fun b hb => by
  rw [List.eq_of_mem_replicate hb]
  rfl

/-- So is one of them. -/
theorem isDigits_zero : Text.IsDigits "0" := isDigits_zeros 1

/-- The digits of a decimal have its value. -/
theorem toRat_toDigits (d : Decimal) : d.toDigits.digits ≠ [] ∧ d.toDigits.digits.IsDigits
    ∧ d.toDigits.decimal.value.toRat = d.value.toRat := by
  rw [Decimal.toRat_value, Decimal.toRat_value]
  unfold Decimal.toDigits
  split
  · next hzero =>
    refine ⟨by decide, isDigits_zero, ?_⟩
    have hvalue : digitsValue "0" = 0 := rfl
    rw [Digits.decimal, hvalue, hzero, Nat.cast_zero, zero_mul, zero_mul]
  · next hne =>
    obtain ⟨n, hsplit⟩ := dropTrailing_append_zeros (Text.ofNat d.significand)
    have hvalue := Text.digitsValue_ofNat d.significand
    have hdigits : ∀ b ∈ Text.ofNat d.significand, Text.isDecimal b = true :=
      fun b hb => Text.isDecimal_of_mem_ofNat hb
    simp only [Digits.decimal]
    generalize Text.dropTrailing 0x30 (Text.ofNat d.significand) = digits at hsplit ⊢
    rw [hsplit, digitsValue_append, digitsValue_zeros, length_zeros, Nat.add_zero] at hvalue
    rw [hsplit] at hdigits ⊢
    refine ⟨?_, fun b hb => hdigits b (List.mem_append_left _ hb), ?_⟩
    · rintro rfl
      simp only [digitsValue, List.foldl_nil, Nat.zero_mul] at hvalue
      exact hne hvalue.symm
    · have hplace : ((digits ++ zeros n).length : Int) + d.exponent - digits.length
          = n + d.exponent := by
        rw [List.length_append, length_zeros]
        omega
      rw [hplace, ← hvalue, zpow_add₀ (by norm_num), zpow_natCast, Nat.cast_mul, Nat.cast_pow,
        Nat.cast_ofNat, mul_assoc]

/-- **The digits chosen for a finite number read back** as the number without its sign. -/
theorem toFloat?_digits (hfinite : isFinite x = true) : (digits x).digits ≠ []
    ∧ (digits x).digits.IsDigits ∧ (digits x).decimal.toFloat? = some (absolute x) := by
  unfold digits
  split
  · next hzero =>
    refine ⟨by decide, isDigits_zero, ?_⟩
    refine nearest?_of_toRat hfinite (Decimal.den_value_pos _) ?_
    have hvalue : digitsValue "0" = 0 := rfl
    rw [Decimal.toRat_value, Digits.decimal, hvalue, toRat_magnitude, hzero, Nat.cast_zero,
      zero_mul, zero_mul]
  · obtain ⟨hne, hdigits, hvalue⟩ := toRat_toDigits (shortest (absolute x))
    rw [Decimal.toFloat?_congr hvalue]
    exact ⟨hne, hdigits, toFloat?_shortest (isFinite_absolute hfinite) (absolute_absolute hfinite)⟩

/-- A numeral has the value of some digits if it has these digits, with zeros behind them, and as many
of them behind the point. -/
theorem Digits.ofNumeral?_eq {d : Digits} {whole fraction : Text} (n : Nat)
    (hvalue : digitsValue (whole ++ fraction) = digitsValue d.digits * 10 ^ n)
    (hplace : (n : Int) - fraction.length = d.place - d.digits.length) :
    ofNumeral? whole fraction = d.decimal.toFloat? := by
  refine Decimal.toFloat?_congr ?_
  rw [Decimal.toRat_value, Decimal.toRat_value, decimal, hvalue, ← hplace, sub_eq_add_neg,
    zpow_add₀ (by norm_num), zpow_natCast, Nat.cast_mul, Nat.cast_pow, Nat.cast_ofNat, mul_assoc]

/-- **Digits before and after the point are a numeral** of the value of the digits. -/
theorem Digits.positional_eq (d : Digits) (hne : d.digits ≠ []) (hdigits : d.digits.IsDigits) :
    ∃ whole fraction : Text, whole ≠ [] ∧ whole.IsDigits ∧ fraction.IsDigits
      ∧ d.positional = Text.numeral whole fraction
      ∧ ofNumeral? whole fraction = d.decimal.toFloat? := by
  have htake : ∀ n, Text.IsDigits (d.digits.take n) := fun n b hb =>
    hdigits b (List.mem_of_mem_take hb)
  have hdrop : ∀ n, Text.IsDigits (d.digits.drop n) := fun n b hb =>
    hdigits b (List.mem_of_mem_drop hb)
  have hpos : 0 < d.digits.length := List.length_pos_iff.mpr hne
  unfold positional
  simp only
  by_cases hwhole : (d.digits.length : Int) ≤ d.place
  · -- all digits stand before the point
    refine ⟨d.digits ++ zeros (d.place.toNat - d.digits.length), [], ?_, ?_, nofun, ?_, ?_⟩
    · exact List.append_ne_nil_of_left_ne_nil hne _
    · exact fun b hb => (List.mem_append.mp hb).elim (hdigits b) (isDigits_zeros _ b)
    · rw [if_pos hwhole, if_neg (by omega), List.take_of_length_le (by omega), Text.numeral,
        if_pos rfl]
    · refine ofNumeral?_eq (d.place.toNat - d.digits.length) ?_ ?_
      · rw [List.append_nil, digitsValue_append, digitsValue_zeros, length_zeros, Nat.add_zero]
      · rw [List.length_nil]
        omega
  rw [if_neg hwhole]
  by_cases hplace : d.place ≤ 0
  · -- all digits stand behind the point
    have hzero : d.place.toNat = 0 := by omega
    refine ⟨"0", zeros (-d.place).toNat ++ d.digits, by decide, isDigits_zero,
      ?_, ?_, ?_⟩
    · exact fun b hb => (List.mem_append.mp hb).elim (isDigits_zeros _ b) (hdigits b)
    · rw [if_pos hplace, hzero, List.drop_zero, Text.numeral,
        if_neg (List.append_ne_nil_of_right_ne_nil _ hne)]
    · have hlead : digitsValue "0" = 0 := rfl
      refine ofNumeral?_eq 0 ?_ ?_
      · rw [digitsValue_append, digitsValue_append, digitsValue_zeros, hlead]
        ring
      · rw [List.length_append, length_zeros]
        omega
  · -- the point stands between the digits
    have hfew : d.place.toNat - d.digits.length = 0 := by omega
    refine ⟨d.digits.take d.place.toNat, d.digits.drop d.place.toNat, ?_, htake _, hdrop _, ?_, ?_⟩
    · refine List.ne_nil_of_length_pos ?_
      rw [List.length_take]
      omega
    · have hbehind : d.digits.drop d.place.toNat ≠ [] := by
        refine List.ne_nil_of_length_pos ?_
        rw [List.length_drop]
        omega
      have hnone : (-d.place).toNat = 0 := by omega
      rw [if_neg hplace, hfew, hnone, Text.numeral, if_neg hbehind, zeros, List.replicate_zero,
        List.append_nil, List.nil_append]
    · refine ofNumeral?_eq 0 ?_ ?_
      · rw [List.take_append_drop, Nat.pow_zero, Nat.mul_one]
      · rw [List.length_drop]
        omega

end Number

/-! ## Numerals as tokens -/

/-- A decimal digit is a character of its own, and a digit there. -/
theorem Text.isDigit_of_isDecimal : ∀ {b : UInt8}, Text.isDecimal b = true →
    b < 0x80 ∧ (Glyph.char (Char.ofNat b.toNat)).isDigit = true :=
  @(Glyph.forall_byte (by decide +kernel))

/-- Digits are decoded byte by byte. -/
theorem Text.isDigit_of_mem_glyphs {t : Text} (h : t.IsDigits) :
    ∀ g ∈ t.glyphs, g.isDigit = true := by
  induction t with
  | nil => nofun
  | cons b t ih =>
    obtain ⟨hb, ht⟩ := List.forall_mem_cons.mp h
    obtain ⟨hascii, hdigit⟩ := isDigit_of_isDecimal hb
    rw [glyphs_cons_ascii hascii]
    exact List.forall_mem_cons.mpr ⟨hdigit, ih ht⟩

/-- They are ASCII. -/
theorem Text.ascii_of_isDigits {t : Text} (h : t.IsDigits) : ∀ b ∈ t, b < 0x80 :=
  fun b hb => (isDigit_of_isDecimal (h b hb)).1

/-- A text that is not empty has a glyph. -/
theorem Text.glyphs_ne_nil {t : Text} (h : t ≠ []) : t.glyphs ≠ [] := fun hnil =>
  h (by rw [← ofGlyphs_glyphs t, hnil, ofGlyphs_nil])

/-- The characters of a numeral behind its whole digits. -/
def Text.pointed (fraction : Text) : List Glyph :=
  if fraction = [] then [] else .char '.' :: fraction.glyphs

/-- A numeral is the glyphs of its whole part and those from its point on. -/
theorem Text.glyphs_numeral {whole fraction : Text} (hwhole : whole.IsDigits) :
    (Text.numeral whole fraction).glyphs = whole.glyphs ++ fraction.pointed := by
  unfold Text.numeral Text.pointed
  split
  · rw [List.append_nil]
  · have hpoint : Text.glyphs ("." ++ fraction) = .char '.' :: fraction.glyphs :=
      glyphs_cons_ascii (by decide) fraction
    rw [List.append_assoc, glyphs_append_of_ascii (ascii_of_isDigits hwhole), hpoint]

/-- What the scanner takes as a fraction is the fraction written. -/
theorem Text.fraction_pointed {fraction : Text} (h : fraction.IsDigits) :
    Content.fraction fraction.pointed = fraction.glyphs := by
  unfold Text.pointed
  split
  · next hnil =>
    rw [hnil]
    rfl
  · exact List.takeWhile_eq_self_iff.mpr (isDigit_of_mem_glyphs h)

/-- A fraction is as long as its digits and the point, and no longer than nothing without digits. -/
theorem Text.length_pointed (fraction : Text) : fraction.pointed.length
    = if fraction.glyphs = [] then 0 else fraction.glyphs.length + 1 := by
  unfold Text.pointed
  split
  · next hnil => rw [hnil]; rfl
  · next hne => rw [if_neg (glyphs_ne_nil hne), List.length_cons]

/-- **A numeral with a number near it is one token.** -/
theorem Text.isLexeme_numeral {whole fraction : Text} {value : Float} (hne : whole ≠ [])
    (hwhole : whole.IsDigits) (hfraction : fraction.IsDigits)
    (h : Number.ofNumeral? whole fraction = some value) :
    (Text.numeral whole fraction).IsLexeme (.number value) := by
  have hdigits := isDigit_of_mem_glyphs hwhole
  have hspelled := ofGlyphs_glyphs whole
  obtain ⟨first, rest, hglyphs⟩ := List.exists_cons_of_ne_nil (glyphs_ne_nil hne)
  rw [hglyphs] at hdigits hspelled
  obtain ⟨hfirst, hrest⟩ := List.forall_mem_cons.mp hdigits
  have hspace : ¬ first.isSpace = true := fun hspace => by
    rw [(Content.ne_of_isSpace hspace).1] at hfirst
    exact absurd hfirst (by decide)
  refine ⟨first, rest ++ fraction.pointed, ?_, ?_⟩
  · rw [glyphs_numeral hwhole, hglyphs, List.cons_append]
  · have hpoint : ∀ g ∈ fraction.pointed.head?, g.isDigit = false := by
      unfold Text.pointed
      split <;> simp [Glyph.isDigit]
    unfold Content.front
    rw [if_neg hspace, if_pos hfirst]
    unfold Content.numeral
    simp only [takeWhile_append_of_boundary hrest hpoint, List.drop_left,
      fraction_pointed hfraction, hspelled, ofGlyphs_glyphs, h, List.length_append, length_pointed]

/-- A minus sign is a token whatever stands behind it. -/
theorem ReadsAs.minus {behind : List Glyph} {readings : List (TokenKind × Text)}
    (h : ReadsAs behind readings) : ReadsAs (.char '-' :: behind) (⟨.minus, "-"⟩ :: readings) :=
  fun p => ⟨(h (p.next (.char '-'))).1, congrArg _ (h (p.next (.char '-'))).2⟩

/-! ## Printed numbers -/

namespace Number

variable {x y : Float}

/-- An absolute value has no sign. -/
theorem isNegative_absolute (hfinite : isFinite x = true) : isNegative (absolute x) = false := by
  have hbits := toNat_bits_eq (absolute x)
  rw [toBits_absolute hfinite, UInt64.and_assoc, UInt64.and_self] at hbits
  by_contra hnegative
  rw [if_pos (Bool.not_eq_false _ ▸ hnegative)] at hbits
  omega

/-- The text of a number is that of the number without its sign, behind a minus sign if it has one. -/
theorem plain_eq (hfinite : isFinite x = true) : plain x
    = (if isNegative x = true then ("-" : Text) else []) ++ plain (absolute x) := by
  have hdigits : digits (absolute x) = digits x := by
    unfold digits significand
    rw [exponentBits_absolute hfinite, fractionBits_absolute hfinite, absolute_absolute hfinite]
  unfold plain written
  rw [if_pos hfinite, if_pos (isFinite_absolute hfinite), isNegative_absolute hfinite, hdigits]
  rfl

/-- **The text of a finite number without a sign is a token that is this number.** -/
theorem isLexeme_plain_absolute (hfinite : isFinite x = true) :
    (plain (absolute x)).IsLexeme (.number (absolute x)) := by
  have hfinite' := isFinite_absolute hfinite
  obtain ⟨hne, hdigits, hread⟩ := toFloat?_digits hfinite'
  obtain ⟨whole, fraction, hwhole, hwhole', hfraction, htext, hvalue⟩ :=
    (digits (absolute x)).positional_eq hne hdigits
  have hplain : plain (absolute x) = Text.numeral whole fraction := by
    rw [plain, written, if_pos hfinite', isNegative_absolute hfinite, htext]
    rfl
  rw [hread, absolute_absolute hfinite] at hvalue
  rw [hplain]
  exact Text.isLexeme_numeral hwhole hwhole' hfraction hvalue

/-- What the text of a finite number reads as. -/
theorem scan_plain_reading (hfinite : isFinite x = true) : (scan (plain x)).diagnostics = []
    ∧ (scan (plain x)).tokens.map Token.reading
      = (if isNegative x = true then [⟨.minus, "-"⟩] else [])
        ++ [⟨.number (absolute x), plain (absolute x)⟩, ⟨.endOfSource, []⟩] := by
  have hnumeral := ReadsAs.lexeme (isLexeme_plain_absolute hfinite) stops_nil .nil
  rw [List.append_nil] at hnumeral
  rw [plain_eq hfinite]
  split
  · have hminus : Text.glyphs ("-" ++ plain (absolute x))
        = .char '-' :: (plain (absolute x)).glyphs := Text.glyphs_cons_ascii (by decide) _
    exact scan_of_readsAs (hminus ▸ hnumeral.minus)
  · exact scan_of_readsAs hnumeral

/-- **Two finite numbers that are printed alike are the same**, as both are read back. -/
theorem plain_injective (hx : isFinite x = true) (hy : isFinite y = true)
    (h : plain x = plain y) : x = y := by
  have hread := (scan_plain_reading hx).2
  rw [h, (scan_plain_reading hy).2] at hread
  cases hsign : isNegative x <;> cases hsign' : isNegative y <;>
    simp only [hsign, hsign', if_true, if_false, Bool.false_eq_true, List.nil_append,
      List.cons_append, List.cons.injEq, Prod.mk.injEq, TokenKind.number.injEq, reduceCtorEq,
      false_and] at hread
  · exact eq_of_absolute hx hy (hsign.trans hsign'.symm) hread.1.1.symm
  · exact eq_of_absolute hx hy (hsign.trans hsign'.symm) hread.2.1.1.symm

/-- **Printed numbers read back as themselves.**  The text of a finite number scans to one token, which
is that number; behind a minus sign, if the number has one, stands the number with the sign bit clear.
So no two finite numbers have one text, and what a program tells is a numeral of the language. -/
theorem scan_plain (hfinite : isFinite x = true) :
    (scan (plain x)).diagnostics = []
      ∧ (isNegative x = false → (scan (plain x)).tokens.map Token.reading
          = [⟨.number x, plain x⟩, ⟨.endOfSource, []⟩])
      ∧ (isNegative x = true → (scan (plain x)).tokens.map Token.reading
          = [⟨.minus, "-"⟩, ⟨.number (absolute x), plain (absolute x)⟩, ⟨.endOfSource, []⟩]
            ∧ (absolute x).toBits = x.toBits &&& 0x7FFFFFFFFFFFFFFF)
      ∧ (∀ y, isFinite y = true → plain y = plain x → y = x)
      ∧ ∀ m : Machine, (m.receive (.number x) .tell).output = plain x :: m.output := by
  obtain ⟨hclean, hread⟩ := scan_plain_reading hfinite
  refine ⟨hclean, fun hsign => ?_, fun hsign => ⟨?_, toBits_absolute hfinite⟩,
    fun y hy h => plain_injective hy hfinite h, fun m => rfl⟩
  · rwa [hsign, absolute_of_not_isNegative hsign] at hread
  · rwa [hsign] at hread

/-- The least number below zero. -/
def leastBelowZero : Float := Float.ofBits 0x8000000000000001

theorem scan_plain_leastBelowZero :
    isFinite leastBelowZero = true ∧ isNegative leastBelowZero = true
      ∧ (scan (plain leastBelowZero)).diagnostics = []
      ∧ (scan (plain leastBelowZero)).tokens.map Token.reading
        = [⟨.minus, "-"⟩, ⟨.number (absolute leastBelowZero), plain (absolute leastBelowZero)⟩,
          ⟨.endOfSource, []⟩] := by
  have hfinite : isFinite leastBelowZero = true := by decide +kernel
  have hsign : isNegative leastBelowZero = true := by decide +kernel
  have h := scan_plain hfinite
  exact ⟨hfinite, hsign, h.1, (h.2.2.1 hsign).1⟩

end Number

end YouthLang

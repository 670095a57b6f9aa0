import Mathlib.Algebra.Order.Field.Power
import Mathlib.Algebra.Order.Floor.Semifield
import Mathlib.Data.Rat.Floor
import Mathlib.Tactic.FieldSimp
import Mathlib.Tactic.Linarith
import YouthLang.Number.Binary

/-!
# Proofs/Rounding — the number nearest to a fraction

Rounding looks at the value of a fraction only (`nearest?_congr`): the exponent of the numbers
around it is the one whose significands have 53 bits, or the least there is (`IsGrid`).  A fraction
with the value of a finite number is rounded to that number without its sign (`nearest?_of_toRat`).
-/

namespace YouthLang.Number

namespace Ratio

/-! ## Fractions as rational numbers -/

/-- The value of a fraction. -/
def toRat (r : Ratio) : ℚ := r.num / r.den

variable {r s : Ratio} {b : Nat}

theorem toRat_scaled (n b : Nat) (e : Int) : (scaled n b e).toRat = n * (b : ℚ) ^ e := by
  unfold scaled toRat
  split
  · next he =>
    obtain ⟨k, rfl⟩ := Int.eq_ofNat_of_zero_le he
    simp
  · next he =>
    obtain ⟨k, rfl⟩ := Int.exists_eq_neg_ofNat (Int.le_of_not_le he)
    simp [div_eq_mul_inv]

theorem toRat_shift (r : Ratio) (b : Nat) (e : Int) :
    (r.shift b e).toRat = r.toRat / (b : ℚ) ^ e := by
  unfold shift toRat
  split
  · next he =>
    obtain ⟨k, rfl⟩ := Int.eq_ofNat_of_zero_le he
    simp [div_div]
  · next he =>
    obtain ⟨k, rfl⟩ := Int.exists_eq_neg_ofNat (Int.le_of_not_le he)
    simp [div_eq_mul_inv, mul_right_comm]

theorem den_scaled_pos (n : Nat) (hb : 0 < b) (e : Int) : 0 < (scaled n b e).den := by
  unfold scaled
  split
  · exact Nat.one_pos
  · exact Nat.pow_pos hb

theorem den_shift_pos (hden : 0 < r.den) (hb : 0 < b) (e : Int) : 0 < (r.shift b e).den := by
  unfold shift
  split
  · exact Nat.mul_pos hden (Nat.pow_pos hb)
  · exact hden

theorem below_iff (hden : 0 < r.den) (hb : 0 < b) (e : Int) :
    r.below b e = true ↔ r.toRat < (b : ℚ) ^ e := by
  have hpow : (0 : ℚ) < (b : ℚ) ^ e := zpow_pos (Nat.cast_pos.mpr hb) e
  have hpos : (0 : ℚ) < (r.shift b e).den := Nat.cast_pos.mpr (den_shift_pos hden hb e)
  rw [below, decide_eq_true_iff, ← div_lt_one hpow, ← toRat_shift, toRat, div_lt_one hpos,
    Nat.cast_lt]

/-! ## Rounding to an integer -/

theorem floor_eq (r : Ratio) : r.floor = ⌊r.toRat⌋₊ := (Nat.floor_div_eq_div r.num r.den).symm

theorem half_eq (hden : 0 < r.den) : r.half = compare (2 * (r.toRat - r.floor)) 1 := by
  have hpos : (0 : ℚ) < r.den := Nat.cast_pos.mpr hden
  have hmod : (r.num : ℚ) = r.den * r.floor + (r.num % r.den : Nat) := by
    exact_mod_cast (Nat.div_add_mod r.num r.den).symm
  have hrest : 2 * (r.toRat - r.floor) = ((2 * (r.num % r.den) : Nat) : ℚ) / r.den := by
    rw [toRat, hmod]
    push_cast
    field_simp
    ring
  rw [hrest, half]
  obtain h | h | h := lt_trichotomy (2 * (r.num % r.den)) r.den
  · rw [compare_lt_iff_lt.mpr h, compare_lt_iff_lt.mpr]
    rw [div_lt_one hpos]
    exact_mod_cast h
  · rw [compare_eq_iff_eq.mpr h, compare_eq_iff_eq.mpr]
    rw [div_eq_one_iff_eq hpos.ne']
    exact_mod_cast h
  · rw [compare_gt_iff_gt.mpr h, compare_gt_iff_gt.mpr]
    rw [one_lt_div hpos]
    exact_mod_cast h

/-- Rounding looks at the value only. -/
theorem round_congr (hr : 0 < r.den) (hs : 0 < s.den) (h : r.toRat = s.toRat) :
    r.round = s.round := by
  have hfloor : r.floor = s.floor := by rw [floor_eq, floor_eq, h]
  unfold round
  rw [half_eq hr, half_eq hs, h, hfloor]

theorem round_cases (r : Ratio) : r.round = r.floor ∨ r.round = r.floor + 1 := by
  unfold round
  split
  · exact .inl rfl
  · exact .inr rfl
  · split
    · exact .inl rfl
    · exact .inr rfl

/-- An integer is left as it is. -/
theorem round_of_natCast (hden : 0 < r.den) {n : Nat} (h : r.toRat = n) : r.round = n := by
  have hsame : r.toRat = toRat ⟨n, 1⟩ := by rw [h, toRat, Nat.cast_one, div_one]
  rw [round_congr hden Nat.one_pos hsame]
  have hhalf : half ⟨n, 1⟩ = .lt := by simp [half, Nat.mod_one, compare_lt_iff_lt]
  rw [round, hhalf]
  exact Nat.div_one n

/-! ## The exponent around a fraction -/

theorem pow_log2_le (n : Nat) (hn : 0 < n) :
    (2 : ℚ) ^ (Nat.log2 n : Int) ≤ n ∧ (n : ℚ) < 2 ^ ((Nat.log2 n : Int) + 1) := by
  constructor
  · exact_mod_cast Nat.log2_self_le hn.ne'
  · exact_mod_cast Nat.lt_log2_self (n := n)

/-- A fraction is less than a factor of two off the power that its logarithm tells. -/
theorem log2_spec (hnum : 0 < r.num) (hden : 0 < r.den) :
    (2 : ℚ) ^ (r.log2 - 1) < r.toRat ∧ r.toRat < 2 ^ (r.log2 + 1) := by
  obtain ⟨hnlo, hnhi⟩ := pow_log2_le r.num hnum
  obtain ⟨hdlo, hdhi⟩ := pow_log2_le r.den hden
  have hpos : (0 : ℚ) < r.den := Nat.cast_pos.mpr hden
  unfold toRat log2
  generalize (Nat.log2 r.num : Int) = i at hnlo hnhi ⊢
  generalize (Nat.log2 r.den : Int) = j at hdlo hdhi ⊢
  constructor
  · rw [lt_div_iff₀ hpos]
    calc (2 : ℚ) ^ (i - j - 1) * r.den < 2 ^ (i - j - 1) * 2 ^ (j + 1) := by gcongr
      _ = 2 ^ i := by
        rw [← zpow_add₀ two_ne_zero]
        congr 1
        omega
      _ ≤ r.num := hnlo
  · rw [div_lt_iff₀ hpos]
    calc (r.num : ℚ) < 2 ^ (i + 1) := hnhi
      _ = 2 ^ (i - j + 1) * 2 ^ j := by
        rw [← zpow_add₀ two_ne_zero]
        congr 1
        omega
      _ ≤ 2 ^ (i - j + 1) * r.den := by gcongr

end Ratio

/-- The exponent of the numbers around a value: their significands have 53 bits, or the exponent is
the least there is. -/
structure IsGrid (v : ℚ) (q : Int) : Prop where
  least : -1074 ≤ q
  above : v < 2 ^ (q + 53)
  below : q = -1074 ∨ 2 ^ (q + 52) ≤ v

namespace IsGrid

variable {v : ℚ} {q q' : Int}

theorem le (h : IsGrid v q) (h' : IsGrid v q') : q ≤ q' := by
  by_contra hlt
  have hleast := h'.least
  obtain hmin | hlow := h.below
  · omega
  · have hpow : (2 : ℚ) ^ (q' + 53) ≤ 2 ^ (q + 52) := zpow_le_zpow_right₀ one_le_two (by omega)
    exact absurd h'.above (not_lt.mpr (hpow.trans hlow))

theorem unique (h : IsGrid v q) (h' : IsGrid v q') : q = q' := le_antisymm (h.le h') (h'.le h)

end IsGrid

variable {r s : Ratio} {x : Float}

theorem isGrid_gridExponent (hnum : 0 < r.num) (hden : 0 < r.den) :
    IsGrid r.toRat (gridExponent r) := by
  obtain ⟨hlo, hhi⟩ := Ratio.log2_spec hnum hden
  -- the exponent that it would be if there were no least one
  obtain ⟨e, he, habove, hbelow⟩ : ∃ e, gridExponent r = max (-1074) e
      ∧ r.toRat < 2 ^ (e + 53) ∧ 2 ^ (e + 52) ≤ r.toRat := by
    refine ⟨_, rfl, ?_⟩
    have hiff := Ratio.below_iff hden two_pos r.log2
    rw [Nat.cast_ofNat] at hiff
    simp only [sub_add_cancel, hiff]
    split
    · next hlt =>
      have hexp : r.log2 - 53 + 52 = r.log2 - 1 := by omega
      exact ⟨by rwa [sub_add_cancel], hexp ▸ hlo.le⟩
    · next hge =>
      have habove : r.log2 - 53 + 1 + 53 = r.log2 + 1 := by omega
      have hbelow : r.log2 - 53 + 1 + 52 = r.log2 := by omega
      rw [habove, hbelow]
      exact ⟨hhi, not_lt.mp hge⟩
  rw [he]
  obtain hle | hlt := le_or_gt e (-1074)
  · rw [max_eq_left hle]
    refine ⟨le_rfl, habove.trans_le ?_, .inl rfl⟩
    exact zpow_le_zpow_right₀ one_le_two (by omega)
  · rw [max_eq_right hlt.le]
    exact ⟨hlt.le, habove, .inr hbelow⟩

theorem gridExponent_eq {q : Int} (hnum : 0 < r.num) (hden : 0 < r.den) (h : IsGrid r.toRat q) :
    gridExponent r = q := (isGrid_gridExponent hnum hden).unique h

/-! ## Rounding to a number -/

/-- The bit pattern of a number is a sign, an exponent and a fraction. -/
theorem toNat_bits_and (x : Float) : (x.toBits &&& 0x7FFFFFFFFFFFFFFF).toNat
    = exponentBits x * fractionCount + fractionBits x := by
  have hmask : (0x7FFFFFFFFFFFFFFF : UInt64).toNat = 2 ^ 63 - 1 := rfl
  rw [UInt64.toNat_and, hmask, Nat.and_two_pow_sub_one_eq_mod]
  unfold exponentBits fractionBits fractionCount
  omega

theorem fractionBits_lt (x : Float) : fractionBits x < fractionCount :=
  Nat.mod_lt _ (by decide)

theorem toRat_magnitude (x : Float) :
    (magnitude x).toRat = significand x * 2 ^ exponent x := by
  rw [magnitude, Ratio.toRat_scaled, Nat.cast_ofNat]

theorem significand_lt (x : Float) : significand x < 2 ^ 53 := by
  have := fractionBits_lt x
  unfold significand
  unfold fractionCount at *
  split <;> omega

/-- The exponent of a number is the one of the numbers around it. -/
theorem isGrid_exponent (x : Float) : IsGrid (magnitude x).toRat (exponent x) := by
  have hpow : (0 : ℚ) < 2 ^ exponent x := zpow_pos two_pos _
  have hlt : (significand x : ℚ) < 2 ^ (53 : Int) := by exact_mod_cast significand_lt x
  rw [toRat_magnitude]
  refine ⟨?_, ?_, ?_⟩
  · unfold exponent
    omega
  · rw [zpow_add₀ two_ne_zero, mul_comm]
    gcongr
  · by_cases hleast : exponentBits x ≤ 1
    · left
      unfold exponent
      omega
    · right
      have hle : 2 ^ 52 ≤ significand x := by
        unfold significand fractionCount
        split <;> omega
      have hle' : (2 : ℚ) ^ (52 : Int) ≤ significand x := by exact_mod_cast hle
      rw [zpow_add₀ two_ne_zero, mul_comm]
      gcongr

theorem nearestBits_of_num_ne_zero (h : r.num ≠ 0) : nearestBits r
    = (gridExponent r + 1074).toNat * fractionCount + (r.shift 2 (gridExponent r)).round := if_neg h

/-- A fraction with the value of a number has the bits of that number without its sign. -/
theorem nearestBits_of_toRat (hden : 0 < r.den) (h : r.toRat = (magnitude x).toRat) :
    nearestBits r = exponentBits x * fractionCount + fractionBits x := by
  have hpow : (0 : ℚ) < 2 ^ exponent x := zpow_pos two_pos _
  have hvalue : r.toRat = significand x * 2 ^ exponent x := h.trans (toRat_magnitude x)
  by_cases hnum : r.num = 0
  · have hsignificand : significand x = 0 := by
      rw [Ratio.toRat, hnum, Nat.cast_zero, zero_div] at hvalue
      exact_mod_cast (mul_eq_zero.mp hvalue.symm).resolve_right hpow.ne'
    rw [nearestBits, if_pos hnum]
    unfold significand fractionCount at hsignificand
    split at hsignificand
    · next hexponent => rw [hexponent, hsignificand, zero_mul]
    · omega
  · have hgrid : gridExponent r = exponent x :=
      gridExponent_eq (Nat.pos_of_ne_zero hnum) hden (h ▸ isGrid_exponent x)
    have hround : (r.shift 2 (exponent x)).round = significand x := by
      refine Ratio.round_of_natCast (Ratio.den_shift_pos hden two_pos _) ?_
      rw [Ratio.toRat_shift, hvalue, Nat.cast_ofNat, mul_div_cancel_right₀ _ hpow.ne']
    have hexponent : (exponent x + 1074).toNat = max 1 (exponentBits x) - 1 := by
      unfold exponent
      omega
    rw [nearestBits_of_num_ne_zero hnum, hgrid, hround, hexponent]
    unfold significand fractionCount
    split <;> omega

/-- **A fraction with the value of a finite number is rounded to that number** without its sign. -/
theorem nearest?_of_toRat (hfinite : isFinite x = true) (hden : 0 < r.den)
    (h : r.toRat = (magnitude x).toRat) : nearest? r = some (absolute x) := by
  have hbits := nearestBits_of_toRat hden h
  have hexponent : exponentBits x < 0x7FF := by
    have hne : exponentBits x ≠ 0x7FF := of_decide_eq_true hfinite
    have hlt : exponentBits x < 0x800 := Nat.mod_lt _ (by decide)
    omega
  have hfraction := fractionBits_lt x
  have hlt : nearestBits r < 0x7FF * fractionCount := by
    rw [hbits]
    unfold fractionCount at *
    omega
  rw [nearest?, if_pos hlt, hbits, ← toNat_bits_and, UInt64.ofNat_toNat, absolute]

/-- Rounding to a number looks at the value only. -/
theorem nearest?_congr (hr : 0 < r.den) (hs : 0 < s.den) (h : r.toRat = s.toRat) :
    nearest? r = nearest? s := by
  have hzero : ∀ {t : Ratio}, 0 < t.den → (t.num = 0 ↔ t.toRat = 0) := fun {t} ht => by
    rw [Ratio.toRat, div_eq_zero_iff, Nat.cast_eq_zero, Nat.cast_eq_zero, or_iff_left ht.ne']
  have hbits : nearestBits r = nearestBits s := by
    by_cases hnum : r.num = 0
    · rw [nearestBits, nearestBits, if_pos hnum, if_pos ((hzero hs).mpr (h ▸ (hzero hr).mp hnum))]
    · have hnum' : s.num ≠ 0 := fun heq => hnum ((hzero hr).mpr (h ▸ (hzero hs).mp heq))
      have hgrid : gridExponent r = gridExponent s :=
        gridExponent_eq (Nat.pos_of_ne_zero hnum) hr
          (h ▸ isGrid_gridExponent (Nat.pos_of_ne_zero hnum') hs)
      have hshift : (r.shift 2 (gridExponent s)).toRat = (s.shift 2 (gridExponent s)).toRat := by
        rw [Ratio.toRat_shift, Ratio.toRat_shift, h]
      rw [nearestBits_of_num_ne_zero hnum, nearestBits_of_num_ne_zero hnum', hgrid,
        Ratio.round_congr (Ratio.den_shift_pos hr two_pos _) (Ratio.den_shift_pos hs two_pos _)
          hshift]
  rw [nearest?, nearest?, hbits]

end YouthLang.Number

import Mathlib.Algebra.Group.Nat.Defs
import YouthLang.Proofs.Scanning.Places
import YouthLang.Text.Quoted

/-!
# Proofs/Rendered/Quoted — quoted texts read back

Inside quotes a backslash starts an escape, which stands for some bytes; any other byte stands for
itself (`escape`).  Reading a quoted text gives the text back (`Text.unquoted_quoted`), so no two texts
are quoted alike.
-/

namespace YouthLang

namespace Text

/-! ## Hexadecimal digits -/

/-- The value of a hexadecimal digit in lower case. -/
def unhexDigit (b : UInt8) : Nat := if b < 0x3A then b.toNat - 0x30 else b.toNat - 0x57

/-- The value of hexadecimal digits. -/
def hexValue (t : Text) : Nat := t.foldl (fun n b => 16 * n + unhexDigit b) 0

theorem unhexDigit_hexDigit : ∀ n < 16, unhexDigit (hexDigit n) = n := by decide

theorem length_hex : ∀ (width n : Nat), (hex width n).length = width
  | 0, _ => rfl
  | width + 1, n => by rw [hex, List.length_append, length_hex width, List.length_singleton]

/-- **Enough hexadecimal digits have the value of the number.** -/
theorem hexValue_hex {width n : Nat} (h : n < 16 ^ width) : hexValue (hex width n) = n := by
  induction width generalizing n with
  | zero => exact (Nat.lt_one_iff.mp h).symm
  | succ width ih =>
    have hhigh : n / 16 < 16 ^ width := Nat.div_lt_of_lt_mul (by rwa [Nat.pow_succ'] at h)
    have hlow : n % 16 < 16 := Nat.mod_lt _ (by decide)
    have ih := ih hhigh
    rw [hexValue] at ih ⊢
    rw [hex, List.foldl_append, ih, List.foldl_cons, List.foldl_nil, unhexDigit_hexDigit _ hlow,
      Nat.div_add_mod]

theorem hexDigit_ne : ∀ n < 16, hexDigit n ≠ 0x22 ∧ hexDigit n ≠ 0x5C := by decide

theorem ne_of_mem_hex {b : UInt8} : ∀ {width n : Nat}, b ∈ hex width n → b ≠ 0x22 ∧ b ≠ 0x5C
  | 0, _, h => absurd h List.not_mem_nil
  | width + 1, n, h => by
      rw [hex] at h
      obtain h | h := List.mem_append.mp h
      · exact ne_of_mem_hex h
      · rw [List.mem_singleton.mp h]
        exact hexDigit_ne _ (Nat.mod_lt _ (by decide))

/-! ## Escapes -/

/-- The byte that a letter behind a backslash stands for. -/
def unescapeLetter (letter : UInt8) : UInt8 :=
  if letter = 0x61 then 0x07
  else if letter = 0x62 then 0x08
  else if letter = 0x74 then 0x09
  else if letter = 0x6E then 0x0A
  else if letter = 0x76 then 0x0B
  else if letter = 0x66 then 0x0C
  else if letter = 0x72 then 0x0D
  else letter

/-- The bytes that the front of `b :: rest` stands for inside quotes, and how many bytes of `rest` say
so. -/
def escape (b : UInt8) (rest : Text) : Text × Nat :=
  match b, rest with
  | 0x5C, 0x78 :: digits => ([UInt8.ofNat (hexValue (digits.take 2))], 3)
  | 0x5C, 0x75 :: digits => ((Glyph.char (Char.ofNat (hexValue (digits.take 4)))).encode, 5)
  | 0x5C, 0x55 :: digits => ((Glyph.char (Char.ofNat (hexValue (digits.take 8)))).encode, 9)
  | 0x5C, letter :: _ => ([unescapeLetter letter], 1)
  | b, _ => ([b], 0)

/-- What some bytes stand for inside quotes, where the first `skip` of them belong to an escape already
read. -/
def unescape : Nat → Text → Text
  | _, [] => []
  | skip + 1, _ :: rest => unescape skip rest
  | 0, b :: rest => (escape b rest).1 ++ unescape (escape b rest).2 rest

/-- The text that stands between quotes. -/
def unquoted (t : Text) : Text := unescape 0 (t.drop 1).dropLast

theorem unescape_drop : ∀ (t : Text) (skip : Nat), unescape skip t = unescape 0 (t.drop skip)
  | [], skip => by simp [unescape]
  | _ :: rest, skip + 1 => by simp [unescape, unescape_drop rest skip]
  | _ :: _, 0 => rfl

/-- An escape is read up to its end. -/
theorem unescape_append (b : UInt8) (more r : Text) {found : Text}
    (h : escape b (more ++ r) = (found, more.length)) :
    unescape 0 (b :: more ++ r) = found ++ unescape 0 r := by
  rw [List.cons_append, unescape, h, unescape_drop, List.drop_left]

theorem unescape_of_no_escape {t : Text} (h : ∀ b ∈ t, b ≠ 0x5C) (r : Text) :
    unescape 0 (t ++ r) = t ++ unescape 0 r := by
  induction t with
  | nil => rfl
  | cons b t ih =>
    obtain ⟨hb, ht⟩ := List.forall_mem_cons.mp h
    have hplain : escape b (t ++ r) = ([b], 0) := by
      unfold escape
      split <;> simp_all
    rw [List.cons_append, unescape, hplain, ih ht]
    rfl

end Text

namespace Glyph

theorem encode_ascii {c : Char} (h : c.toNat < 0x80) :
    encode (.char c) = [UInt8.ofNat c.toNat] := by
  have hlt : c.val.toNat ≤ 127 := Nat.le_of_lt_succ h
  simp only [encode, String.utf8EncodeChar, hlt, if_true]
  rfl

/-- The letters for control characters are read back. -/
theorem unescapeLetter_escapeLetter? {n : Nat} {letter : UInt8}
    (h : escapeLetter? n = some letter) :
    n < 0x80 ∧ Text.unescapeLetter letter = UInt8.ofNat n
      ∧ letter ≠ 0x78 ∧ letter ≠ 0x75 ∧ letter ≠ 0x55 := by
  unfold escapeLetter? at h
  split at h <;> first | (obtain rfl := Option.some.inj h; decide) | exact absurd h (by simp)

theorem toNat_lt (c : Char) : c.toNat < 0x110000 := by
  have hvalid : c.toNat < 0xD800 ∨ 0xDFFF < c.toNat ∧ c.toNat < 0x110000 := c.valid
  omega

/-- A byte by its two digits. -/
theorem unescape_hex_two {n : Nat} (h : n < 0x100) (r : Text) :
    Text.unescape 0 ("\\x" ++ Text.hex 2 n ++ r) = [UInt8.ofNat n] ++ Text.unescape 0 r := by
  refine Text.unescape_append 0x5C (0x78 :: Text.hex 2 n) r ?_
  change ([UInt8.ofNat (Text.hexValue ((Text.hex 2 n ++ r).take 2))], 3) = _
  rw [List.take_left' (Text.length_hex 2 n), Text.hexValue_hex h, List.length_cons, Text.length_hex]

/-- A character by its four digits. -/
theorem unescape_hex_four {n : Nat} (h : n < 0x10000) (r : Text) :
    Text.unescape 0 ("\\u" ++ Text.hex 4 n ++ r)
      = (Glyph.char (Char.ofNat n)).encode ++ Text.unescape 0 r := by
  refine Text.unescape_append 0x5C (0x75 :: Text.hex 4 n) r ?_
  change ((Glyph.char (Char.ofNat (Text.hexValue ((Text.hex 4 n ++ r).take 4)))).encode, 5) = _
  rw [List.take_left' (Text.length_hex 4 n), Text.hexValue_hex h, List.length_cons, Text.length_hex]

/-- A character by its eight digits. -/
theorem unescape_hex_eight {n : Nat} (h : n < 0x100000000) (r : Text) :
    Text.unescape 0 ("\\U" ++ Text.hex 8 n ++ r)
      = (Glyph.char (Char.ofNat n)).encode ++ Text.unescape 0 r := by
  refine Text.unescape_append 0x5C (0x55 :: Text.hex 8 n) r ?_
  change ((Glyph.char (Char.ofNat (Text.hexValue ((Text.hex 8 n ++ r).take 8)))).encode, 9) = _
  rw [List.take_left' (Text.length_hex 8 n), Text.hexValue_hex h, List.length_cons, Text.length_hex]

/-- **What is written for a character inside quotes stands for its bytes.** -/
theorem unescape_quoted {t : Text} {g : Glyph} (hg : g ∈ t.glyphs) (r : Text) :
    Text.unescape 0 (g.quoted ++ r) = g.encode ++ Text.unescape 0 r := by
  -- Each way to write a character is undone by its own escape, and longer ones only for larger
  -- numbers.
  cases g with
  | stray b =>
    have hread := unescape_hex_two b.toNat_lt r
    rwa [UInt8.ofNat_toNat] at hread
  | char c =>
    have hc : Char.ofNat c.toNat = c := Char.ofNat_toNat c
    unfold quoted
    simp only
    split
    · next h =>
      simp only [Bool.or_eq_true, decide_eq_true_eq] at h
      refine Text.unescape_append _ [c.toUInt8] r ?_
      obtain h | h := h <;> rw [h] at hc <;> subst hc <;> rfl
    next hspecial =>
    split
    · refine Text.unescape_of_no_escape (fun b hb => ?_) r
      rintro rfl
      have heq := Text.eq_of_mem_encode (by decide) hb hg
      rw [char.injEq] at heq
      subst heq
      exact hspecial (by decide)
    next =>
    split
    · next letter hletter =>
      obtain ⟨hlt, hread, hx, hu, hU⟩ := unescapeLetter_escapeLetter? hletter
      refine Text.unescape_append _ [letter] r ?_
      rw [encode_ascii hlt, ← hread]
      unfold Text.escape
      split <;> simp_all
    next =>
    split
    · next hlt =>
      rw [encode_ascii hlt]
      exact unescape_hex_two (by omega) r
    next =>
    split
    · next hlt =>
      have hread := unescape_hex_four hlt r
      rwa [hc] at hread
    · have hread := unescape_hex_eight (Nat.lt_trans (toNat_lt c) (by decide)) r
      rwa [hc] at hread

end Glyph

namespace Text

theorem unescape_flatMap_quoted {t : Text} : ∀ {gs : List Glyph}, (∀ g ∈ gs, g ∈ t.glyphs) →
    unescape 0 (gs.flatMap Glyph.quoted) = ofGlyphs gs
  | [], _ => rfl
  | g :: gs, h => by
      obtain ⟨hg, hgs⟩ := List.forall_mem_cons.mp h
      rw [List.flatMap_cons, Glyph.unescape_quoted hg, unescape_flatMap_quoted hgs, ofGlyphs_cons]

/-- **A quoted text reads back.** -/
theorem unquoted_quoted (t : Text) : t.quoted.unquoted = t := by
  have hbody : (t.quoted.drop 1).dropLast = t.glyphs.flatMap Glyph.quoted := List.dropLast_concat
  rw [unquoted, hbody, unescape_flatMap_quoted fun _ hg => hg, ofGlyphs_glyphs]

end Text

/-! ## Where a quoted text ends -/

/-- A byte that neither ends a quoted text nor starts an escape in it. -/
def Text.IsInner (b : UInt8) : Prop := b ≠ 0x22 ∧ b ≠ 0x5C

/-- **A quote or a backslash is written behind a backslash only.** -/
theorem Glyph.quoted_cases {t : Text} {g : Glyph} (hg : g ∈ t.glyphs) :
    (∀ b ∈ g.quoted, Text.IsInner b)
      ∨ ∃ b more, g.quoted = 0x5C :: b :: more ∧ ∀ b ∈ more, Text.IsInner b := by
  have hhex : ∀ width n, ∀ b ∈ Text.hex width n, Text.IsInner b :=
    fun _ _ _ hb => Text.ne_of_mem_hex hb
  cases g with
  | stray b => exact .inr ⟨_, _, rfl, hhex _ _⟩
  | char c =>
    unfold quoted
    simp only
    split
    · exact .inr ⟨_, _, rfl, nofun⟩
    next hspecial =>
    split
    · refine .inl fun b hb => ?_
      constructor
      all_goals
        rintro rfl
        have heq := Text.eq_of_mem_encode (by decide) hb hg
        rw [char.injEq] at heq
        subst heq
        exact hspecial (by decide)
    next =>
    split
    · exact .inr ⟨_, _, rfl, nofun⟩
    next =>
    split
    · exact .inr ⟨_, _, rfl, hhex _ _⟩
    next =>
    split
    · exact .inr ⟨_, _, rfl, hhex _ _⟩
    · exact .inr ⟨_, _, rfl, hhex _ _⟩

end YouthLang

/-
# Stencil.Proofs.Text.Utf8Order -- texts and their encodings are in the same order

Texts are compared character by character, by code points. Their UTF-8 encodings, compared byte
by byte, are in the same order. For single characters this is seen from the form of an encoding:
a leading byte that is the greater the longer the encoding is, with the high part of the code
point, and then the rest of the code point in digits to the base 64. A greater code point has a
greater leading byte, or the same one and greater digits behind it; what follows the character
does not matter then.
-/

namespace Stencil.Text

/-- The UTF-8 encoding of a text. -/
def utf8 (s : String) : List UInt8 := s.toUTF8.data.toList

theorem utf8_eq_flatMap (s : String) : utf8 s = s.toList.flatMap String.utf8EncodeChar := by
  have h : s.toByteArray = s.toList.utf8Encode := by
    rw [← String.toByteArray_ofList, String.ofList_toList]
  rw [utf8, String.toUTF8_eq_toByteArray, h, List.utf8Encode, List.data_toByteArray]

/-! ## The form of an encoding -/

/-- The number of bytes behind the leading one in the encoding of a code point. -/
def trailing (code : Nat) : Nat :=
  if code ≤ 0x7f then 0 else if code ≤ 0x7ff then 1 else if code ≤ 0xffff then 2 else 3

/-- The leading byte: a mark of the length, and what is left of the code point when the digits
behind are taken off. -/
def leading (code : Nat) : Nat :=
  if code ≤ 0x7f then code
  else if code ≤ 0x7ff then 0xc0 + code / 64
  else if code ≤ 0xffff then 0xe0 + code / 64 / 64
  else 0xf0 + code / 64 / 64 / 64

/-- The last `n` digits of a number to the base 64, as the bytes behind a leading one. -/
def digits : (n : Nat) → Nat → List UInt8
  | 0, _ => []
  | n + 1, code => digits n (code / 64) ++ [UInt8.ofNat (0x80 + code % 64)]

/-- What is left of a number when its last `n` digits to the base 64 are taken off. -/
def high : (n : Nat) → Nat → Nat
  | 0, code => code
  | n + 1, code => high n (code / 64)

variable {v w : Nat}

/-- The four lengths of an encoding, and the leading byte for each. -/
theorem length_cases (v : Nat) : v ≤ 0x7f ∧ trailing v = 0 ∧ leading v = v ∨
    0x7f < v ∧ v ≤ 0x7ff ∧ trailing v = 1 ∧ leading v = 0xc0 + v / 64 ∨
    0x7ff < v ∧ v ≤ 0xffff ∧ trailing v = 2 ∧ leading v = 0xe0 + v / 64 / 64 ∨
    0xffff < v ∧ trailing v = 3 ∧ leading v = 0xf0 + v / 64 / 64 / 64 := by
  unfold trailing leading
  by_cases h₁ : v ≤ 0x7f
  · exact .inl ⟨h₁, if_pos h₁, if_pos h₁⟩
  · rw [if_neg h₁, if_neg h₁]
    by_cases h₂ : v ≤ 0x7ff
    · exact .inr (.inl ⟨Nat.not_le.mp h₁, h₂, if_pos h₂, if_pos h₂⟩)
    · rw [if_neg h₂, if_neg h₂]
      by_cases h₃ : v ≤ 0xffff
      · exact .inr (.inr (.inl ⟨Nat.not_le.mp h₂, h₃, if_pos h₃, if_pos h₃⟩))
      · exact .inr (.inr (.inr ⟨Nat.not_le.mp h₃, if_neg h₃, if_neg h₃⟩))

theorem toNat_le (c : Char) : c.toNat ≤ 0x10ffff := by
  obtain h | ⟨-, h⟩ := c.valid
  · exact Nat.le_of_lt (Nat.lt_trans h (by decide))
  · exact Nat.le_of_lt_succ h

theorem utf8EncodeChar_eq (c : Char) : String.utf8EncodeChar c =
    UInt8.ofNat (leading c.toNat) :: digits (trailing c.toNat) c.toNat := by
  have hmax := toNat_le c
  have hv : c.val.toNat = c.toNat := rfl
  rw [String.utf8EncodeChar, hv]
  generalize c.toNat = v at hmax ⊢
  have hlast : v % 64 + 128 = 0x80 + v % 64 := Nat.add_comm _ _
  have hmid : v / 64 % 64 + 128 = 0x80 + v / 64 % 64 := Nat.add_comm _ _
  obtain ⟨h, ht, hl⟩ | ⟨h, h', ht, hl⟩ | ⟨h, h', ht, hl⟩ | ⟨h, ht, hl⟩ := length_cases v
  · rw [if_pos h, ht, hl, digits]
  · have hlead : v / 64 % 32 + 192 = 0xc0 + v / 64 := by omega
    rw [if_neg (Nat.not_le.mpr h), if_pos h', ht, hl, hlead, hlast]
    rfl
  · have hlead : v / 4096 % 16 + 224 = 0xe0 + v / 64 / 64 := by omega
    rw [if_neg (by omega), if_neg (Nat.not_le.mpr h), if_pos h', ht, hl, hlead, hmid, hlast]
    rfl
  · have hlead : v / 262144 % 8 + 240 = 0xf0 + v / 64 / 64 / 64 := by omega
    have hhigh : v / 4096 % 64 + 128 = 0x80 + v / 64 / 64 % 64 := by omega
    rw [if_neg (by omega), if_neg (by omega), if_neg (Nat.not_le.mpr h), ht, hl, hlead, hhigh,
      hmid, hlast]
    rfl

/-! ## The order of encodings -/

theorem byte_lt (hv : v < w) (hw : w < 256) : UInt8.ofNat v < UInt8.ofNat w := by
  rw [UInt8.lt_iff_toNat_lt, UInt8.toNat_ofNat', UInt8.toNat_ofNat']
  omega

theorem leading_lt (h : v ≤ 0x10ffff) : leading v < 256 := by
  have := length_cases v
  omega

/-- A greater code point has a greater leading byte, or the same one and as many digits behind it,
to the same number. -/
theorem leading_lt_or (h : v < w) : leading v < leading w ∨
    leading v = leading w ∧ trailing v = trailing w ∧
      high (trailing w) v = high (trailing w) w := by
  have hhigh : ∀ v, high 1 v = v / 64 ∧ high 2 v = v / 64 / 64 ∧ high 3 v = v / 64 / 64 / 64 :=
    fun _ => ⟨rfl, rfl, rfl⟩
  have hhighv := hhigh v
  have hhighw := hhigh w
  -- each length of the one encoding beside each of the other
  obtain ⟨hv, ht, hl⟩ | ⟨hv, hv', ht, hl⟩ | ⟨hv, hv', ht, hl⟩ | ⟨hv, ht, hl⟩ := length_cases v <;>
    obtain ⟨hw, ht', hl'⟩ | ⟨hw, hw', ht', hl'⟩ | ⟨hw, hw', ht', hl'⟩ | ⟨hw, ht', hl'⟩ :=
      length_cases w <;>
    rw [ht, ht', hl, hl'] <;> omega

theorem digits_lt {n : Nat} (h : v < w) (hhigh : high n v = high n w) (s t : List UInt8) :
    digits n v ++ s < digits n w ++ t := by
  induction n generalizing v w s t with
  | zero => exact absurd hhigh (Nat.ne_of_lt h)
  | succ n ih =>
    rw [digits, digits, List.append_assoc, List.append_assoc]
    obtain hlt | heq := Nat.lt_or_eq_of_le (Nat.div_le_div_right (c := 64) (Nat.le_of_lt h))
    · exact ih hlt hhigh _ _
    · -- only the last digit differs
      rw [heq]
      refine List.append_left_lt (List.cons_lt_cons_iff.mpr (.inl (byte_lt ?_ ?_)))
      all_goals omega

/-- Characters with different code points are told apart by their encodings, whatever follows. -/
theorem utf8EncodeChar_lt {c d : Char} (h : c < d) (s t : List UInt8) :
    String.utf8EncodeChar c ++ s < String.utf8EncodeChar d ++ t := by
  have hcode : c.toNat < d.toNat := h
  rw [utf8EncodeChar_eq, utf8EncodeChar_eq, List.cons_append, List.cons_append,
    List.cons_lt_cons_iff]
  obtain hlt | ⟨heq, hlength, hhigh⟩ := leading_lt_or hcode
  · exact .inl (byte_lt hlt (leading_lt (toNat_le d)))
  · rw [heq, hlength]
    exact .inr ⟨rfl, digits_lt hcode hhigh s t⟩

theorem flatMap_utf8EncodeChar_lt {as bs : List Char} (h : as < bs) :
    as.flatMap String.utf8EncodeChar < bs.flatMap String.utf8EncodeChar := by
  induction as generalizing bs with
  | nil =>
    cases bs with
    | nil => exact absurd h (List.not_lt_nil [])
    | cons b bs =>
      rw [List.flatMap_cons, utf8EncodeChar_eq]
      exact List.nil_lt_cons _ _
  | cons a as ih =>
    cases bs with
    | nil => exact absurd h (List.not_lt_nil _)
    | cons b bs =>
      rw [List.flatMap_cons, List.flatMap_cons]
      obtain hlt | ⟨rfl, hlt⟩ := List.cons_lt_cons_iff.mp h
      · exact utf8EncodeChar_lt hlt _ _
      · exact List.append_left_lt (ih hlt)

theorem utf8_lt_of_lt {s t : String} (h : s < t) : utf8 s < utf8 t := by
  rw [utf8_eq_flatMap, utf8_eq_flatMap]
  exact flatMap_utf8EncodeChar_lt h

theorem utf8_inj {s t : String} : utf8 s = utf8 t ↔ s = t := by
  refine ⟨fun h => ?_, congrArg utf8⟩
  exact String.toByteArray_inj.mp (ByteArray.ext (Array.toList_inj.mp h))

theorem lt_or_gt_of_ne {s t : String} (h : s ≠ t) : s < t ∨ t < s := by
  by_cases hlt : s < t
  · exact .inl hlt
  · refine .inr (String.not_le.mp fun hle => h ?_)
    exact String.le_antisymm hle (String.not_lt.mp hlt)

/-- Texts are in the same order as their encodings. -/
theorem utf8_lt_iff {s t : String} : utf8 s < utf8 t ↔ s < t := by
  refine ⟨fun h => ?_, utf8_lt_of_lt⟩
  have hne : s ≠ t := by
    rintro rfl
    exact List.lt_irrefl _ h
  obtain hlt | hgt := lt_or_gt_of_ne hne
  · exact hlt
  · exact absurd (utf8_lt_of_lt hgt) (List.lt_asymm h)

end Stencil.Text

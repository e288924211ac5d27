/-
# Stencil.Proofs.Decimal -- integers written and read back

What a minus sign and digits are read as, alone and with a point and further digits behind them.

The written form of an integer is a minus sign, if it is negative, and its digits. This is a
numeral, and it is read back as the integer it was written from. For the integers of 64 bits
this holds down to the least one, whose magnitude alone would not fit.
-/
import Mathlib.Data.List.TakeWhile
import Stencil.Proofs.Lexeme
import Stencil.Proofs.Value.Arithmetic

namespace Stencil

namespace Decimal

/-- A minus sign, if there is one. -/
def sign (negative : Bool) : List Char := if negative then ['-'] else []

variable {whole digits : List Char}

/-- An integer is written as a sign and the digits of its magnitude. -/
theorem chars_ofInt (n : Int) :
    (ofInt n).chars = sign (n < 0) ++ Nat.toDigits 10 n.natAbs := by
  have hunsigned : unsigned (ofInt n).coefficient (ofInt n).exponent = Nat.toDigits 10 n.natAbs :=
    List.append_nil _
  unfold chars
  rw [hunsigned]
  show (if decide (n < 0) = true then _ else _) = _
  cases decide (n < 0) <;> rfl

theorem digits_toDigits (n : Nat) : Digits (Nat.toDigits 10 n) :=
  ⟨Nat.toDigits_ne_nil, fun _ h => Nat.isDigit_of_mem_toDigits (by decide) (by decide) h⟩

/-! ## Reading a sign, digits and a point -/

/-- In front of a digit, a sign is split off just if there is one. -/
theorem splitSign_of_leads {s : List Char} (h : Leads Char.isDigit s) (negative : Bool) :
    splitSign (sign negative ++ s) = (negative, s) := by
  cases negative with
  | true => rfl
  | false =>
    obtain ⟨x, rest, rfl, hx⟩ := h
    -- no sign is a digit
    show splitSign (x :: rest) = _
    unfold splitSign
    split
    · rename_i heq
      obtain ⟨rfl, -⟩ := List.cons.inj heq
      cases hx
    · rename_i heq
      obtain ⟨rfl, -⟩ := List.cons.inj heq
      cases hx
    · rfl

/-- Digits alone are read as a coefficient without a power of ten. -/
theorem read?_digits (h : Digits digits) (negative : Bool) :
    read? (sign negative ++ digits) = some ⟨negative, Nat.ofDigitChars 10 digits 0, 0⟩ := by
  have htake : digits.takeWhile Char.isDigit = digits := List.takeWhile_eq_self_iff.mpr h.2
  have hdrop : digits.dropWhile Char.isDigit = [] := List.dropWhile_eq_nil_iff.mpr h.2
  have hne : digits.isEmpty = false := List.isEmpty_eq_false_iff.mpr h.1
  unfold read?
  simp only [splitSign_of_leads h.leads, htake, hdrop, splitFraction, exponent?, hne, Bool.false_and,
    Bool.false_eq_true, if_false, List.append_nil, List.length_nil, Option.map_some]
  rfl

theorem isInteger_digits (h : Digits digits) (negative : Bool) :
    isInteger (sign negative ++ digits) = true := by
  have hne : digits.isEmpty = false := List.isEmpty_eq_false_iff.mpr h.1
  have hall : digits.all Char.isDigit = true := List.all_eq_true.mpr h.2
  rw [isInteger, splitSign_of_leads h.leads, isDigits, hne, hall]
  rfl

/-- With a point, all the digits make up the coefficient, and those behind the point count for the
power of ten. -/
theorem read?_point (hw : Digits whole) (hd : Digits digits) (negative : Bool) :
    read? (sign negative ++ (whole ++ '.' :: digits)) =
      some ⟨negative, Nat.ofDigitChars 10 (whole ++ digits) 0, -digits.length⟩ := by
  have hclear : Clear Char.isDigit ('.' :: digits) := clear_cons.mpr rfl
  have htake : digits.takeWhile Char.isDigit = digits := List.takeWhile_eq_self_iff.mpr hd.2
  have hdrop : digits.dropWhile Char.isDigit = [] := List.dropWhile_eq_nil_iff.mpr hd.2
  have hne : whole.isEmpty = false := List.isEmpty_eq_false_iff.mpr hw.1
  unfold read?
  simp only [splitSign_of_leads (hw.leads.append _), takeWhile_append_clear hw.2 hclear,
    dropWhile_append_clear hw.2 hclear, splitFraction, htake, hdrop, exponent?, hne,
    Bool.false_and, Bool.false_eq_true, if_false, Option.map_some]
  rw [Int.zero_sub]

/-- With a point nothing is written as an integer, even if it is one. -/
theorem isInteger_point (hw : Digits whole) (negative : Bool) :
    isInteger (sign negative ++ (whole ++ '.' :: digits)) = false := by
  have hall : (whole ++ '.' :: digits).all Char.isDigit = false := by simp
  rw [isInteger, splitSign_of_leads (hw.leads.append _), isDigits, hall, Bool.and_false]

theorem numeral_digits (h : Digits digits) (negative : Bool) :
    Numeral (sign negative ++ digits) := by
  refine ⟨sign negative, digits, [], ?_, h, .inl rfl, by rw [List.append_nil]⟩
  cases negative with
  | false => exact .inl rfl
  | true => exact .inr rfl

/-! ## Integers -/

theorem signedCoefficient_ofInt (n : Int) : (ofInt n).signedCoefficient = n := by
  show (if decide (n < 0) = true then -(n.natAbs : Int) else n.natAbs) = n
  by_cases h : n < 0
  · rw [if_pos (decide_eq_true h)]
    omega
  · rw [if_neg (by simpa using h)]
    omega

/-- An integer is read back from its written form. -/
theorem read?_chars_ofInt (n : Int) : read? (ofInt n).chars = some (ofInt n) := by
  rw [chars_ofInt, read?_digits (digits_toDigits _), Nat.ofDigitChars_ten_toDigits]
  rfl

end Decimal

/-- Every integer of 64 bits is written as a numeral with just its value. The sign is read together
with the digits, and so the least one fits. -/
theorem Value.isNumber_text (n : Int64) : IsNumber (.int n) (Value.int n).text.toList := by
  have htext : (Value.int n).text.toList = (Decimal.ofInt n.toInt).chars := String.toList_ofList
  rw [htext]
  have hread := Decimal.read?_chars_ofInt n.toInt
  have hint : int64? (Decimal.ofInt n.toInt).signedCoefficient = some n := by
    rw [Decimal.signedCoefficient_ofInt]
    exact int64?_eq_some_iff.mpr rfl
  rw [Decimal.chars_ofInt] at hread ⊢
  refine ⟨Decimal.numeral_digits (Decimal.digits_toDigits _) _, ?_⟩
  unfold ofNumeral?
  rw [hread, Option.bind_eq_bind, Option.bind_some,
    Decimal.isInteger_digits (Decimal.digits_toDigits _), if_pos rfl, hint]
  rfl

end Stencil

/-
# Stencil.Proofs.Value.Literal -- the values of integer literals

An integer literal is an optional minus sign and digits, as many as one likes. The integer that
it writes is its value, if that fits 64 bits. If not, the nearest binary64 number is, or there is
no value because this number is infinite. There is a single exception, of the same kind as for
sums: what lies below the range by no more than half a step of the grid is rounded to
`-2 ^ 63`, and this is an integer of 64 bits again.
-/
import Stencil.Proofs.Decimal

namespace Stencil

open Decimal

variable {digits : List Char}

/-! ## The nearest binary64 number -/

/-- A decimal without an exponent is rounded as an integer, but for the sign of zero. -/
theorem Double.ofDecimal_eq_ofInt {d : Decimal} (hexponent : d.exponent = 0)
    (hne : d.signedCoefficient ≠ 0) : Double.ofDecimal d = .ofInt d.signedCoefficient := by
  obtain ⟨negative, coefficient, exponent⟩ := d
  obtain rfl : exponent = 0 := hexponent
  have hsign : decide (signedCoefficient ⟨negative, coefficient, 0⟩ < 0) = negative := by
    cases negative with
    | true =>
      have hcoefficient : -(coefficient : Int) ≠ 0 := hne
      exact decide_eq_true (show -(coefficient : Int) < 0 by omega)
    | false => exact decide_eq_false (show ¬ (coefficient : Int) < 0 by omega)
  have habs : (signedCoefficient ⟨negative, coefficient, 0⟩).natAbs = coefficient := by
    cases negative <;> simp [signedCoefficient]
  show round negative (coefficient * 1 * Grid.one) 1 = ofInt _
  rw [ofInt, hsign, habs, Nat.mul_one]

namespace Value

/-- The integer that a sign and digits write. -/
def literalInt (negative : Bool) (digits : List Char) : Int :=
  Double.signed negative (Nat.ofDigitChars 10 digits 0)

theorem ofNumeral?_digits (h : Digits digits) (negative : Bool) :
    ofNumeral? (sign negative ++ digits) =
      match int64? (literalInt negative digits) with
      | some k => some (int k)
      | none =>
        let x := Double.ofDecimal ⟨negative, Nat.ofDigitChars 10 digits 0, 0⟩
        if x.isFinite then some (ofDouble x) else none := by
  have hint : signedCoefficient ⟨negative, Nat.ofDigitChars 10 digits 0, 0⟩ =
      literalInt negative digits := rfl
  unfold ofNumeral?
  rw [read?_digits h, Option.bind_eq_bind, Option.bind_some, isInteger_digits h, if_pos rfl, hint]
  rfl

/-- A literal whose integer does not fit has the value of the nearest binary64 number. -/
theorem ofNumeral?_of_not_fits (h : Digits digits) {negative : Bool}
    (hfits : ¬ FitsInt64 (literalInt negative digits)) :
    ofNumeral? (sign negative ++ digits) =
      if (Double.ofInt (literalInt negative digits)).isFinite then
        some (ofDouble (.ofInt (literalInt negative digits))) else none := by
  have hne : literalInt negative digits ≠ 0 := by
    intro hzero
    exact hfits (hzero ▸ by decide)
  have hnearest : Double.ofDecimal ⟨negative, Nat.ofDigitChars 10 digits 0, 0⟩ =
      .ofInt (literalInt negative digits) := Double.ofDecimal_eq_ofInt rfl hne
  rw [ofNumeral?_digits h, int64?_eq_none_iff.mpr hfits, hnearest]

/-- The nearest binary64 number of an integer that does not fit, as a value. -/
theorem ofDouble_ofInt {n : Int} (hfits : ¬ FitsInt64 n)
    (hfinite : (Double.ofInt n).isFinite = true) :
    ofDouble (.ofInt n) =
      if -2 ^ 63 - 1024 ≤ n ∧ n < -2 ^ 63 then int Int64.minValue else float (.ofInt n) := by
  rw [ofDouble_of_toInt? (Double.toInt?_ofInt_of_isFinite hfinite)]
  by_cases hclose : -2 ^ 63 - 1024 ≤ n ∧ n < -2 ^ 63
  · rw [if_pos hclose, (Double.nearestInt_eq_iff hclose.2).mpr hclose.1]
    rfl
  · have hout : ¬ FitsInt64 (Double.nearestInt n) := by
      rintro ⟨hlow, hhigh⟩
      by_cases hpos : 2 ^ 63 ≤ n
      · have := Double.le_nearestInt hpos
        omega
      · have hneg : n < -2 ^ 63 := Int.not_le.mp fun hge => hfits ⟨hge, Int.not_le.mp hpos⟩
        have := Double.nearestInt_le (Int.le_of_lt hneg)
        have := (Double.nearestInt_eq_iff hneg).mp (by omega)
        exact hclose ⟨this, hneg⟩
    rw [if_neg hclose, int64?_eq_none_iff.mpr hout]

end Value

/-- The value of an integer literal. If the integer that is written fits 64 bits, then it is the
value. Otherwise the literal has no value if the nearest binary64 number is infinite, and if it
is finite, this number is the value, except close below the range, from where the integer is
rounded to the lower end: then the value is the integer at this end. So the value is an integer
only if this one is written, or if the integer at the lower end is too large by 1024 at most. -/
theorem integer_literal_value (negative : Bool) (digits : List Char) (h : Digits digits) :
    let n := Value.literalInt negative digits
    let x := Double.ofInt n
    let value := Value.ofNumeral? (sign negative ++ digits)
    (Value.FitsInt64 n → ∃ k : Int64, k.toInt = n ∧ value = some (.int k)) ∧
    (¬ Value.FitsInt64 n → x.isFinite = false → value = none) ∧
    (n < -2 ^ 63 - 1024 ∨ 2 ^ 63 ≤ n → x.isFinite = true → value = some (.float x)) ∧
    (-2 ^ 63 - 1024 ≤ n → n < -2 ^ 63 → value = some (.int Int64.minValue)) := by
  intro n x value
  refine ⟨?_, ?_, ?_, ?_⟩
  · intro hfits
    have hk := Int64.toInt_ofInt_of_le hfits.1 hfits.2
    refine ⟨_, hk, ?_⟩
    show Value.ofNumeral? _ = _
    rw [Value.ofNumeral?_digits h, Value.int64?_eq_some_iff.mpr hk]
  · intro hfits hinfinite
    show Value.ofNumeral? _ = _
    rw [Value.ofNumeral?_of_not_fits h hfits, if_neg (Bool.eq_false_iff.mp hinfinite)]
  · intro hout hfinite
    have hfits : ¬ Value.FitsInt64 n := by
      rintro ⟨hlow, hhigh⟩
      omega
    have hfar : ¬ (-2 ^ 63 - 1024 ≤ n ∧ n < -2 ^ 63) := by omega
    show Value.ofNumeral? _ = _
    rw [Value.ofNumeral?_of_not_fits h hfits, if_pos hfinite, Value.ofDouble_ofInt hfits hfinite,
      if_neg hfar]
  · intro hlow hhigh
    have hfits : ¬ Value.FitsInt64 n := fun hfits => Int.not_le.mpr hhigh hfits.1
    have hfinite : x.isFinite = true :=
      Double.isFinite_of_toInt? (Double.toInt?_ofInt (j := 64) (by omega) (by decide))
    show Value.ofNumeral? _ = _
    rw [Value.ofNumeral?_of_not_fits h hfits, if_pos hfinite, Value.ofDouble_ofInt hfits hfinite,
      if_pos ⟨hlow, hhigh⟩]

/-- The literal for the lower end with leading zeros, the one for the upper end, which is outside
the range, one half a step below the range, and one too large for a binary64 number. -/
theorem integer_literal_value_ends :
    Value.ofNumeral? "-009223372036854775808".toList = some (.int Int64.minValue) ∧
      Value.ofNumeral? "9223372036854775808".toList = some (.float (.ofInt (2 ^ 63))) ∧
      Value.ofNumeral? "-9223372036854776832".toList = some (.int Int64.minValue) ∧
      Value.ofNumeral? ('1' :: List.replicate 309 '0') = none := by
  have hlower := integer_literal_value true "009223372036854775808".toList (by decide)
  have hupper := integer_literal_value false "9223372036854775808".toList (by decide)
  have hbelow := integer_literal_value true "9223372036854776832".toList (by decide)
  have hlarge := integer_literal_value false ('1' :: List.replicate 309 '0') (by decide +kernel)
  obtain ⟨k, hk, hvalue⟩ := hlower.1 (by decide)
  obtain rfl : k = Int64.minValue := Int64.toInt_inj.mp hk
  exact ⟨hvalue, hupper.2.2.1 (.inr (by decide)) (by decide +kernel),
    hbelow.2.2.2 (by decide) (by decide), hlarge.2.1 (by decide +kernel) (by decide +kernel)⟩

/-- The literal for the integer next below the range has the integer at the lower end for its
value. -/
theorem literal_below_minValue_stays :
    ¬ Value.FitsInt64 (Value.literalInt true "9223372036854775809".toList) ∧
      Value.ofNumeral? "-9223372036854775809".toList = some (.int Int64.minValue) := by
  refine ⟨by decide, by decide +kernel⟩

end Stencil

/-
# Stencil.Proofs.Value.Arithmetic -- when integer arithmetic is exact

A sum or difference of integers that fits 64 bits is that integer. One that does not fit is
computed with binary64 numbers, and stays one, with a single exception: where the rounded
result is the lower end of the range, `-2 ^ 63`, this is an integer of 64 bits again, and the
answer is this integer although the exact result lies below it. At the upper end nothing of
the kind happens, since the end itself is outside the range.
-/
import Stencil.Proofs.Double.Integer

namespace Stencil

/-! ## The range of 64 bits -/

namespace Value

/-- The integer has 64 bits. -/
def FitsInt64 (n : Int) : Prop := -2 ^ 63 ≤ n ∧ n < 2 ^ 63

instance (n : Int) : Decidable (FitsInt64 n) := inferInstanceAs (Decidable (_ ∧ _))

theorem fitsInt64_toInt (a : Int64) : FitsInt64 a.toInt := ⟨a.le_toInt, a.toInt_lt⟩

theorem int64?_eq_some_iff {n : Int} {a : Int64} : int64? n = some a ↔ a.toInt = n := by
  show (if (Int64.ofInt n).toInt = n then some (Int64.ofInt n) else none) = some a ↔ _
  constructor
  · intro h
    split at h
    · rename_i hn
      rwa [← Option.some.inj h]
    · cases h
  · rintro rfl
    simp

theorem int64?_eq_none_iff {n : Int} : int64? n = none ↔ ¬ FitsInt64 n := by
  rw [Option.eq_none_iff_forall_ne_some]
  constructor
  · intro h hfits
    exact h (Int64.ofInt n) (int64?_eq_some_iff.mpr (Int64.toInt_ofInt_of_le hfits.1 hfits.2))
  · intro h a ha
    exact h (int64?_eq_some_iff.mp ha ▸ fitsInt64_toInt a)

/-- A binary64 number that is an integer, as a value. -/
theorem ofDouble_of_toInt? {x : Double} {n : Int} (h : x.toInt? = some n) :
    ofDouble x = match int64? n with
      | some a => int a
      | none => float x := by
  unfold ofDouble
  rw [h, Option.bind_some]
  cases int64? n with
  | some => rfl
  | none => simp [Double.isFinite_of_toInt? h]

end Value

/-! ## Sums and differences of integers -/

namespace Value

variable {op : Additive} {a b : Int64}

/-- The operation on integers is an addition, of the second integer or of its opposite. -/
theorem exists_onInt (op : Additive) (a b : Int64) : ∃ c : Int, (-2 ^ 63 ≤ c ∧ c ≤ 2 ^ 63) ∧
    op.onInt a.toInt b.toInt = a.toInt + c ∧
    op.onInt (Double.nearestInt a.toInt) (Double.nearestInt b.toInt) =
      Double.nearestInt a.toInt + Double.nearestInt c := by
  have := b.le_toInt
  have := b.toInt_lt
  cases op with
  | plus => exact ⟨b.toInt, by omega, rfl, rfl⟩
  | minus =>
    refine ⟨-b.toInt, by omega, Int.sub_eq_add_neg, ?_⟩
    rw [Double.nearestInt_neg]
    exact Int.sub_eq_add_neg

/-- A result that does not fit is an integer as a binary64 number too. It stays outside the range,
unless it is rounded to the lower end from close below. -/
theorem toInt?_of_not_fits (h : ¬ FitsInt64 (op.onInt a.toInt b.toInt)) :
    ∃ r, (op.onDouble (.ofInt a.toInt) (.ofInt b.toInt)).toInt? = some r ∧
      (2 ^ 63 ≤ r ∨ r ≤ -2 ^ 63 ∧ op.onInt a.toInt b.toInt < -2 ^ 63 ∧
        (r = -2 ^ 63 → -2 ^ 63 - 2048 ≤ op.onInt a.toInt b.toInt)) := by
  have ha : -2 ^ 63 ≤ a.toInt ∧ a.toInt ≤ 2 ^ 63 := ⟨a.le_toInt, Int.le_of_lt a.toInt_lt⟩
  have hb : -2 ^ 63 ≤ b.toInt ∧ b.toInt ≤ 2 ^ 63 := ⟨b.le_toInt, Int.le_of_lt b.toInt_lt⟩
  obtain ⟨c, hc, hexact, hnearest⟩ := exists_onInt op a b
  rw [hexact] at h ⊢
  have hends := Double.nearestInt_add_outside ha hc h
  -- the rounded terms are no opposites, for then their sum would lie inside
  have hne : Double.nearestInt a.toInt + Double.nearestInt c ≠ 0 := by
    intro hzero
    have hz : Double.nearestInt 0 = 0 := by decide
    simp only [hzero, hz] at hends
    omega
  have hx := Double.toInt?_ofInt (n := a.toInt) (j := 63) (by omega) (by decide)
  have hy := Double.toInt?_ofInt (n := b.toInt) (j := 63) (by omega) (by decide)
  have hsize := Double.natAbs_nearestInt_le (n := a.toInt) (j := 63) (by omega)
  have hsize' := Double.natAbs_nearestInt_le (n := c) (j := 63) (by omega)
  rw [Double.onDouble_eq_ofInt hx hy (hnearest ▸ hne), hnearest]
  exact ⟨_, Double.toInt?_ofInt (j := 64) (by omega) (by decide), hends⟩

theorem combine_int (op : Additive) (a b : Int64) : combine op (int a) (int b) =
    match int64? (op.onInt a.toInt b.toInt) with
    | some k => int k
    | none => ofDouble (op.onDouble (.ofInt a.toInt) (.ofInt b.toInt)) := rfl

end Value

/-- Sums and differences of integers. A result that fits 64 bits is exact. One that does not is a
binary64 number, unless rounding takes it to the lower end of the range: then it is the integer at
this end, though the exact result lies below it, by 2048 at most. -/
theorem combine_int_exact (op : Additive) (a b : Int64) :
    let n := op.onInt a.toInt b.toInt
    let x := op.onDouble (.ofInt a.toInt) (.ofInt b.toInt)
    (Value.FitsInt64 n → ∃ k : Int64, k.toInt = n ∧ (Value.int a).combine op (.int b) = .int k) ∧
    (¬ Value.FitsInt64 n → x.toInt? ≠ some (-2 ^ 63) →
      (Value.int a).combine op (.int b) = .float x) ∧
    (¬ Value.FitsInt64 n → x.toInt? = some (-2 ^ 63) →
      -2 ^ 63 - 2048 ≤ n ∧ n < -2 ^ 63 ∧
        (Value.int a).combine op (.int b) = .int Int64.minValue) := by
  intro n x
  rw [Value.combine_int]
  refine ⟨?_, ?_, ?_⟩
  · intro hfits
    have hk := Int64.toInt_ofInt_of_le hfits.1 hfits.2
    exact ⟨_, hk, by rw [Value.int64?_eq_some_iff.mpr hk]⟩
  · intro hfits hne
    obtain ⟨r, hr, hends⟩ := Value.toInt?_of_not_fits hfits
    have hout : ¬ Value.FitsInt64 r := by
      rintro ⟨hlow, hhigh⟩
      have : r ≠ -2 ^ 63 := fun heq => hne (heq ▸ hr)
      omega
    rw [Value.int64?_eq_none_iff.mpr hfits, Value.ofDouble_of_toInt? hr,
      Value.int64?_eq_none_iff.mpr hout]
  · intro hfits hx
    obtain ⟨r, hr, hends⟩ := Value.toInt?_of_not_fits hfits
    obtain rfl := Option.some.inj (hr.symm.trans hx)
    obtain hhigh | ⟨-, hlow, hclose⟩ := hends
    · exact absurd hhigh (by decide)
    · rw [Value.int64?_eq_none_iff.mpr hfits, Value.ofDouble_of_toInt? hr]
      exact ⟨hclose rfl, hlow, rfl⟩

/-- Past the upper end, and well below the lower one, the result is a binary64 number. -/
theorem combine_int_exact_past_ends :
    (∃ x, Value.int Int64.maxValue + .int 1 = .float x) ∧
      ∃ x, Value.int Int64.minValue - .int 4096 = .float x :=
  ⟨⟨_, (combine_int_exact .plus Int64.maxValue 1).2.1 (by decide) (by decide +kernel)⟩,
    _, (combine_int_exact .minus Int64.minValue 4096).2.1 (by decide) (by decide +kernel)⟩

/-- One below the lower end, the result is the integer at this end. -/
theorem combine_minValue_stays :
    ¬ Value.FitsInt64 (Int64.minValue.toInt + (-1 : Int64).toInt) ∧
      Value.int Int64.minValue + .int (-1) = .int Int64.minValue ∧
      ¬ Value.FitsInt64 (Int64.minValue.toInt - (1 : Int64).toInt) ∧
      Value.int Int64.minValue - .int 1 = .int Int64.minValue := by
  refine ⟨by decide, by decide +kernel, by decide, by decide +kernel⟩

end Stencil

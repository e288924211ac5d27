/-
# Stencil.Proofs.Double.Integer -- integers as binary64 numbers

An integer is rounded to 53 significant bits when it becomes a binary64 number, and stays an
integer (`toInt?_ofInt`). So integers can be followed through sums and differences of
binary64 numbers without leaving them: the operation on the rounded integers is exact, and
its result is rounded once more (`onDouble_eq_ofInt`).

The range of 64 bits ends in powers of two, and rounding does not cross these. What adds up
to such an end or goes past it still does so when both terms and the sum have been rounded
(`le_nearestInt_add`): the errors of the terms are too small to take the sum back over the
midpoint below the end.
-/
import Stencil.Proofs.Double.Grid
import Stencil.Value.Arithmetic

namespace Stencil

/-! ## Two rounded terms -/

namespace Grid

theorem stepAt_dvd_two_pow {n j : Nat} (h : n < 2 ^ (j + 53)) : stepAt n ∣ 2 ^ j := by
  refine Nat.pow_dvd_pow 2 ?_
  by_cases hn : n = 0
  · simp [hn]
  · have := (Nat.log2_lt hn).mpr h
    omega

/-- Two rounded terms miss a power of two that their sum reaches by half a step at most. -/
theorem le_rounded_add_rounded {a b : Nat} (ha : a ≤ 2 ^ 63) (hb : b ≤ a) (h : 2 ^ 63 ≤ a + b) :
    2 ^ 63 - 512 ≤ rounded a + rounded b := by
  have hlow : 2 ^ 62 ≤ rounded a := two_pow_le_rounded (by omega)
  by_cases htop : a = 2 ^ 63
  · have : 2 ^ 63 ≤ rounded a := two_pow_le_rounded (by omega)
    omega
  by_cases hhalf : 2 ^ 62 ≤ b
  · have : 2 ^ 62 ≤ rounded b := two_pow_le_rounded hhalf
    omega
  have hstep : stepAt a = 2 ^ 10 :=
    stepAt_of_log2 (log2_eq_of_le_of_lt (j := 62) (by omega) (by omega))
  have hdvd : stepAt b ∣ 2 ^ 9 := stepAt_dvd_two_pow (by omega)
  -- everything is counted in steps of the smaller term, where half a step too little is nothing
  obtain ⟨s, hs⟩ := stepAt_dvd_rounded b
  obtain ⟨t, ht⟩ : stepAt b ∣ rounded a :=
    (hdvd.trans (hstep ▸ Nat.pow_dvd_pow 2 (by decide))).trans (stepAt_dvd_rounded a)
  obtain ⟨r, hr⟩ : stepAt b ∣ 2 ^ 63 - 512 := hdvd.trans (by decide)
  have hcount : 2 * r ≤ 2 * (t + s) + 1 := by
    refine Nat.le_of_mul_le_mul_left ?_ (stepAt_pos b)
    have hea := (rounded_error a).1
    have heb := (rounded_error b).1
    calc stepAt b * (2 * r) = 2 * (2 ^ 63 - 512) := by rw [hr]; ring
      _ ≤ 2 * (rounded a + rounded b) + stepAt b := by omega
      _ = stepAt b * (2 * (t + s) + 1) := by rw [ht, hs]; ring
  calc 2 ^ 63 - 512 = stepAt b * r := hr
    _ ≤ stepAt b * (t + s) := Nat.mul_le_mul_left _ (by omega)
    _ = rounded a + rounded b := by rw [Nat.mul_add, ← ht, ← hs]

/-- From the midpoint in front of it, whose own place is odd, the power of two is reached. -/
theorem le_rounded_of_midpoint {n : Nat} (h : 2 ^ 63 - 512 ≤ n) : 2 ^ 63 ≤ rounded n := by
  by_cases htop : 2 ^ 63 ≤ n
  · exact two_pow_le_rounded htop
  have hstep : stepAt n = 2 ^ 10 :=
    stepAt_of_log2 (log2_eq_of_le_of_lt (j := 62) (by omega) (by omega))
  have hquotient : divNearestEven n (2 ^ 10) = 2 ^ 53 := by
    have hdiv : n / 2 ^ 10 = 2 ^ 53 - 1 := by omega
    have htie : compare (2 * (n % 2 ^ 10)) (2 ^ 10) ≠ .lt := by
      rw [Ne, Nat.compare_eq_lt]
      omega
    unfold divNearestEven
    rw [hdiv]
    cases hc : compare (2 * (n % 2 ^ 10)) (2 ^ 10) with
    | lt => exact absurd hc htie
    | eq => rfl
    | gt => rfl
  rw [rounded, hstep, hquotient]
  decide

/-- The sum of two rounded terms, rounded itself, reaches a power of two that the terms reach. -/
theorem le_rounded_sum {a b : Nat} (ha : a ≤ 2 ^ 63) (hb : b ≤ 2 ^ 63) (h : 2 ^ 63 ≤ a + b) :
    2 ^ 63 ≤ rounded (rounded a + rounded b) := by
  refine le_rounded_of_midpoint ?_
  rcases Nat.le_total b a with hle | hle
  · exact le_rounded_add_rounded ha hle h
  · rw [Nat.add_comm] at h ⊢
    exact le_rounded_add_rounded hb hle h

theorem le_rounded_add {n : Nat} (h : n ≤ 2 ^ 63) : n ≤ rounded n + 512 := by
  by_cases htop : n = 2 ^ 63
  · have : 2 ^ 63 ≤ rounded n := two_pow_le_rounded (by omega)
    omega
  have hstep : stepAt n ≤ 2 ^ 10 :=
    Nat.le_of_dvd (by decide) (stepAt_dvd_two_pow (by omega))
  have := (rounded_error n).1
  omega

/-- Up to half a step past the power of two, a number is rounded to it, the tie included. -/
theorem rounded_eq_of_le {n : Nat} (hlow : 2 ^ 63 ≤ n) (h : n ≤ 2 ^ 63 + 1024) :
    rounded n = 2 ^ 63 := by
  have hstep : stepAt n = 2 ^ 11 :=
    stepAt_of_log2 (log2_eq_of_le_of_lt (j := 63) hlow (by omega))
  have hquotient : divNearestEven n (2 ^ 11) = 2 ^ 52 := by
    have hdiv : n / 2 ^ 11 = 2 ^ 52 := by omega
    have hmod : compare (2 * (n % 2 ^ 11)) (2 ^ 11) ≠ .gt := by
      rw [Ne, Nat.compare_eq_gt]
      omega
    unfold divNearestEven
    rw [hdiv]
    cases hc : compare (2 * (n % 2 ^ 11)) (2 ^ 11) with
    | lt => rfl
    | eq => rfl
    | gt => exact absurd hc hmod
  rw [rounded, hstep, hquotient]
  decide

/-- What is rounded to the power of two lies half a step past it at most. -/
theorem le_of_rounded_eq {n : Nat} (h : rounded n = 2 ^ 63) : n ≤ 2 ^ 63 + 1024 := by
  by_cases hlow : n < 2 ^ 63
  · omega
  have hhigh : n < 2 ^ 64 := by
    refine Nat.lt_of_not_le fun hge => ?_
    have := two_pow_le_rounded hge
    omega
  have hstep : stepAt n = 2 ^ 11 :=
    stepAt_of_log2 (log2_eq_of_le_of_lt (j := 63) (by omega) (by omega))
  have := (rounded_error n).1
  omega

end Grid

namespace Double

/-! ## Integers -/

/-- The integer that an integer becomes as a binary64 number. -/
def nearestInt (n : Int) : Int := signed (n < 0) (Grid.rounded n.natAbs)

theorem signed_mul (s : Bool) (m k : Nat) : signed s (m * k) = signed s m * k := by
  cases s with
  | true => show -((m * k : Nat) : Int) = -(m : Int) * k; push_cast; ring
  | false => show ((m * k : Nat) : Int) = (m : Int) * k; push_cast; ring

theorem signed_not (s : Bool) (m : Nat) : signed (!s) m = -signed s m := by
  cases s <;> simp [signed]

theorem natAbs_signed (s : Bool) (m : Nat) : (signed s m).natAbs = m := by
  cases s <;> simp [signed]

theorem nearestInt_of_nonneg {n : Int} (h : 0 ≤ n) : nearestInt n = Grid.rounded n.natAbs := by
  simp [nearestInt, signed, Int.not_lt.mpr h]

theorem natAbs_nearestInt (n : Int) : (nearestInt n).natAbs = Grid.rounded n.natAbs :=
  natAbs_signed _ _

theorem nearestInt_neg (n : Int) : nearestInt (-n) = -nearestInt n := by
  rcases Int.lt_trichotomy n 0 with h | h | h
  · rw [nearestInt_of_nonneg (by omega), Int.natAbs_neg]
    simp [nearestInt, signed, h]
  · rw [h]
    rfl
  · rw [nearestInt_of_nonneg (n := n) (by omega), ← Int.natAbs_neg]
    simp [nearestInt, signed, h]

theorem toInt?_finite (s : Bool) (m : Magnitude) : (finite s m).toInt? =
    if m.units % Grid.one = 0 then some (signed s (m.units / Grid.one)) else none := rfl

/-- The integer that a finite number is: its units are so many times one. -/
theorem toInt?_eq_some_iff {x : Double} {n : Int} :
    x.toInt? = some n ↔ ∃ s m, x = .finite s m ∧ signed s m.units = n * Grid.one := by
  constructor
  · intro h
    cases x with
    | nan => cases h
    | infinite => cases h
    | finite s m =>
      rw [toInt?_finite] at h
      split at h
      · rename_i hmod
        refine ⟨s, m, rfl, ?_⟩
        rw [← Option.some.inj h, ← signed_mul, Nat.div_mul_cancel (Nat.dvd_of_mod_eq_zero hmod)]
      · cases h
  · rintro ⟨s, m, rfl, hunits⟩
    have habs : m.units = n.natAbs * Grid.one := by
      have h := congrArg Int.natAbs hunits
      rwa [natAbs_signed, Int.natAbs_mul, Int.natAbs_natCast] at h
    have hdvd : m.units % Grid.one = 0 := by rw [habs, Nat.mul_mod_left]
    rw [toInt?_finite, if_pos hdvd, habs, Nat.mul_div_cancel _ Grid.one_pos]
    rw [habs, signed_mul] at hunits
    exact congrArg some (Int.eq_of_mul_eq_mul_right (Int.ne_of_gt Grid.intCast_one_pos) hunits)

/-- A whole number of ones is rounded as an integer. -/
theorem round_mul_one {s : Bool} {n : Nat} (h : Grid.nearest (n * Grid.one) 1 < Grid.size) :
    (round s (n * Grid.one) 1).toInt? = some (signed s (Grid.rounded n)) := by
  unfold round
  rw [dif_pos h, toInt?_eq_some_iff]
  refine ⟨s, _, rfl, ?_⟩
  show signed s (Grid.units _) = _
  rw [Grid.units_nearest, Grid.rounded_mul_one, signed_mul]

theorem toInt?_ofInt {n : Int} {j : Nat} (h : n.natAbs ≤ 2 ^ j) (hj : j < 1024) :
    (ofInt n).toInt? = some (nearestInt n) := round_mul_one (Grid.nearest_lt_size h hj)

/-- An integer of any size is an integer as a binary64 number, unless it becomes an infinity. -/
theorem toInt?_ofInt_of_isFinite {n : Int} (h : (ofInt n).isFinite = true) :
    (ofInt n).toInt? = some (nearestInt n) := by
  refine round_mul_one (Decidable.byContradiction fun hplace => ?_)
  rw [ofInt, round, dif_neg hplace] at h
  cases h

theorem toInt?_neg {x : Double} {n : Int} (h : x.toInt? = some n) : (-x).toInt? = some (-n) := by
  obtain ⟨s, m, rfl, hunits⟩ := toInt?_eq_some_iff.mp h
  refine toInt?_eq_some_iff.mpr ⟨!s, m, rfl, ?_⟩
  rw [signed_not, hunits, Int.neg_mul]

/-- What is an integer is a finite number. -/
theorem isFinite_of_toInt? {x : Double} {n : Int} (h : x.toInt? = some n) : x.isFinite = true := by
  obtain ⟨s, m, rfl, -⟩ := toInt?_eq_some_iff.mp h
  rfl

/-! ## Sums and differences of integers -/

/-- A sum that is not zero is that of the integers, rounded. -/
theorem add_eq_ofInt {x y : Double} {a b : Int} (hx : x.toInt? = some a) (hy : y.toInt? = some b)
    (h : a + b ≠ 0) : x + y = ofInt (a + b) := by
  obtain ⟨s, m, rfl, hm⟩ := toInt?_eq_some_iff.mp hx
  obtain ⟨t, k, rfl, hk⟩ := toInt?_eq_some_iff.mp hy
  have hone := Grid.intCast_one_pos
  have hsum : signed s m.units + signed t k.units = (a + b) * Grid.one := by
    rw [hm, hk, Int.add_mul]
  have hne : (a + b) * Grid.one ≠ 0 := Int.mul_ne_zero h (by omega)
  have hsign : (a + b) * Grid.one < 0 ↔ a + b < 0 := by
    refine ⟨fun hneg => ?_, fun hneg => Int.mul_neg_of_neg_of_pos hneg hone⟩
    refine Int.not_le.mp fun hnonneg => ?_
    exact absurd (Int.mul_nonneg hnonneg (Int.le_of_lt hone)) (Int.not_le.mpr hneg)
  show (if signed s m.units + signed t k.units = 0 then _ else
    round (signed s m.units + signed t k.units < 0) (signed s m.units + signed t k.units).natAbs 1)
      = _
  rw [hsum, if_neg hne, Int.natAbs_mul, Int.natAbs_natCast]
  simp only [hsign]
  rfl

/-- A sum or difference that is not zero is that of the integers, rounded. -/
theorem onDouble_eq_ofInt {op : Additive} {x y : Double} {a b : Int} (hx : x.toInt? = some a)
    (hy : y.toInt? = some b) (h : op.onInt a b ≠ 0) :
    op.onDouble x y = ofInt (op.onInt a b) := by
  cases op with
  | plus => exact add_eq_ofInt hx hy h
  | minus =>
    show x + -y = ofInt (a - b)
    rw [Int.sub_eq_add_neg]
    exact add_eq_ofInt hx (toInt?_neg hy) (by rwa [← Int.sub_eq_add_neg])

/-- Terms of one sign are added and rounded as magnitudes. -/
theorem nearestInt_add_of_nonneg {a b : Int} (ha : 0 ≤ a) (hb : 0 ≤ b) :
    nearestInt (nearestInt a + nearestInt b) =
      Grid.rounded (Grid.rounded a.natAbs + Grid.rounded b.natAbs) := by
  rw [nearestInt_of_nonneg ha, nearestInt_of_nonneg hb, nearestInt_of_nonneg (by omega),
    ← Int.natCast_add, Int.natAbs_natCast]

theorem nearestInt_add_of_nonpos {a b : Int} (ha : a ≤ 0) (hb : b ≤ 0) :
    nearestInt (nearestInt a + nearestInt b) =
      -(Grid.rounded (Grid.rounded a.natAbs + Grid.rounded b.natAbs) : Int) := by
  have h := nearestInt_add_of_nonneg (Int.neg_nonneg_of_nonpos ha) (Int.neg_nonneg_of_nonpos hb)
  rw [nearestInt_neg, nearestInt_neg, ← Int.neg_add, nearestInt_neg, Int.natAbs_neg,
    Int.natAbs_neg] at h
  omega

/-- Integers that add up to the end of the range or past it do so as binary64 numbers too. -/
theorem le_nearestInt_add {a b : Int} (ha : a ≤ 2 ^ 63) (hb : b ≤ 2 ^ 63) (h : 2 ^ 63 ≤ a + b) :
    2 ^ 63 ≤ nearestInt (nearestInt a + nearestInt b) := by
  rw [nearestInt_add_of_nonneg (by omega) (by omega)]
  have := Grid.le_rounded_sum (a := a.natAbs) (b := b.natAbs) (by omega) (by omega) (by omega)
  omega

theorem nearestInt_add_le {a b : Int} (ha : -2 ^ 63 ≤ a) (hb : -2 ^ 63 ≤ b)
    (h : a + b ≤ -2 ^ 63) : nearestInt (nearestInt a + nearestInt b) ≤ -2 ^ 63 := by
  rw [nearestInt_add_of_nonpos (by omega) (by omega)]
  have := Grid.le_rounded_sum (a := a.natAbs) (b := b.natAbs) (by omega) (by omega) (by omega)
  omega

/-- A sum that is rounded to the lower end of the range is not far from it. -/
theorem le_add_of_nearestInt_eq {a b : Int} (ha : -2 ^ 63 ≤ a) (hb : -2 ^ 63 ≤ b)
    (hlow : a + b ≤ -2 ^ 63) (h : nearestInt (nearestInt a + nearestInt b) = -2 ^ 63) :
    -2 ^ 63 - 2048 ≤ a + b := by
  rw [nearestInt_add_of_nonpos (by omega) (by omega)] at h
  have := Grid.le_of_rounded_eq (n := Grid.rounded a.natAbs + Grid.rounded b.natAbs) (by omega)
  have := Grid.le_rounded_add (n := a.natAbs) (by omega)
  have := Grid.le_rounded_add (n := b.natAbs) (by omega)
  omega

/-- A sum outside the range stays outside when it is computed with binary64 numbers, unless it is
rounded to the lower end from close below. -/
theorem nearestInt_add_outside {a b : Int} (ha : -2 ^ 63 ≤ a ∧ a ≤ 2 ^ 63)
    (hb : -2 ^ 63 ≤ b ∧ b ≤ 2 ^ 63) (h : ¬ (-2 ^ 63 ≤ a + b ∧ a + b < 2 ^ 63)) :
    let r := nearestInt (nearestInt a + nearestInt b)
    2 ^ 63 ≤ r ∨ r ≤ -2 ^ 63 ∧ a + b < -2 ^ 63 ∧ (r = -2 ^ 63 → -2 ^ 63 - 2048 ≤ a + b) := by
  by_cases hhigh : 2 ^ 63 ≤ a + b
  · exact .inl (le_nearestInt_add ha.2 hb.2 hhigh)
  · have hlow : a + b < -2 ^ 63 := Int.not_le.mp fun hge => h ⟨hge, Int.not_le.mp hhigh⟩
    exact .inr ⟨nearestInt_add_le ha.1 hb.1 (Int.le_of_lt hlow), hlow,
      le_add_of_nearestInt_eq ha.1 hb.1 (Int.le_of_lt hlow)⟩

theorem natAbs_nearestInt_le {n : Int} {j : Nat} (h : n.natAbs ≤ 2 ^ j) :
    (nearestInt n).natAbs ≤ 2 ^ j := by
  rw [natAbs_nearestInt]
  exact Grid.rounded_le_two_pow h

/-! ## Single integers at the ends of the range -/

theorem nearestInt_of_nonpos {n : Int} (h : n ≤ 0) : nearestInt n = -Grid.rounded n.natAbs := by
  have hneg := nearestInt_of_nonneg (Int.neg_nonneg_of_nonpos h)
  rw [nearestInt_neg, Int.natAbs_neg] at hneg
  omega

theorem le_nearestInt {n : Int} (h : 2 ^ 63 ≤ n) : 2 ^ 63 ≤ nearestInt n := by
  rw [nearestInt_of_nonneg (by omega)]
  have : 2 ^ 63 ≤ Grid.rounded n.natAbs := Grid.two_pow_le_rounded (by omega)
  omega

/-- Below the lower end, an integer is rounded to this end just if it is within half a step. -/
theorem nearestInt_eq_iff {n : Int} (h : n < -2 ^ 63) :
    nearestInt n = -2 ^ 63 ↔ -2 ^ 63 - 1024 ≤ n := by
  rw [nearestInt_of_nonpos (by omega)]
  constructor
  · intro heq
    have := Grid.le_of_rounded_eq (n := n.natAbs) (by omega)
    omega
  · intro hclose
    have := Grid.rounded_eq_of_le (n := n.natAbs) (by omega) (by omega)
    omega

theorem nearestInt_le {n : Int} (h : n ≤ -2 ^ 63) : nearestInt n ≤ -2 ^ 63 := by
  rw [nearestInt_of_nonpos (by omega)]
  have : 2 ^ 63 ≤ Grid.rounded n.natAbs := Grid.two_pow_le_rounded (by omega)
  omega

end Double

end Stencil

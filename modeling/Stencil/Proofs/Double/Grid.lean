/-
# Stencil.Proofs.Double.Grid -- the order of the grid, and rounding to it

The magnitudes of the grid increase strictly with their places, so a magnitude has one
place only (`units_strictMono`). A whole number of units is rounded to 53 significant bits,
a tie to even, and this is all that `nearest` does to it (`units_nearest`): the places carry
it out without a case for the carry into the next range.

Rounding commutes with powers of two (`rounded_mul_pow`), never crosses one
(`two_pow_le_rounded`, `rounded_le_two_pow`), and moves a number by half a step at most.
-/
import Mathlib.Data.Nat.Log
import Mathlib.Order.Monotone.Basic
import Mathlib.Tactic.Ring
import Stencil.Double.Grid

namespace Stencil.Grid

/-! ## Places in order -/

/-- The next magnitude is one step further. -/
theorem units_succ (k : Nat) : units (k + 1) = units k + 2 ^ exponent k := by
  have hpow : Nat.pow 2 52 = 2 ^ 52 := rfl
  have hsig : ∀ l, significand l = l - exponent l * 2 ^ 52 := fun _ => rfl
  have hexp : ∀ l, exponent l = l / 2 ^ 52 - 1 := fun _ => rfl
  show significand (k + 1) * 2 ^ exponent (k + 1) = significand k * 2 ^ exponent k + 2 ^ exponent k
  by_cases hrange : exponent (k + 1) = exponent k
  · have hnext : significand (k + 1) = significand k + 1 := by
      have := hsig k
      have := hsig (k + 1)
      have := hexp k
      rw [hrange] at *
      omega
    rw [hrange, hnext, Nat.add_mul, Nat.one_mul]
  · -- the last place of a range: the next one has half the significand and twice the step
    have hstep : exponent (k + 1) = exponent k + 1 := by
      have := hexp k
      have := hexp (k + 1)
      omega
    have hlast : significand k = 2 ^ 53 - 1 := by
      have := hsig k
      have := hexp k
      have := hexp (k + 1)
      omega
    have hfirst : significand (k + 1) = 2 ^ 52 := by
      have := hsig (k + 1)
      have := hexp k
      have := hexp (k + 1)
      omega
    rw [hstep, hlast, hfirst, Nat.pow_succ]
    omega

/-- A later place holds a larger magnitude, so that no magnitude has two places. -/
theorem units_strictMono : StrictMono units := by
  refine strictMono_nat_of_lt_succ fun k => ?_
  have := units_succ k
  have := Nat.two_pow_pos (exponent k)
  omega

/-- The magnitude that is a significand at an exponent; the first significand of the next
range counts too. -/
theorem units_place {e m : Nat} (hlow : e = 0 ∨ 2 ^ 52 ≤ m) (hhigh : m ≤ 2 ^ 53) :
    units (e * 2 ^ 52 + m) = m * 2 ^ e := by
  have hsig : ∀ l, significand l = l - exponent l * 2 ^ 52 := fun _ => rfl
  have hexp : ∀ l, exponent l = l / 2 ^ 52 - 1 := fun _ => rfl
  show significand _ * 2 ^ exponent _ = _
  by_cases hcarry : m = 2 ^ 53
  · have he : exponent (e * 2 ^ 52 + m) = e + 1 := by
      have := hexp (e * 2 ^ 52 + m)
      omega
    have hm : e * 2 ^ 52 + m - (e + 1) * 2 ^ 52 = 2 ^ 52 := by omega
    rw [hsig, he, hm, hcarry, ← Nat.pow_add, ← Nat.pow_add, Nat.add_comm e, ← Nat.add_assoc]
  · have he : exponent (e * 2 ^ 52 + m) = e := by
      have := hexp (e * 2 ^ 52 + m)
      omega
    rw [hsig, he, Nat.add_sub_cancel_left]

/-! ## Rounding a quotient to a whole number -/

/-- A quotient is rounded down or up, each only where the remainder allows it: the rule for a tie
chooses between the two and is not needed beyond. -/
theorem divNearestEven_eq_or (n d : Nat) :
    (divNearestEven n d = n / d ∧ 2 * (n % d) ≤ d) ∨
      (divNearestEven n d = n / d + 1 ∧ d ≤ 2 * (n % d)) := by
  unfold divNearestEven
  cases h : compare (2 * (n % d)) d with
  | lt => exact .inl ⟨rfl, Nat.le_of_lt (Nat.compare_eq_lt.mp h)⟩
  | gt => exact .inr ⟨rfl, Nat.le_of_lt (Nat.compare_eq_gt.mp h)⟩
  | eq =>
    have htie := Nat.compare_eq_eq.mp h
    rcases Nat.mod_two_eq_zero_or_one (n / d) with heven | hodd
    · exact .inl ⟨by simp only [heven, Nat.add_zero], by omega⟩
    · exact .inr ⟨by simp only [hodd], by omega⟩

theorem div_le_divNearestEven (n d : Nat) : n / d ≤ divNearestEven n d := by
  obtain ⟨h, -⟩ | ⟨h, -⟩ := divNearestEven_eq_or n d <;> omega

/-- A quotient moves by half a unit at most when it is rounded. -/
theorem divNearestEven_error (n : Nat) {d : Nat} (hd : 0 < d) :
    2 * n ≤ 2 * (divNearestEven n d * d) + d ∧ 2 * (divNearestEven n d * d) ≤ 2 * n + d := by
  have hdiv := Nat.div_add_mod' n d
  have hlt := Nat.mod_lt n hd
  obtain ⟨h, hmod⟩ | ⟨h, hmod⟩ := divNearestEven_eq_or n d
  · rw [h]
    omega
  · rw [h, Nat.add_mul, Nat.one_mul]
    omega

theorem divNearestEven_mul (q : Nat) {d : Nat} (hd : 0 < d) : divNearestEven (q * d) d = q := by
  obtain ⟨h, -⟩ | ⟨-, hmod⟩ := divNearestEven_eq_or (q * d) d
  · rw [h, Nat.mul_div_cancel _ hd]
  · rw [Nat.mul_mod_left] at hmod
    omega

/-- The quotient alone counts. -/
theorem divNearestEven_mul_right (n d : Nat) {c : Nat} (hc : 0 < c) :
    divNearestEven (n * c) (d * c) = divNearestEven n d := by
  have hcompare : compare (2 * (n * c % (d * c))) (d * c) = compare (2 * (n % d)) d := by
    rw [Nat.mul_mod_mul_right, ← Nat.mul_assoc, Nat.compare_eq_ite_lt, Nat.compare_eq_ite_lt]
    simp only [Nat.mul_lt_mul_right hc]
  unfold divNearestEven
  rw [hcompare, Nat.mul_div_mul_right _ _ hc]

/-! ## Rounding to 53 significant bits -/

/-- The step of the grid at a whole number of units. -/
def stepAt (n : Nat) : Nat := 2 ^ (n.log2 - 52)

/-- A whole number of units rounded to the grid: to 53 significant bits, a tie to even. -/
def rounded (n : Nat) : Nat := divNearestEven n (stepAt n) * stepAt n

variable {n j : Nat}

theorem stepAt_pos (n : Nat) : 0 < stepAt n := Nat.two_pow_pos _

theorem stepAt_of_log2 {l : Nat} (h : n.log2 = l) : stepAt n = 2 ^ (l - 52) := by rw [stepAt, h]

theorem log2_eq_of_le_of_lt (hlow : 2 ^ j ≤ n) (hhigh : n < 2 ^ (j + 1)) : n.log2 = j := by
  have hn : n ≠ 0 := by
    have := Nat.two_pow_pos j
    omega
  exact (Nat.log2_eq_iff hn).mpr ⟨hlow, hhigh⟩

theorem le_log2_of_le (h : 2 ^ j ≤ n) : j ≤ n.log2 := by
  have hn : n ≠ 0 := by
    have := Nat.two_pow_pos j
    omega
  exact (Nat.le_log2 hn).mpr h

/-- The significand, before it is rounded, has 53 bits unless the number has fewer. -/
theorem div_stepAt_lt (n : Nat) : n / stepAt n < 2 ^ 53 := by
  rw [Nat.div_lt_iff_lt_mul (stepAt_pos n), stepAt, ← Nat.pow_add]
  exact Nat.lt_of_lt_of_le Nat.lt_log2_self (Nat.pow_le_pow_right (by decide) (by omega))

theorem le_div_stepAt (h : 52 ≤ n.log2) : 2 ^ 52 ≤ n / stepAt n := by
  have hn : n ≠ 0 := by
    rintro rfl
    simp at h
  rw [Nat.le_div_iff_mul_le (stepAt_pos n), stepAt, ← Nat.pow_add, Nat.add_sub_cancel' h]
  exact Nat.log2_self_le hn

theorem divNearestEven_stepAt_le (n : Nat) : divNearestEven n (stepAt n) ≤ 2 ^ 53 := by
  have := div_stepAt_lt n
  obtain ⟨h, -⟩ | ⟨h, -⟩ := divNearestEven_eq_or n (stepAt n) <;> omega

/-- The place that is nearest to a whole number of units holds that number rounded. -/
theorem units_nearest (n : Nat) : units (nearest n 1) = rounded n := by
  have hnearest : nearest n 1 =
      (n.log2 - 52) * 2 ^ 52 + divNearestEven n (stepAt n) := by
    show ((n / 1).log2 - 52) * 2 ^ 52 + divNearestEven n (1 * 2 ^ ((n / 1).log2 - 52)) = _
    rw [Nat.div_one, Nat.one_mul, stepAt]
  rw [hnearest]
  refine units_place ?_ (divNearestEven_stepAt_le n)
  by_cases h : 52 ≤ n.log2
  · exact .inr ((le_div_stepAt h).trans (div_le_divNearestEven _ _))
  · exact .inl (by omega)

/-- A number moves by half a step at most when it is rounded. -/
theorem rounded_error (n : Nat) :
    2 * n ≤ 2 * rounded n + stepAt n ∧ 2 * rounded n ≤ 2 * n + stepAt n :=
  divNearestEven_error n (stepAt_pos n)

theorem stepAt_dvd_rounded (n : Nat) : stepAt n ∣ rounded n := Nat.dvd_mul_left _ _

/-- What is a whole number of steps stays as it is. -/
theorem rounded_of_dvd (h : stepAt n ∣ n) : rounded n = n := by
  obtain ⟨q, hq⟩ := h
  have hdiv := divNearestEven_mul q (stepAt_pos n)
  rw [Nat.mul_comm, ← hq] at hdiv
  rw [rounded, hdiv, Nat.mul_comm]
  exact hq.symm

/-- A number of at most 53 bits is on the grid. -/
theorem rounded_of_lt (h : n < 2 ^ 53) : rounded n = n := by
  refine rounded_of_dvd ?_
  have hlog : n.log2 ≤ 52 := by
    by_cases hn : n = 0
    · simp [hn]
    · exact Nat.lt_succ_iff.mp ((Nat.log2_lt hn).mpr h)
  rw [stepAt, Nat.sub_eq_zero_of_le hlog]
  exact Nat.one_dvd n

/-- Rounding keeps the leading bits, which a power of two as a factor leaves alone. -/
theorem rounded_mul_pow (n k : Nat) : rounded (n * Nat.pow 2 k) = rounded n * Nat.pow 2 k := by
  show rounded (n * 2 ^ k) = rounded n * 2 ^ k
  have hpos := Nat.two_pow_pos k
  by_cases hn : n = 0
  · rw [hn, Nat.zero_mul, rounded_of_lt (by decide), Nat.zero_mul]
  have hlog : (n * 2 ^ k).log2 = n.log2 + k := by
    obtain ⟨hlow, hhigh⟩ := (Nat.log2_eq_iff hn).mp rfl
    refine log2_eq_of_le_of_lt ?_ ?_
    · rw [Nat.pow_add]
      exact Nat.mul_le_mul_right _ hlow
    · rw [Nat.add_right_comm, Nat.pow_add]
      exact Nat.mul_lt_mul_of_pos_right hhigh hpos
  by_cases h : 52 ≤ n.log2
  · have hstep : stepAt (n * 2 ^ k) = stepAt n * 2 ^ k := by
      rw [stepAt, stepAt, hlog, Nat.sub_add_comm h, Nat.pow_add]
    rw [rounded, rounded, hstep, divNearestEven_mul_right _ _ hpos, Nat.mul_assoc]
  · -- too few bits to be rounded at all
    have hsmall : n < 2 ^ 53 :=
      Nat.lt_of_lt_of_le Nat.lt_log2_self (Nat.pow_le_pow_right (by decide) (by omega))
    rw [rounded_of_lt hsmall]
    refine rounded_of_dvd (Nat.dvd_mul_left_of_dvd ?_ n)
    rw [stepAt, hlog]
    exact Nat.pow_dvd_pow 2 (by omega)

/-! ## Powers of two -/

/-- A number is not rounded below a power of two that it has reached. -/
theorem two_pow_le_rounded (h : 2 ^ j ≤ n) : 2 ^ j ≤ rounded n := by
  by_cases hsmall : n < 2 ^ 53
  · rwa [rounded_of_lt hsmall]
  have hlog : 52 ≤ n.log2 := le_log2_of_le (by omega)
  calc 2 ^ j ≤ 2 ^ (52 + (n.log2 - 52)) :=
        Nat.pow_le_pow_right (by decide) (by have := le_log2_of_le h; omega)
    _ = 2 ^ 52 * stepAt n := Nat.pow_add ..
    _ ≤ divNearestEven n (stepAt n) * stepAt n :=
        Nat.mul_le_mul_right _ ((le_div_stepAt hlog).trans (div_le_divNearestEven _ _))

theorem rounded_le_two_pow (h : n ≤ 2 ^ j) : rounded n ≤ 2 ^ j := by
  by_cases hsmall : n < 2 ^ 53
  · rwa [rounded_of_lt hsmall]
  by_cases htop : n = 2 ^ j
  · -- a power of two is on the grid
    have hone := rounded_mul_pow 1 j
    rw [Nat.one_mul, rounded_of_lt (by decide : 1 < 2 ^ 53), Nat.one_mul] at hone
    rw [htop]
    exact Nat.le_of_eq hone
  have hlog : n.log2 < j := (Nat.log2_lt (by omega)).mpr (Nat.lt_of_le_of_ne h htop)
  have hlow : 52 ≤ n.log2 := le_log2_of_le (by omega)
  calc rounded n ≤ 2 ^ 53 * stepAt n := Nat.mul_le_mul_right _ (divNearestEven_stepAt_le n)
    _ = 2 ^ (53 + (n.log2 - 52)) := (Nat.pow_add ..).symm
    _ ≤ 2 ^ j := Nat.pow_le_pow_right (by decide) (by omega)

/-! ## Integers -/

/-- One is a power of two. Its exponent stays a variable, as a power with so large a literal is
not evaluated. -/
theorem one_eq : ∃ k, k = 1074 ∧ one = Nat.pow 2 k := by
  unfold one
  exact ⟨_, rfl, rfl⟩

theorem one_pos : 0 < one := by
  obtain ⟨k, -, h⟩ := one_eq
  rw [h]
  exact Nat.two_pow_pos k

theorem intCast_one_pos : 0 < (one : Int) := Int.natCast_pos.mpr one_pos

theorem rounded_mul_one (n : Nat) : rounded (n * one) = rounded n * one := by
  obtain ⟨k, -, h⟩ := one_eq
  rw [h, rounded_mul_pow]

/-- What comes after the last magnitude is a power of two. -/
theorem units_size {j : Nat} (hj : j = 1024) : units size = Nat.pow 2 j * one := by
  have hsize : size = 2046 * 2 ^ 52 + 2 ^ 52 := rfl
  obtain ⟨k, hk, h⟩ := one_eq
  have hexp : 52 + 2046 = j + k := by omega
  rw [hsize, units_place (.inr (Nat.le_refl _)) (by decide), h, ← Nat.pow_add, hexp]
  exact Nat.pow_add 2 j k

/-- Integers up to a power of two that is on the grid have a place on it. -/
theorem nearest_lt_size (h : n ≤ 2 ^ j) (hj : j < 1024) : nearest (n * one) 1 < size := by
  obtain ⟨k, hk⟩ : ∃ k, k = 1024 := ⟨_, rfl⟩
  have hlt : 2 ^ j < Nat.pow 2 k := Nat.pow_lt_pow_right (by decide) (by omega)
  rw [← units_strictMono.lt_iff_lt, units_nearest, rounded_mul_one, units_size hk]
  exact Nat.mul_lt_mul_of_pos_right (Nat.lt_of_le_of_lt (rounded_le_two_pow h) hlt) one_pos

end Stencil.Grid

/-
# Stencil.Double.Grid -- the binary64 magnitudes in increasing order

The magnitudes of binary64 form a fixed increasing sequence. This module names
each one by its place `k` in that sequence: place `0` is zero, place `1` the
least positive magnitude, and so on through the subnormal and the normal range.
Every magnitude is a whole number of *units* of `2^-1074`, so no fraction is
ever needed: `units k` is the `k`-th magnitude, as a natural number of units.

    k < 2^53              : units k = k            (step one unit)
    e·2^52 + m, 2^52 ≤ m  : units k = m · 2^e      (step 2^e units)

Both lines are one formula, because consecutive ranges join without a gap.
`size` is the place where the format ends; `units size` is the magnitude that
would come next, and rounding to it is what overflow means.

`nearest n d` is the place whose magnitude is nearest to `n / d` units, a tie
going to the even place. It is exact on quotients, so one rounding is all that
any operation of the format ever needs.
-/

namespace Stencil.Grid

/-! ## Places and their magnitudes -/

/-- The number of finite magnitudes; also the first place past them. -/
def size : Nat := 2047 * Nat.pow 2 52

/-- The step of the grid just above place `k` is `2 ^ exponent k` units. -/
def exponent (k : Nat) : Nat := k / Nat.pow 2 52 - 1

/-- The significand at place `k`: its magnitude counted in steps. -/
def significand (k : Nat) : Nat := k - exponent k * Nat.pow 2 52

/-- The magnitude at place `k`, in units of `2 ^ -1074`. -/
def units (k : Nat) : Nat := significand k * Nat.pow 2 (exponent k)

/-- The number of units in one. -/
def one : Nat := Nat.pow 2 1074

/-! ## Rounding a quotient to the grid -/

/-- The quotient `n / d` rounded to the nearest whole number, a tie to even. -/
def divNearestEven (n d : Nat) : Nat :=
  let q := n / d
  match compare (2 * (n % d)) d with
  | .lt => q
  | .gt => q + 1
  | .eq => q + q % 2

/-- The place whose magnitude is nearest to `n / d` units, a tie to the even
place. A carry out of the significand lands on the next range by itself. -/
def nearest (n d : Nat) : Nat :=
  let e := (n / d).log2 - 52
  e * Nat.pow 2 52 + divNearestEven n (d * Nat.pow 2 e)

end Stencil.Grid

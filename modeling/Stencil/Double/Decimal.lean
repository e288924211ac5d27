/-
# Stencil.Double.Decimal -- between binary64 numbers and decimals

From decimals: `ofDecimal` is the binary64 number nearest to a decimal, computed
from the exact quotient and rounded once.

To decimals: `shortest` is the decimal with the fewest digits among those that
read back as the given magnitude, and of these the nearest to it. It is found
by search, coarsest power of ten first. Two facts make the search short and
plain:

* the numbers that round to a magnitude fill the interval between the midpoints
  to its two neighbours on the grid, ends included exactly if its place is even;
* a multiple of a step lies in that interval only if one of the two multiples
  next to the magnitude does.

Everything is counted in multiples of `10 ^ -1074`, of which every magnitude has
a whole number, so the search ends at step one at the latest. If both candidates
are equally near, the larger is taken.
-/
import Stencil.Decimal.Basic
import Stencil.Double.Arithmetic

namespace Stencil

/-! ## From decimals -/

/-- The binary64 number nearest to a decimal, ties to even. -/
def Double.ofDecimal (d : Decimal) : Double :=
  match d.exponent with
  | .ofNat e => round d.negative (d.coefficient * Nat.pow 10 e * Grid.one) 1
  | .negSucc e => round d.negative (d.coefficient * Grid.one) (Nat.pow 10 (e + 1))

/-! ## The decimals that read back -/

/-- The decimals that round to one magnitude. All numbers are counted in multiples
of `10 ^ -Span.places`; the two ends of the interval are doubled, so that they are
whole. -/
structure Span where
  value : Nat
  lower : Nat
  upper : Nat
  /-- Whether the ends themselves round to the magnitude. -/
  closed : Bool

namespace Span

/-- Decimals are counted in multiples of `10` to minus this. -/
def places : Nat := 1074

/-- The magnitude at a place, counted so: a unit is `5 ^ places`. -/
def scaled (place : Nat) : Nat := Grid.units place * Nat.pow 5 places

/-- The span of a magnitude, up to the midpoints to its neighbours on the grid. -/
def ofPlace (place : Nat) : Span :=
  let value := scaled place
  ⟨value, scaled (place - 1) + value, value + scaled (place + 1), place % 2 = 0⟩

/-- Whether a decimal rounds to the magnitude. -/
def holds (s : Span) (x : Nat) : Bool :=
  if s.closed then s.lower ≤ 2 * x && 2 * x ≤ s.upper
  else s.lower < 2 * x && 2 * x < s.upper

/-- The multiple of a step that is nearest to the magnitude, as a factor of the
step, if one of those next to it reads back; a tie goes up. -/
def nearestMultiple? (s : Span) (step : Nat) : Option Nat :=
  let below := s.value / step
  match s.holds (below * step), s.holds ((below + 1) * step) with
  | true, true => some (if 2 * (s.value % step) < step then below else below + 1)
  | true, false => some below
  | false, true => some (below + 1)
  | false, false => none

/-- The coarsest step `10 ^ j` with `j ≤ bound` that has a multiple in the span, and
the factor of the nearest. -/
def coarsest (s : Span) : (bound : Nat) → Nat × Nat
  | 0 => (s.value, 0)
  | j + 1 =>
    match s.nearestMultiple? (Nat.pow 10 (j + 1)) with
    | some factor => (factor, j + 1)
    | none => s.coarsest j

/-- A power of ten with a larger exponent is past the upper end: that end is below
two to the power of one more than its logarithm, and `2 ^ 93 < 10 ^ 28`. -/
def bound (s : Span) : Nat := (s.upper.log2 + 1) * 28 / 93

end Span

/-- The shortest decimal that reads back as a magnitude, with the given sign. -/
def Magnitude.shortest (negative : Bool) (m : Magnitude) : Decimal :=
  if m.place = 0 then ⟨negative, 0, 0⟩
  else
    let span := Span.ofPlace m.place
    let (factor, j) := span.coarsest span.bound
    ⟨negative, factor, (j : Int) - Span.places⟩

/-! ## Written form -/

/-- The written form of a number: the positional form of its shortest decimal, or
a word if it is not finite. -/
def Double.text : Double → String
  | .nan => "NaN"
  | .infinite negative => if negative then "-inf" else "inf"
  | .finite negative m => (m.shortest negative).text

end Stencil

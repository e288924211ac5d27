/-
# Stencil.Double.Arithmetic -- rounding, sums, order and integers

Every operation computes its exact result as a quotient of units and rounds it
once, to nearest with ties to even (`round`). Nothing is rounded twice and no
intermediate result is kept in the format.

A sum of finite numbers is a whole number of units, so it can be zero only
exactly. A zero sum is negative only if both terms are negative zeros; that one
rule also covers `x + -x`, where the signs differ.

`compare?` is the comparison of the format: `nan` is unordered, the zeros are
equal, and otherwise the order is that of signed places on the grid, an
infinity standing at the first place past the finite ones.
-/
import Stencil.Double.Basic

namespace Stencil.Double

/-! ## Rounding -/

/-- The number nearest to `n / d` units with the given sign, ties to even, an
infinity if that is past the last magnitude. -/
def round (negative : Bool) (n d : Nat) : Double :=
  let k := Grid.nearest n d
  if h : k < Grid.size then .finite negative ⟨k, h⟩ else .infinite negative

/-- The number nearest to an integer. -/
def ofInt (n : Int) : Double := round (n < 0) (n.natAbs * Grid.one) 1

/-- The integer that a number is, if it is one. Both zeros are the integer zero. -/
def toInt? : Double → Option Int
  | .finite negative m =>
    if m.units % Grid.one = 0 then some (signed negative (m.units / Grid.one)) else none
  | _ => none

/-! ## Sums and differences -/

/-- The sum of two numbers, rounded once. Infinities of opposite sign have none. -/
def add : Double → Double → Double
  | .nan, _ => .nan
  | _, .nan => .nan
  | .infinite s, .infinite t => if s = t then .infinite s else .nan
  | .infinite s, .finite _ _ => .infinite s
  | .finite _ _, .infinite t => .infinite t
  | .finite s m, .finite t n =>
    let sum := signed s m.units + signed t n.units
    if sum = 0 then .finite (s && t) .zero else round (sum < 0) sum.natAbs 1

instance : Add Double := ⟨add⟩

/-- The difference is the sum with the second number's sign turned. -/
def sub (x y : Double) : Double := x + -y

instance : Sub Double := ⟨sub⟩

/-! ## Order -/

/-- The signed place of a number in the order of the format; none for `nan`. -/
def rank? : Double → Option Int
  | .nan => none
  | .infinite s => some (signed s Grid.size)
  | .finite s m => some (signed s m.place)

/-- How two numbers compare, if they do. -/
def compare? (x y : Double) : Option Ordering := do
  return compare (← x.rank?) (← y.rank?)

end Stencil.Double

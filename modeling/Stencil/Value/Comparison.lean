/-
# Stencil.Value.Comparison -- comparing values

Six operators compare two values. They are decided in two steps: `order?` says
how the values stand to each other, if they do at all, and an operator says which
of the three outcomes it takes. Values that do not stand in an order satisfy no
operator, *not even* `≠`.

Two integers compare exactly, two texts by code points, and two numbers of which
one is binary64 compare as binary64 numbers. Two truth values are equal or not but
have no order, so for them the operators of order are never satisfied.
-/
import Stencil.Value.Basic

namespace Stencil

/-- The six comparison operators. -/
inductive Comparison where
  | lt
  | gt
  | eq
  | le
  | ge
  | ne
deriving DecidableEq

/-- Whether an operator takes an outcome of comparing. -/
def Comparison.takes : Comparison → Ordering → Bool
  | lt, o => o = .lt
  | gt, o => o = .gt
  | eq, o => o = .eq
  | le, o => o ≠ .gt
  | ge, o => o ≠ .lt
  | ne, o => o ≠ .eq

namespace Value

/-- How two values stand to each other, if they are numbers or texts. -/
def order? : Value → Value → Option Ordering
  | int a, int b => some (compare a b)
  | str s, str t => some (compare s t)
  | v, w => do Double.compare? (← v.toDouble?) (← w.toDouble?)

/-- Whether two values satisfy an operator. -/
def satisfies (op : Comparison) : Value → Value → Bool
  | bool a, bool b =>
    match op with
    | .eq => a = b
    | .ne => a ≠ b
    | _ => false
  | v, w =>
    match v.order? w with
    | some o => op.takes o
    | none => false

end Value

end Stencil

/-
# Stencil.Value.Arithmetic -- sums and differences of values

Integers are added exactly while the result fits 64 bits. Past that, and whenever
a binary64 number takes part, both sides are taken as binary64 numbers and the
rounded result is brought back by `ofDouble`. Two texts add by concatenation.
Everything else has no sum: it is `absent`, never a failure.
-/
import Stencil.Value.Basic

namespace Stencil

/-- The two operations of arithmetic. -/
inductive Additive where
  | plus
  | minus
deriving DecidableEq

namespace Additive

/-- The operation on integers. -/
def onInt : Additive → Int → Int → Int
  | plus, a, b => a + b
  | minus, a, b => a - b

/-- The operation on binary64 numbers. -/
def onDouble : Additive → Double → Double → Double
  | plus, x, y => x + y
  | minus, x, y => x - y

end Additive

namespace Value

/-- The operation on binary64 numbers, where both values are numbers. -/
def rounded (op : Additive) (v w : Value) : Value :=
  match v.toDouble?, w.toDouble? with
  | some x, some y => ofDouble (op.onDouble x y)
  | _, _ => absent

/-- The operation on values. -/
def combine (op : Additive) : Value → Value → Value
  | int a, int b =>
    match int64? (op.onInt a.toInt b.toInt) with
    | some n => int n
    | none => rounded op (int a) (int b)
  | str s, str t =>
    match op with
    | .plus => str (s ++ t)
    | .minus => absent
  | v, w => rounded op v w

instance : Add Value := ⟨combine .plus⟩

instance : Sub Value := ⟨combine .minus⟩

end Value

end Stencil

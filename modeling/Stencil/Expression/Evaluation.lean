/-
# Stencil.Expression.Evaluation -- the value of an expression

Operands are read from left to right, both before they are combined. Conditions
are decided as soon as they can be: a conjunction ends at the first atom that does
not hold, a disjunction at the first conjunction that does, and nothing behind
that point is read.
-/
import Stencil.Expression.Basic
import Stencil.Traced

namespace Stencil

/-! ## Value expressions -/

/-- The value of an operand. -/
def Operand.eval (vars : Valuation) : Operand → Traced Value
  | lookup name => .read vars name
  | number v => pure v
  | text s => pure (.str s)

/-- The value of a value expression. -/
def Expression.eval (vars : Valuation) : Expression → Traced Value
  | truth b => pure (.bool b)
  | arithmetic a op b => do
    let v ← a.eval vars
    let w ← b.eval vars
    return v.combine op w
  | operand a => a.eval vars

/-! ## Conditions -/

mutual

/-- Whether an atom holds. -/
def Atom.eval (vars : Valuation) : Atom → Traced Bool
  | .compare a op b => do
    let v ← a.eval vars
    let w ← b.eval vars
    return v.satisfies op w
  | .present inverted name => (·.isTruthy != inverted) <$> Traced.read vars name
  | .group inverted inner => (· != inverted) <$> Condition.eval vars inner

/-- Whether all atoms hold. -/
def Conjunction.eval (vars : Valuation) : List Atom → Traced Bool
  | [] => pure true
  | atom :: atoms => do
    if ← Atom.eval vars atom then Conjunction.eval vars atoms else pure false

/-- Whether some conjunction holds. -/
def Condition.eval (vars : Valuation) : List (List Atom) → Traced Bool
  | [] => pure false
  | term :: terms => do
    if ← Conjunction.eval vars term then pure true else Condition.eval vars terms

end

end Stencil

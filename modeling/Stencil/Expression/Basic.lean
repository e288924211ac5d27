/-
# Stencil.Expression.Basic -- value expressions and conditions

Two kinds of expression. A *value expression* is a truth value, a single operand,
or one sum or difference of two operands. A *condition* is a disjunction of
conjunctions of atoms; an atom compares two operands, asks whether a variable
counts as true, or is a condition in parentheses. The last two can be inverted.

The trees are more than the grammar writes: a list of terms may be empty, a number
may be any value, a name any text. Evaluation is defined for all of them.
-/
import Stencil.Value.Arithmetic
import Stencil.Value.Comparison

namespace Stencil

/-- A variable, a number or a text. -/
inductive Operand where
  | lookup (name : String)
  | number (v : Value)
  | text (s : String)
deriving DecidableEq

/-- A value expression. -/
inductive Expression where
  | truth (b : Bool)
  | arithmetic (a : Operand) (op : Additive) (b : Operand)
  | operand (a : Operand)
deriving DecidableEq

/-- The smallest part of a condition. -/
inductive Atom where
  | compare (a : Operand) (op : Comparison) (b : Operand)
  | present (inverted : Bool) (name : String)
  | group (inverted : Bool) (inner : List (List Atom))

/-- Atoms that must all hold. -/
abbrev Conjunction : Type := List Atom

/-- Conjunctions of which one must hold. -/
abbrev Condition : Type := List Conjunction

end Stencil

/-
# Stencil.Proofs.Numbers -- the numbers that stand in a tree

A tree may hold any value as a number; one that is parsed holds only values that numerals
write. The numbers of a tree are listed in the order of its text, in conditions through all
groups and in templates through all branches. They are the numbers among its operands, and so
each of them is written by a numeral in that text (`Goal.Written.isNumber`).
-/
import Stencil.Proofs.Operands

namespace Stencil

open Parse

/-! ## Expressions -/

/-- The numbers in an operand. -/
def Operand.numbers : Operand → List Value
  | .number v => [v]
  | .lookup _ => []
  | .text _ => []

/-- The numbers in a value expression. -/
def Expression.numbers : Expression → List Value
  | .truth _ => []
  | .arithmetic a _ b => a.numbers ++ b.numbers
  | .operand a => a.numbers

mutual

/-- The numbers in an atom. -/
def Atom.numbers : Atom → List Value
  | .compare a _ b => a.numbers ++ b.numbers
  | .present _ _ => []
  | .group _ inner => Condition.numbers inner

/-- The numbers in a conjunction. -/
def Conjunction.numbers : List Atom → List Value
  | [] => []
  | atom :: atoms => Atom.numbers atom ++ Conjunction.numbers atoms

/-- The numbers in a condition. -/
def Condition.numbers : List (List Atom) → List Value
  | [] => []
  | term :: terms => Conjunction.numbers term ++ Condition.numbers terms

end

/-! ## Templates and assignments -/

mutual

/-- The numbers in a node. -/
def Node.numbers : Node → List Value
  | .literal _ => []
  | .substitution e => e.numbers
  | .conditional chain => Chain.numbers chain

/-- The numbers in a template. -/
def Template.numbers : List Node → List Value
  | [] => []
  | node :: nodes => Node.numbers node ++ Template.numbers nodes

/-- The numbers in the tests and bodies of a chain. -/
def Chain.numbers : Chain → List Value
  | .branch test body rest =>
    Condition.numbers test ++ (Template.numbers body ++ Chain.numbers rest)
  | .otherwise body => Template.numbers body
  | .done => []

end

/-- The numbers in a list of assignments. -/
def Assignment.numbers (list : List Assignment) : List Value := list.flatMap (·.value.numbers)

/-- The numbers in a tree. -/
def Parse.Goal.numbers : (goal : Goal) → goal.Tree → List Value
  | .template => Template.numbers
  | .condition => Condition.numbers
  | .expression => Expression.numbers
  | .assignments => Assignment.numbers

/-! ## The numbers among the operands -/

theorem Expression.numbers_eq (e : Expression) : e.numbers = e.operands.flatMap (·.numbers) := by
  cases e with
  | truth b => rfl
  | arithmetic a op b => simp [numbers, operands]
  | operand a => simp [numbers, operands]

mutual

theorem Atom.numbers_eq : (atom : Atom) → atom.numbers = atom.operands.flatMap (·.numbers)
  | .compare a op b => by simp [Atom.numbers, Atom.operands]
  | .present _ _ => rfl
  | .group _ inner => Condition.numbers_eq inner

theorem Conjunction.numbers_eq : (atoms : List Atom) →
    Conjunction.numbers atoms = (Conjunction.operands atoms).flatMap (·.numbers)
  | [] => rfl
  | atom :: atoms => by
    rw [Conjunction.numbers, Conjunction.operands, List.flatMap_append, Atom.numbers_eq atom,
      Conjunction.numbers_eq atoms]

theorem Condition.numbers_eq : (terms : List (List Atom)) →
    Condition.numbers terms = (Condition.operands terms).flatMap (·.numbers)
  | [] => rfl
  | term :: terms => by
    rw [Condition.numbers, Condition.operands, List.flatMap_append, Conjunction.numbers_eq term,
      Condition.numbers_eq terms]

end

mutual

theorem Node.numbers_eq : (node : Node) → node.numbers = node.operands.flatMap (·.numbers)
  | .literal _ => rfl
  | .substitution e => e.numbers_eq
  | .conditional chain => Chain.numbers_eq chain

theorem Template.numbers_eq : (nodes : List Node) →
    Template.numbers nodes = (Template.operands nodes).flatMap (·.numbers)
  | [] => rfl
  | node :: nodes => by
    rw [Template.numbers, Template.operands, List.flatMap_append, Node.numbers_eq node,
      Template.numbers_eq nodes]

theorem Chain.numbers_eq : (chain : Chain) → chain.numbers = chain.operands.flatMap (·.numbers)
  | .branch test body rest => by
    rw [Chain.numbers, Chain.operands, List.flatMap_append, List.flatMap_append,
      Condition.numbers_eq test, Template.numbers_eq body, Chain.numbers_eq rest]
  | .otherwise body => Template.numbers_eq body
  | .done => rfl

end

theorem Assignment.numbers_eq (list : List Assignment) :
    Assignment.numbers list = (Assignment.operands list).flatMap (·.numbers) := by
  simp only [Assignment.numbers, Assignment.operands, List.flatMap_assoc, Expression.numbers_eq]

theorem Parse.Goal.numbers_eq (goal : Goal) (t : goal.Tree) :
    goal.numbers t = (goal.operands t).flatMap (·.numbers) := by
  cases goal with
  | template => exact Template.numbers_eq t
  | condition => exact Condition.numbers_eq t
  | expression => exact Expression.numbers_eq t
  | assignments => exact Assignment.numbers_eq t

/-! ## Each number is written by a numeral -/

section Written

variable {s : List Char} {v : Value}

theorem Operand.Written.isNumber {a : Operand} (h : a.Written s) (hv : v ∈ a.numbers) :
    ∃ u, IsNumber v u := by
  cases h with
  | text => cases hv
  | term h =>
    cases h with
    | lookup => cases hv
    | number h =>
      obtain rfl := List.mem_singleton.mp hv
      exact ⟨_, h⟩

/-- Every number in a tree that is written is the value of a numeral. -/
theorem Parse.Goal.Written.isNumber {goal : Goal} {t : goal.Tree} (h : goal.Written t s)
    (hv : v ∈ goal.numbers t) : ∃ u, IsNumber v u := by
  rw [goal.numbers_eq] at hv
  obtain ⟨a, ha, hv⟩ := List.mem_flatMap.mp hv
  obtain ⟨u, hu⟩ := h.operand_written ha
  exact hu.isNumber hv

end Written

end Stencil

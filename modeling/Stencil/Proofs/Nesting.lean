/-
# Stencil.Proofs.Nesting -- how deeply a tree nests

The nesting of a tree is the largest number of conditionals and groups, counted
together, that enclose a point of it. A group in the test of a conditional lies
inside that conditional, in whichever branch the test stands.
-/
import Stencil.Template.Basic

namespace Stencil

/-! ## Conditions -/

mutual

/-- How deeply groups nest in an atom. -/
def Atom.nesting : Atom → Nat
  | .compare _ _ _ => 0
  | .present _ _ => 0
  | .group _ inner => Condition.nesting inner + 1

/-- How deeply groups nest in a conjunction. -/
def Conjunction.nesting : List Atom → Nat
  | [] => 0
  | atom :: atoms => max (Atom.nesting atom) (Conjunction.nesting atoms)

/-- How deeply groups nest in a condition. -/
def Condition.nesting : List (List Atom) → Nat
  | [] => 0
  | term :: terms => max (Conjunction.nesting term) (Condition.nesting terms)

end

theorem Conjunction.nesting_le_iff {atoms : Conjunction} {n : Nat} :
    Conjunction.nesting atoms ≤ n ↔ ∀ atom ∈ atoms, atom.nesting ≤ n := by
  induction atoms with
  | nil => simp [Conjunction.nesting]
  | cons atom atoms ih => rw [Conjunction.nesting, Nat.max_le, ih, List.forall_mem_cons]

theorem Condition.nesting_le_iff {terms : Condition} {n : Nat} :
    Condition.nesting terms ≤ n ↔ ∀ term ∈ terms, Conjunction.nesting term ≤ n := by
  induction terms with
  | nil => simp [Condition.nesting]
  | cons term terms ih => rw [Condition.nesting, Nat.max_le, ih, List.forall_mem_cons]

/-! ## Templates -/

mutual

/-- How deeply conditionals and groups nest in a node. -/
def Node.nesting : Node → Nat
  | .literal _ => 0
  | .substitution _ => 0
  | .conditional chain => Chain.nesting chain + 1

/-- How deeply conditionals and groups nest in a template. -/
def Template.nesting : List Node → Nat
  | [] => 0
  | node :: nodes => max (Node.nesting node) (Template.nesting nodes)

/-- How deeply conditionals and groups nest in the tests and bodies of a chain. -/
def Chain.nesting : Chain → Nat
  | .branch test body rest =>
    max (Condition.nesting test) (max (Template.nesting body) (Chain.nesting rest))
  | .otherwise body => Template.nesting body
  | .done => 0

end

end Stencil

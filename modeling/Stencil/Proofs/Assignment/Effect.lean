/-
# Stencil.Proofs.Assignment.Effect -- what assignments do to a store

`Performed list s t` says that the assignments of a list, performed one after another,
lead from the store `s` to the store `t`: each binds its name to the value that its
expression has in the store left by the ones before. Carrying out a list does just this.

What is not assigned keeps its binding, and nothing but the assigned names is added to
the bound ones. A name that is assigned nothing, `absent`, is bound all the same.
-/
import Stencil.Assignment.Basic

namespace Stencil.Assignment

/-- Performing the assignments of a list in order leads from one store to the other. -/
inductive Performed : List Assignment → Store → Store → Prop
  | nil (s : Store) : Performed [] s s
  | cons {a : Assignment} {list : List Assignment} {s t : Store} :
      Performed list (s.set a.name (a.value.eval s.lookup).value) t → Performed (a :: list) s t

variable {list : List Assignment} {s t : Store} {name : String}

/-- Carrying out a list performs its assignments in order. -/
theorem performed_applyAll (list : List Assignment) (s : Store) :
    Performed list s (applyAll list s).1 := by
  induction list generalizing s with
  | nil => exact .nil s
  | cons a list ih => exact .cons (ih _)

/-- A name that is not assigned keeps its value. -/
theorem Performed.get?_eq (h : Performed list s t) (hno : ∀ a ∈ list, a.name ≠ name) :
    t.get? name = s.get? name := by
  induction h with
  | nil => rfl
  | cons _ ih =>
    obtain ⟨hne, hno⟩ := List.forall_mem_cons.mp hno
    rw [ih hno, Store.get?_set, if_neg hne]

/-- Bound are the names that were bound before and the assigned ones. -/
theorem Performed.contains_iff (h : Performed list s t) :
    t.contains name = true ↔ s.contains name = true ∨ ∃ a ∈ list, a.name = name := by
  induction h with
  | nil => simp
  | @cons a list s _ _ ih =>
    have hset (value : Value) : (s.set a.name value).contains name = true ↔
        s.contains name = true ∨ a.name = name := by
      rw [Store.contains_eq_isSome, Store.contains_eq_isSome, Store.get?_set]
      by_cases heq : a.name = name <;> simp [heq]
    rw [ih, hset]
    simp only [List.mem_cons, exists_eq_or_imp, or_assoc]

end Stencil.Assignment

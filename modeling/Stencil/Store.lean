/-
# Stencil.Store -- bindings of names to values

A `Store` is a finite map from names to values. Two stores with the same bindings
are equal, whatever was done to reach them. A name that is bound to `absent` is
bound all the same: `contains` sees it and `size` counts it, only `lookup` cannot
tell it from a name that is not bound.

`toList` lists the bindings in increasing order of names by code points, which is
also the order of their UTF-8 bytes.
-/
import Stencil.Value.Basic
import Std.Data.ExtTreeMap

namespace Stencil

/-- A finite map from names to values. -/
structure Store where
  bindings : Std.ExtTreeMap String Value

namespace Store

/-- No bindings at all. -/
def empty : Store := ⟨∅⟩

instance : Inhabited Store := ⟨empty⟩

/-- The value bound to a name, if it is bound. -/
def get? (s : Store) (name : String) : Option Value := s.bindings[name]?

/-- What a name stands for: its value, or `absent` if it is not bound. -/
def lookup (s : Store) (name : String) : Value := (s.get? name).getD .absent

/-- Whether a name is bound. -/
def contains (s : Store) (name : String) : Bool := s.bindings.contains name

/-- The number of bound names. -/
def size (s : Store) : Nat := s.bindings.size

/-- Whether nothing is bound. -/
def isEmpty (s : Store) : Bool := s.bindings.isEmpty

/-- Bind a name, in place of an earlier binding of it. -/
def set (s : Store) (name : String) (value : Value) : Store := ⟨s.bindings.insert name value⟩

/-- Remove the binding of a name. -/
def unset (s : Store) (name : String) : Store := ⟨s.bindings.erase name⟩

/-- Bind each name of a list in turn; of two bindings of a name the later stays. -/
def extend (s : Store) (list : List (String × Value)) : Store :=
  list.foldl (fun t binding => t.set binding.1 binding.2) s

/-- The store with the bindings of a list. -/
def ofList (list : List (String × Value)) : Store := empty.extend list

/-- The bindings in increasing order of names. -/
def toList (s : Store) : List (String × Value) := s.bindings.toList

/-! ## A store is the function that `get?` makes of it -/

@[ext] theorem ext {s t : Store} (h : ∀ name, s.get? name = t.get? name) : s = t := by
  rcases s with ⟨s⟩
  rcases t with ⟨t⟩
  exact congrArg Store.mk (Std.ExtTreeMap.ext_getElem? h)

@[simp] theorem get?_empty (name : String) : empty.get? name = none := by
  simp [get?, empty]

@[simp] theorem get?_set (s : Store) (name other : String) (value : Value) :
    (s.set name value).get? other = if name = other then some value else s.get? other := by
  simp [get?, set, Std.ExtTreeMap.getElem?_insert]

@[simp] theorem get?_unset (s : Store) (name other : String) :
    (s.unset name).get? other = if name = other then none else s.get? other := by
  simp [get?, unset, Std.ExtTreeMap.getElem?_erase]

theorem contains_eq_isSome (s : Store) (name : String) :
    s.contains name = (s.get? name).isSome :=
  Std.ExtTreeMap.contains_eq_isSome_getElem?

end Store

end Stencil

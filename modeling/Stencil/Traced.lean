/-
# Stencil.Traced -- results with the variables read for them

Evaluation never fails and changes nothing, but it reads variables, and which ones
it reads, in which order, is part of what it does: what is decided early is not
looked at any further. A `Traced` result carries the names read for it, in order,
a name as often as it was read.

What a name stands for is a function from names to values, a `Valuation`; nothing
else about a store matters to evaluation.
-/
import Stencil.Value.Basic

namespace Stencil

/-- What every name stands for. -/
abbrev Valuation : Type := String → Value

/-- A result, and the names read for it in order. -/
structure Traced (α : Type) where
  value : α
  reads : List String
deriving DecidableEq

namespace Traced

instance : Monad Traced where
  map f x := ⟨f x.value, x.reads⟩
  pure a := ⟨a, []⟩
  bind x f :=
    let y := f x.value
    ⟨y.value, x.reads ++ y.reads⟩

/-- Read a variable. -/
def read (vars : Valuation) (name : String) : Traced Value := ⟨vars name, [name]⟩

variable {α β : Type} (x : Traced α)

@[simp] theorem value_pure (a : α) : (pure a : Traced α).value = a := rfl

@[simp] theorem reads_pure (a : α) : (pure a : Traced α).reads = [] := rfl

@[simp] theorem value_map (f : α → β) : (f <$> x).value = f x.value := rfl

@[simp] theorem reads_map (f : α → β) : (f <$> x).reads = x.reads := rfl

@[simp] theorem value_bind (f : α → Traced β) : (x >>= f).value = (f x.value).value := rfl

@[simp] theorem reads_bind (f : α → Traced β) :
    (x >>= f).reads = x.reads ++ (f x.value).reads := rfl

end Traced

end Stencil

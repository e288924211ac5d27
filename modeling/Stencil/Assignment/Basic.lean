/-
# Stencil.Assignment.Basic -- assignments and what they do

An assignment binds a name to the value of a value expression. A list of them is
carried out in order, each expression being evaluated after all earlier bindings
are in place.

This is the only part of the language that changes variables, and it asks little
of what holds them: an `Environment` can be read from and bound in, nothing more.
Carrying out a list answers with every access in order, reads and bindings alike.
-/
import Stencil.Expression.Evaluation
import Stencil.Store

namespace Stencil

/-- A name and the expression whose value it is bound to. -/
structure Assignment where
  name : String
  value : Expression
deriving DecidableEq

/-- What variables can be read from and bound in. -/
class Environment (σ : Type) where
  /-- What every name stands for. -/
  lookup : σ → Valuation
  /-- Bind a name. -/
  assign : σ → String → Value → σ

instance : Environment Store := ⟨Store.lookup, Store.set⟩

/-- A variable was read, or bound to a value. -/
inductive Access where
  | get (name : String)
  | set (name : String) (value : Value)
deriving DecidableEq

/-- Carry out assignments in order; the environment afterwards, and every access. -/
def Assignment.applyAll {σ : Type} [Environment σ] : List Assignment → σ → σ × List Access
  | [], env => (env, [])
  | a :: list, env =>
    let result := a.value.eval (Environment.lookup env)
    let (final, accesses) := applyAll list (Environment.assign env a.name result.value)
    (final, result.reads.map .get ++ .set a.name result.value :: accesses)

end Stencil

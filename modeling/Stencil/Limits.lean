/-
# Stencil.Limits -- bounds on what is parsed

Two bounds are put on every parse: the length of the text in bytes, and how
deeply conditionals and parenthesised groups, counted together, may be nested.
-/

namespace Stencil

/-- The bounds on a parse. -/
structure Limits where
  maxBytes : Nat := 64 * 1024
  maxDepth : Nat := 64
deriving DecidableEq, Inhabited

end Stencil

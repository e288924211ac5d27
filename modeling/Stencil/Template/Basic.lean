/-
# Stencil.Template.Basic -- templates as trees

A template is a sequence of nodes: literal text, a value expression to be inserted,
or a chain of branches of which at most one is rendered. A chain is read from its
first branch on; it ends in a branch without a test, or in nothing.
-/
import Stencil.Expression.Basic

namespace Stencil

mutual

/-- A part of a template. -/
inductive Node where
  | literal (text : String)
  | substitution (e : Expression)
  | conditional (chain : Chain)

/-- Branches that are tried in order. -/
inductive Chain where
  /-- Take this branch if the test holds, else go on with the rest. -/
  | branch (test : Condition) (body : List Node) (rest : Chain)
  /-- Take this branch. -/
  | otherwise (body : List Node)
  /-- Take no branch. -/
  | done

end

/-- A sequence of nodes. -/
abbrev Template : Type := List Node

/-- The chain of some branches with tests, and perhaps one without. -/
def Chain.ofBranches (tests : List (Condition × Template)) (last : Option Template) : Chain :=
  tests.foldr (fun (test, body) rest => .branch test body rest)
    (match last with
    | some body => .otherwise body
    | none => .done)

end Stencil

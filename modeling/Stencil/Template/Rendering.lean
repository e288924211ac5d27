/-
# Stencil.Template.Rendering -- the text of a template

A template's text is the text of its nodes, one after the other. Of a chain the
first branch whose test holds is rendered; the tests behind it and the other
bodies are not even looked at.
-/
import Stencil.Expression.Evaluation
import Stencil.Template.Basic

namespace Stencil

/-- The branch of a chain that is taken, if any. -/
def Chain.select (vars : Valuation) : Chain → Traced (Option Template)
  | .branch test body rest => do
    if ← Condition.eval vars test then return some body else rest.select vars
  | .otherwise body => pure (some body)
  | .done => pure none

mutual

/-- The text of a node. -/
def Node.render (vars : Valuation) : Node → Traced String
  | .literal text => pure text
  | .substitution e => Value.text <$> e.eval vars
  | .conditional chain => Chain.render vars chain

/-- The text of a template. -/
def Template.render (vars : Valuation) : List Node → Traced String
  | [] => pure ""
  | node :: nodes => do
    let first ← Node.render vars node
    (first ++ ·) <$> Template.render vars nodes

/-- The text of the branch of a chain that is taken. -/
def Chain.render (vars : Valuation) : Chain → Traced String
  | .branch test body rest => do
    if ← Condition.eval vars test then Template.render vars body else Chain.render vars rest
  | .otherwise body => Template.render vars body
  | .done => pure ""

end

theorem Template.render_nil (vars : Valuation) : Template.render vars [] = ⟨"", []⟩ := by
  rw [render]
  rfl

theorem Template.render_cons (vars : Valuation) (node : Node) (nodes : Template) :
    Template.render vars (node :: nodes) =
      ⟨(Node.render vars node).value ++ (Template.render vars nodes).value,
        (Node.render vars node).reads ++ (Template.render vars nodes).reads⟩ := by
  rw [render]
  rfl

theorem Template.render_singleton (vars : Valuation) (node : Node) :
    Template.render vars [node] = Node.render vars node := by
  rw [render_cons, render_nil, String.append_empty, List.append_nil]

end Stencil

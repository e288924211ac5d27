/-
# Stencil.Proofs.Template.Written -- the grammar of templates

Which texts write a template, and which tree they write. As for expressions, the rules
say nothing about an order of trying.

    template     := (literal | substitution | conditional)*, no two literals side by side
    literal      := one or more characters, no opener among them
    substitution := '{=' blanks expression blanks '}'
    conditional  := '{?' chain
    chain        := blanks condition blanks '}' template rest
    rest         := '{|' chain  |  '{|}' template '{.}'  |  '{.}'

A branch and what is left of its chain are one rule for the first branch and every
later one; only the opener in front of them differs. Nothing but its own end follows a
branch without a test.
-/
import Stencil.Proofs.Expression.Written
import Stencil.Template.Parser

namespace Stencil

open Parse

/-! ## Literal text -/

/-- Some text in which no directive begins. -/
def IsLiteral (s : List Char) : Prop := s ≠ [] ∧ ∀ o ∈ Parser.openers, ¬ o <:+: s

/-- Whether a node is literal text. -/
def Node.isLiteral : Node → Bool
  | .literal _ => true
  | _ => false

/-- Whether a template begins with literal text. -/
def Template.beginsLiteral : Template → Bool
  | [] => false
  | node :: _ => node.isLiteral

/-! ## Nodes, chains and templates -/

mutual

/-- The texts of nodes. -/
inductive Node.Written : Node → List Char → Prop
  | literal {s : List Char} : IsLiteral s → Node.Written (.literal (String.ofList s)) s
  | substitution {e : Expression} {s : List Char} :
      Enclosed Expression.Written '\x7d' e s → Node.Written (.substitution e) ('\x7b' :: '=' :: s)
  | conditional {chain : Chain} {s : List Char} :
      Chain.Written chain s → Node.Written (.conditional chain) ('\x7b' :: '?' :: s)

/-- The texts of chains, behind the opener of their first branch. -/
inductive Chain.Written : Chain → List Char → Prop
  | branch {test : Condition} {body : Template} {rest : Chain} {s t u : List Char} :
      Enclosed Condition.Written '\x7d' test s → Template.Written body t → Chain.Rest rest u →
      Chain.Written (.branch test body rest) (s ++ (t ++ u))

/-- The texts of what is left of a chain behind a branch, up to its end. -/
inductive Chain.Rest : Chain → List Char → Prop
  | further {chain : Chain} {s : List Char} :
      Chain.Written chain s → Chain.Rest chain ('\x7b' :: '|' :: s)
  | otherwise {body : Template} {t : List Char} :
      Template.Written body t →
      Chain.Rest (.otherwise body) ('\x7b' :: '|' :: '\x7d' :: (t ++ ['\x7b', '.', '\x7d']))
  | done : Chain.Rest .done ['\x7b', '.', '\x7d']

/-- The texts of templates. -/
inductive Template.Written : List Node → List Char → Prop
  | nil : Template.Written [] []
  | cons {node : Node} {nodes : List Node} {s t : List Char} :
      Node.Written node s → Template.Written nodes t →
      (node.isLiteral = true → Template.beginsLiteral nodes = false) →
      Template.Written (node :: nodes) (s ++ t)

end

end Stencil

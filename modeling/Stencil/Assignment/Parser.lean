/-
# Stencil.Assignment.Parser -- the grammar of assignment lists

    assignments := assignment (line-end assignment?)*
    assignment  := identifier ':' expression

Blanks may stand before and behind the colon and at the end of a line. A line
that is not blank but no assignment either is not skipped: it is left unread, and
the parse fails there.
-/
import Stencil.Assignment.Basic
import Stencil.Expression.Parser

namespace Stencil

namespace Parse.Parser

/-- Read an assignment. -/
def assignment : Parser Assignment := do
  let name ← identifier
  blanks
  token ":"
  blanks
  let value ← expression
  blanks
  return ⟨name, value⟩

/-- Read a line end and the assignment behind it, if there is one. -/
def nextLine : Parser (Option Assignment) := do
  token "\n"
  optional assignment

/-- Read a list of assignments. -/
def assignments : Parser (List Assignment) := do
  let first ← assignment
  let others ← many nextLine
  return first :: others.filterMap id

end Parse.Parser

/-- Parse a list of assignments. -/
def Assignment.parseAll (src : String) (limits : Limits) :
    Except Parse.Failure (List Assignment) :=
  Parse.parse .assignments (fun _ => .assignments) src limits

end Stencil

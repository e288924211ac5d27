/-
# Stencil.Name -- identifiers

A name can be written in the language if it is a letter followed by letters,
digits and underscores, all of them ASCII. A store takes any text as a name; what
is no identifier can be bound from outside but never be read or written by a
template, an expression or an assignment.
-/

namespace Stencil

/-- A letter `A` to `Z` or `a` to `z`. -/
def isNameStart (c : Char) : Bool := c.isAlpha

/-- A letter, a digit or an underscore. -/
def isNameRest (c : Char) : Bool := c.isAlphanum || c == '_'

/-- Whether a text is an identifier. -/
def isIdentifier (s : String) : Bool :=
  match s.toList with
  | [] => false
  | c :: cs => isNameStart c && cs.all isNameRest

end Stencil

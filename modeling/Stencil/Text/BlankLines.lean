/-
# Stencil.Text.BlankLines -- at most one blank line in a row

Rendered text keeps at most one blank line between two others: every run of three
or more line ends becomes two. The text is rebuilt from its end, and a line end
is left out exactly when two of them already follow.
-/

namespace Stencil.Text

/-- Put a character in front, unless it would be the third line end in a row. -/
def consLimited (c : Char) (cs : List Char) : List Char :=
  match c, cs with
  | '\n', '\n' :: '\n' :: _ => cs
  | _, _ => c :: cs

/-- A list of characters with every run of line ends cut to two. -/
def collapseChars (cs : List Char) : List Char := cs.foldr consLimited []

/-- A text with every run of line ends cut to two. -/
def collapse (s : String) : String := String.ofList (collapseChars s.toList)

end Stencil.Text

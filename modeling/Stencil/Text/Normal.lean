/-
# Stencil.Text.Normal -- the normal form of a source text

A text is brought to normal form before it is parsed. Blanks and line ends of
ASCII, and the character zero, are cut from the two ends of the whole text; then
spaces and tabs are cut from the two ends of every line. Lines are never joined
and none is dropped, and every other space of Unicode is content.
-/

namespace Stencil.Text

/-- A space or a tab. -/
def isBlank (c : Char) : Bool := c == ' ' || c == '\t'

/-- What is cut from the two ends of a whole text. -/
def isMargin (c : Char) : Bool :=
  isBlank c || c == '\n' || c == '\x0c' || c == '\r' || c == '\x00'

/-- A list without the members at its two ends that satisfy `p`. -/
def trim {α : Type} (p : α → Bool) (cs : List α) : List α :=
  ((cs.dropWhile p).reverse.dropWhile p).reverse

/-- The normal form of a list of characters. -/
def normalChars (cs : List Char) : List Char :=
  List.intercalate ['\n'] (((trim isMargin cs).splitOn '\n').map (trim isBlank))

/-- The normal form of a text. -/
def normalize (s : String) : String := String.ofList (normalChars s.toList)

end Stencil.Text

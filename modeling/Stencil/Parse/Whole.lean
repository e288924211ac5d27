/-
# Stencil.Parse.Whole -- parsing a whole text

A parser reads from the start of a text as far as it can; a *parse* is successful
only if nothing is left. If the parser matched but stopped early, the end of the
text is one more thing that was missing where it stopped.

The length of the text is checked before anything is read, and excessive nesting
goes before every mismatch.
-/
import Stencil.Limits
import Stencil.Parse.Failure
import Stencil.Parse.Parser

namespace Stencil.Parse

/-- The mismatch at a frontier: its place in the text and what was wanted there. -/
def Frontier.mismatch (f : Frontier) (text : List Char) : Cause :=
  .mismatch (.behind (text.take f.place)) (text.drop f.place).head?
    (f.wanted.map Expected.describe)

/-- Read a whole text, given how deeply it may nest. -/
def Parser.whole {α : Type} (p : Parser α) (maxDepth : Nat) (text : List Char) :
    Except Cause α :=
  match p.reply ⟨0, text⟩ with
  | ⟨.tooDeep, _⟩ => .error (.tooDeep maxDepth)
  | ⟨.failed, missed⟩ => .error (missed.mismatch text)
  | ⟨.matched a next, missed⟩ =>
    if next.rest.isEmpty then .ok a
    else .error ((missed.record next.place .endOfInput).mismatch text)

/-- Parse a text within limits; `p` is given the depth to which it may nest. -/
def parse {α : Type} (goal : Goal) (p : Nat → Parser α) (src : String) (limits : Limits) :
    Except Failure α :=
  let outcome :=
    if limits.maxBytes < src.utf8ByteSize then
      .error (.inputTooLong src.utf8ByteSize limits.maxBytes)
    else (p limits.maxDepth).whole limits.maxDepth src.toList
  outcome.mapError (⟨goal, src, ·⟩)

end Stencil.Parse

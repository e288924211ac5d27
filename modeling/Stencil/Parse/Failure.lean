/-
# Stencil.Parse.Failure -- why a text could not be parsed

Parsing is the only thing that can fail. A failure names what the text was parsed
as, keeps the text itself, and gives the cause: something else was expected at a
place, the text is too long, or it nests too deeply.

The place is given in three ways that belong to different readers: an offset in
bytes, and a line and a column, both from one, the column in characters.
-/
import Stencil.Text.Quoted

namespace Stencil.Parse

/-! ## Causes -/

/-- What a text is parsed as. -/
inductive Goal where
  | template
  | condition
  | expression
  | assignments
deriving DecidableEq

/-- A place in a text: bytes before it, and its line and column, both from one. -/
structure Location where
  offset : Nat
  line : Nat
  column : Nat
deriving DecidableEq

/-- Why a parse failed. -/
inductive Cause where
  /-- None of the things expected at a place was there; `found` is the character
  that was, or nothing at the end of the text. -/
  | mismatch (location : Location) (found : Option Char) (expected : List String)
  | inputTooLong (length limit : Nat)
  | tooDeep (limit : Nat)
deriving DecidableEq

/-- A text that could not be parsed. -/
structure Failure where
  goal : Goal
  text : String
  cause : Cause
deriving DecidableEq

/-! ## Places -/

/-- The length of a list of characters in bytes of UTF-8. -/
def byteLength : List Char → Nat
  | [] => 0
  | c :: cs => c.utf8Size + byteLength cs

/-- The place behind some characters from the start of a text. -/
def Location.behind (before : List Char) : Location where
  offset := byteLength before
  line := before.count '\n' + 1
  column := (before.reverse.takeWhile (· != '\n')).length + 1

/-! ## Messages -/

/-- What a text is parsed as, in words. -/
def Goal.describe : Goal → String
  | template => "template"
  | condition => "boolean expression"
  | expression => "value expression"
  | assignments => "assignment list"

/-- A list of alternatives in words: commas, and "or" before the last. -/
def alternatives (expected : List String) : String :=
  match expected with
  | [] => "end of input"
  | [only] => only
  | _ => ", ".intercalate expected.dropLast ++ " or " ++ expected.getLastD ""

/-- What was found at a place, in words. -/
def describeFound : Option Char → String
  | some c => Text.quoted c
  | none => "end of input"

/-- The message of a cause. -/
def Cause.message : Cause → String
  | mismatch location found expected =>
    s!"expected {alternatives expected} at line {location.line}, column {location.column}, found " ++
      describeFound found
  | inputTooLong length limit => s!"input is {length} bytes, limit is {limit}"
  | tooDeep limit => s!"nesting deeper than {limit} levels"

namespace Failure

/-- The message of a failure. -/
def message (f : Failure) : String := s!"failed to parse {f.goal.describe}: {f.cause.message}"

/-- The offset of a failure in bytes, where its cause has a place. -/
def offset? (f : Failure) : Option Nat :=
  match f.cause with
  | .mismatch location _ _ => some location.offset
  | _ => none

end Failure

end Stencil.Parse

/-
# Stencil.Parse.Lexeme -- the smallest units of the language

Identifiers, keywords, numerals and quoted texts, and the blanks between them.

A numeral is an optional minus sign, digits, and optionally a point with digits
behind it; the scanner always takes the longest one. A point without a digit
behind it and a minus sign without a digit behind it are never part of a numeral.
A numeral whose value is not finite is no number, and since nothing at that place
is missing, its rejection leaves no note.

A quoted text has no escapes: it holds every character but the double quote and
the line end.
-/
import Stencil.Name
import Stencil.Parse.Parser
import Stencil.Text.Normal
import Stencil.Value.Basic

namespace Stencil.Parse

/-! ## Numerals -/

/-- The point and the digits behind it, if there is a point with a digit behind it. -/
def scanFraction : List Char → List Char
  | '.' :: rest =>
    let digits := rest.takeWhile Char.isDigit
    if digits.isEmpty then [] else '.' :: digits
  | _ => []

/-- The longest numeral without a sign that a text begins with; empty if none. -/
def scanUnsigned (cs : List Char) : List Char :=
  let whole := cs.takeWhile Char.isDigit
  if whole.isEmpty then [] else whole ++ scanFraction (cs.dropWhile Char.isDigit)

/-- The longest numeral that a text begins with; empty if it begins with none. -/
def scanNumeral : List Char → List Char
  | '-' :: rest =>
    let digits := scanUnsigned rest
    if digits.isEmpty then [] else '-' :: digits
  | cs => scanUnsigned cs

namespace Parser

/-- Read a numeral with a finite value. -/
def number : Parser Value := ⟨fun c =>
  let numeral := scanNumeral c.rest
  if numeral.isEmpty then (want .number).reply c
  else
    match Value.ofNumeral? numeral with
    | some v => ⟨.matched v (c.advance numeral.length (c.rest.drop numeral.length)), .none⟩
    | none => fail.reply c⟩

/-! ## Names, words and texts -/

/-- Read spaces and tabs, as many as there are. -/
def blanks : Parser Unit := (fun _ => ()) <$> takeWhile Text.isBlank

/-- Read an identifier. -/
def identifier : Parser String := do
  let first ← one .identifier isNameStart
  let rest ← takeWhile isNameRest
  return String.ofList (first :: rest)

/-- Read a word that no identifier character follows. -/
def keyword (word : String) : Parser Unit := do
  token word
  notBefore isNameRest

/-- Whether a character can stand inside a quoted text. -/
def isQuotable (c : Char) : Bool := c != '"' && c != '\n'

/-- Read a text between double quotes. -/
def quotedText : Parser String := do
  token "\""
  let body ← takeWhile isQuotable
  token "\""
  return String.ofList body

end Parser

end Stencil.Parse

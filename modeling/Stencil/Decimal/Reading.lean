/-
# Stencil.Decimal.Reading -- reading numerals

`read?` reads a decimal numeral, always a whole text and never a part of it: an
optional sign, digits with at most one point among or beside them, and an optional
exponent, which is `e` or `E`, an optional sign and at least one digit. The digits
may all stand on one side of the point, but there is at least one. `isInteger` picks
out the numerals that are only a sign and digits.

Digits are `0` to `9` alone. Reading is exact, however many digits there are, with
one boundary stated plainly: an exponent takes no further digit once it has reached
`exponentCap`. A numeral with fewer digits than that is far outside every number
format by then.
-/
import Stencil.Decimal.Basic

namespace Stencil.Decimal

/-! ## Pieces of a numeral -/

/-- Whether there is a minus sign, and what follows the sign if there is one. -/
def splitSign : List Char → Bool × List Char
  | '-' :: rest => (true, rest)
  | '+' :: rest => (false, rest)
  | rest => (false, rest)

/-- The digits after a leading point, and what follows them. -/
def splitFraction : List Char → List Char × List Char
  | '.' :: rest => (rest.takeWhile Char.isDigit, rest.dropWhile Char.isDigit)
  | rest => ([], rest)

/-- An exponent that has reached this takes no further digit. -/
def exponentCap : Nat := 65536

/-- The number that the digits of an exponent denote, up to the cap. -/
def cappedValue (digits : List Char) : Nat :=
  digits.foldl (fun n c => if n < exponentCap then 10 * n + (c.toNat - '0'.toNat) else n) 0

/-- A text of digits, at least one. -/
def isDigits (digits : List Char) : Bool := !digits.isEmpty && digits.all Char.isDigit

/-- The exponent that a numeral ends in; zero if nothing follows the digits. -/
def exponent? : List Char → Option Int
  | [] => some 0
  | mark :: rest =>
    let (negative, digits) := splitSign rest
    if (mark = 'e' || mark = 'E') && isDigits digits then
      some (if negative then -(cappedValue digits : Int) else cappedValue digits)
    else none

/-! ## Whole numerals -/

/-- Whether a text writes an integer as an integer: an optional sign and digits. -/
def isInteger (cs : List Char) : Bool := isDigits (splitSign cs).2

/-- The decimal number that a text writes. -/
def read? (cs : List Char) : Option Decimal :=
  let (negative, body) := splitSign cs
  let whole := body.takeWhile Char.isDigit
  let (fraction, rest) := splitFraction (body.dropWhile Char.isDigit)
  if whole.isEmpty && fraction.isEmpty then none
  else (exponent? rest).map fun e =>
    ⟨negative, Nat.ofDigitChars 10 (whole ++ fraction) 0, e - fraction.length⟩

end Stencil.Decimal

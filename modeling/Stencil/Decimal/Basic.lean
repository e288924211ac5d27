/-
# Stencil.Decimal.Basic -- decimal numbers and their written form

A `Decimal` is a sign, a coefficient and a power of ten: the exact number that a
numeral writes, before any rounding. `chars` writes it positionally, never with
an exponent: zeros fill the places to the right of the coefficient, or a point
is set inside it or in front of it, with one zero before a leading point.

The writer drops and adds nothing else. Whether a fraction ends in zeros is the
business of whoever chose the coefficient.
-/

namespace Stencil

/-- The number `± coefficient · 10 ^ exponent`. A zero has both signs. -/
structure Decimal where
  negative : Bool
  coefficient : Nat
  exponent : Int
deriving DecidableEq

namespace Decimal

/-- An integer as a decimal. -/
def ofInt (n : Int) : Decimal := ⟨n < 0, n.natAbs, 0⟩

/-- The coefficient with its sign: the number itself, if its exponent is zero. -/
def signedCoefficient (d : Decimal) : Int :=
  if d.negative then -(d.coefficient : Int) else d.coefficient

/-! ## The positional form -/

/-- The digits of a number with a point `places` from the right; zeros make sure
that a digit stands before the point. -/
def withPoint (digits : List Char) (places : Nat) : List Char :=
  let filled := List.replicate (places + 1 - digits.length) '0' ++ digits
  filled.take (filled.length - places) ++ '.' :: filled.drop (filled.length - places)

/-- The positional form without its sign. -/
def unsigned (coefficient : Nat) : (exponent : Int) → List Char
  | .ofNat zeros => Nat.toDigits 10 coefficient ++ List.replicate zeros '0'
  | .negSucc places => withPoint (Nat.toDigits 10 coefficient) (places + 1)

/-- The positional form: a minus sign if there is one, then the digits. -/
def chars (d : Decimal) : List Char :=
  let digits := unsigned d.coefficient d.exponent
  if d.negative then '-' :: digits else digits

/-- The positional form as a text. -/
def text (d : Decimal) : String := String.ofList d.chars

end Decimal

end Stencil

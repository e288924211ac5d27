/-
# Stencil.Double.Basic -- binary64 numbers as exact data

A `Double` is a binary64 number: not a number, an infinity of either sign, or a
finite number with a sign and a magnitude from the grid. Zero has both signs.
All numbers that are not numbers are one value, since nothing here tells them
apart.

Equality of the type is identity of numbers: the two zeros differ and `nan` is
itself. The comparison of the format, where zeros agree and `nan` is unordered,
is `Double.compare?`.

The 64-bit encoding is read and written by `ofBits` and `toBits`. A magnitude's
place on the grid *is* its encoding without the sign, which is why no field is
taken apart here.
-/
import Stencil.Double.Grid

namespace Stencil

/-- A finite magnitude, by its place on the grid. -/
structure Magnitude where
  place : Nat
  place_lt : place < Grid.size
deriving DecidableEq

namespace Magnitude

/-- The magnitude in units of `2 ^ -1074`. -/
def units (m : Magnitude) : Nat := Grid.units m.place

/-- The magnitude zero. -/
def zero : Magnitude := ⟨0, by decide⟩

end Magnitude

/-- A binary64 number. -/
inductive Double where
  | nan
  | infinite (negative : Bool)
  | finite (negative : Bool) (magnitude : Magnitude)
deriving DecidableEq

namespace Double

/-! ## The 64-bit encoding -/

/-- The number that an encoding denotes; only the low 64 bits of it count. -/
def ofBits (bits : Nat) : Double :=
  let negative := bits / Nat.pow 2 63 % 2 = 1
  let place := bits % Nat.pow 2 63
  if h : place < Grid.size then .finite negative ⟨place, h⟩
  else if place = Grid.size then .infinite negative
  else .nan

/-- The sign bit in its place. -/
def signBit (negative : Bool) : Nat := if negative then Nat.pow 2 63 else 0

/-- The encoding of a number; `nan` takes its quiet positive form. -/
def toBits : Double → Nat
  | .nan => Grid.size + Nat.pow 2 51
  | .infinite negative => signBit negative + Grid.size
  | .finite negative m => signBit negative + m.place

/-! ## Signs and classes -/

/-- Neither an infinity nor `nan`. -/
def isFinite : Double → Bool
  | .finite _ _ => true
  | _ => false

/-- The number with its sign turned; a zero's sign turns too. -/
def neg : Double → Double
  | .nan => .nan
  | .infinite negative => .infinite (!negative)
  | .finite negative m => .finite (!negative) m

instance : Neg Double := ⟨neg⟩

/-- A magnitude with a sign, as an integer. -/
def signed (negative : Bool) (n : Nat) : Int := if negative then -(n : Int) else n

end Double

end Stencil

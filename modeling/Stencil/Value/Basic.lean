/-
# Stencil.Value.Basic -- the values that variables hold

A `Value` is a truth value, a 64-bit integer, a binary64 number, a text, or
nothing at all: `absent` is what a name that was never bound stands for, and it
can be bound like any other value.

Numbers are made by `ofDouble`, which keeps one representation for each: an
integral number in the 64-bit range becomes an integer, any other finite number
stays a binary64 number, and what is no finite number becomes `absent`. The
constructor `float` itself takes any binary64 number, so a store may hold others;
`IsNormal` singles out the values that have the one representation.

Equality of the type is identity. `same` is equality of contents, which differs
on binary64 numbers only: the zeros are the same and `nan` is not even the same
as itself.
-/
import Stencil.Decimal.Reading
import Stencil.Double.Decimal

namespace Stencil

/-- A value of the language. -/
inductive Value where
  | bool (b : Bool)
  | int (n : Int64)
  | float (x : Double)
  | str (s : String)
  | absent
deriving DecidableEq

namespace Value

instance : Inhabited Value := ⟨absent⟩

/-! ## Numbers -/

/-- The 64-bit integer that is equal to `n`, if there is one. -/
def int64? (n : Int) : Option Int64 :=
  let word := Int64.ofInt n
  if word.toInt = n then some word else none

/-- A binary64 number as a value, in the one representation that numbers have. -/
def ofDouble (x : Double) : Value :=
  match x.toInt?.bind int64? with
  | some n => int n
  | none => if x.isFinite then float x else absent

/-- The value that a numeral writes: an integer if it is written as one and fits,
else the nearest binary64 number; nothing if that is not finite. -/
def ofNumeral? (cs : List Char) : Option Value := do
  let d ← Decimal.read? cs
  match if Decimal.isInteger cs then int64? d.signedCoefficient else none with
  | some n => return int n
  | none =>
    let x := Double.ofDecimal d
    if x.isFinite then return ofDouble x else none

/-- The number that a value is, rounded to binary64; nothing for other values. -/
def toDouble? : Value → Option Double
  | int n => some (.ofInt n.toInt)
  | float x => some x
  | _ => none

/-- A value in the one representation that numbers have: if it is a binary64 number,
then a finite one, and no integer of 64 bits. -/
def IsNormal : Value → Prop
  | float x => x.isFinite = true ∧ x.toInt?.bind int64? = none
  | _ => True

instance (v : Value) : Decidable v.IsNormal := by
  cases v <;> unfold IsNormal <;> infer_instance

/-! ## Views -/

/-- The written form of a value; nothing is written for `absent`. -/
def text : Value → String
  | bool b => if b then "true" else "false"
  | int n => (Decimal.ofInt n.toInt).text
  | float x => x.text
  | str s => s
  | absent => ""

/-- The name of a value's type. -/
def typeName : Value → String
  | bool _ => "boolean"
  | int _ => "integer"
  | float _ => "real"
  | str _ => "string"
  | absent => "absent"

/-- Whether a value counts as true: all do but `absent` and false itself. -/
def isTruthy : Value → Bool
  | bool b => b
  | absent => false
  | _ => true

/-- Equality of contents: of one type, and equal as that type compares. -/
def same : Value → Value → Bool
  | float x, float y => x.compare? y == some .eq
  | v, w => v = w

end Value

end Stencil

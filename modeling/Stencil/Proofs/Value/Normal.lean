/-
# Stencil.Proofs.Value.Normal -- the one representation of numbers

Every value that is computed is normal: a numeral and the result of an operation are brought
to the one representation by `ofDouble`, and what is not a number is normal anyway.

Being normal is what makes the representation the only one. The number that a value stands for
is counted in the units of the grid, exactly (`units?`); two normal values that stand for the
same number are the same value (`eq_of_units?_eq`). Zero is the integer zero, so its two signs
do not arise.
-/
import Stencil.Proofs.Value.Arithmetic

namespace Stencil.Value

/-! ## Which values are normal -/

/-- A binary64 number is normal if it is finite and not an integer of 64 bits. -/
theorem isNormal_float_iff {x : Double} :
    (float x).IsNormal ↔ x.isFinite = true ∧ ∀ n, x.toInt? = some n → ¬ FitsInt64 n := by
  show x.isFinite = true ∧ x.toInt?.bind int64? = none ↔ _
  refine and_congr_right fun _ => ?_
  rw [Option.bind_eq_none_iff]
  exact forall₂_congr fun _ _ => int64?_eq_none_iff

/-- Binary64 numbers are the only values that can fail to be normal. -/
theorem isNormal_iff {v : Value} : v.IsNormal ↔ ∀ x, v = .float x →
    x.isFinite = true ∧ ∀ n, x.toInt? = some n → ¬ FitsInt64 n := by
  cases v with
  | float x =>
    rw [isNormal_float_iff]
    constructor
    · intro h y hy
      rwa [← Value.float.inj hy]
    · intro h
      exact h x rfl
  | bool => exact ⟨nofun, fun _ => trivial⟩
  | int => exact ⟨nofun, fun _ => trivial⟩
  | str => exact ⟨nofun, fun _ => trivial⟩
  | absent => exact ⟨nofun, fun _ => trivial⟩

/-! ## What is computed is normal -/

theorem isNormal_ofDouble (x : Double) : (ofDouble x).IsNormal := by
  unfold ofDouble
  cases hint : x.toInt?.bind int64? with
  | some n => trivial
  | none =>
    cases hfinite : x.isFinite with
    | true => exact ⟨hfinite, hint⟩
    | false => trivial

theorem isNormal_rounded (op : Additive) (v w : Value) : (rounded op v w).IsNormal := by
  unfold rounded
  split
  · exact isNormal_ofDouble _
  · trivial

/-- Sums and differences are normal, even those of values that are not. -/
theorem isNormal_combine (op : Additive) (v w : Value) : (v.combine op w).IsNormal := by
  unfold combine
  split
  · split
    · trivial
    · exact isNormal_rounded ..
  · cases op <;> trivial
  · exact isNormal_rounded ..

theorem isNormal_of_ofNumeral? {cs : List Char} {v : Value} (h : ofNumeral? cs = some v) :
    v.IsNormal := by
  unfold ofNumeral? at h
  obtain ⟨d, -, h⟩ := Option.bind_eq_some_iff.mp h
  split at h
  · obtain rfl := Option.some.inj h
    trivial
  · cases hfinite : (Double.ofDecimal d).isFinite with
    | true =>
      simp only [hfinite, if_true] at h
      obtain rfl := Option.some.inj h
      exact isNormal_ofDouble _
    | false => simp [hfinite] at h

/-! ## One representation -/

/-- The number that a value stands for, counted in units of `2 ^ -1074`; none if it is no finite
number. -/
def units? : Value → Option Int
  | int n => some (n.toInt * Grid.one)
  | float (.finite negative m) => some (Double.signed negative m.units)
  | _ => none

/-- A normal binary64 number is no integer of 64 bits. -/
theorem units_ne_of_isNormal {s : Bool} {m : Magnitude} (h : (float (.finite s m)).IsNormal)
    (n : Int64) : Double.signed s m.units ≠ n.toInt * Grid.one := by
  intro heq
  have hint := Double.toInt?_eq_some_iff.mpr ⟨s, m, rfl, heq⟩
  exact (isNormal_float_iff.mp h).2 _ hint (fitsInt64_toInt n)

/-- Magnitudes that differ in sign are the same number only if both are zero. -/
theorem finite_eq_of_units_eq {s t : Bool} {m k : Magnitude}
    (h : Double.signed s m.units = Double.signed t k.units) (hne : Double.signed s m.units ≠ 0) :
    Double.finite s m = .finite t k := by
  have habs : m.units = k.units := by
    have habs := congrArg Int.natAbs h
    rwa [Double.natAbs_signed, Double.natAbs_signed] at habs
  have hsign : s = t := by
    cases s <;> cases t <;> simp [Double.signed, habs] at h hne ⊢ <;> omega
  -- a magnitude has one place on the grid
  obtain ⟨place, hplace⟩ := m
  obtain ⟨place', hplace'⟩ := k
  obtain rfl : place = place' := Grid.units_strictMono.injective habs
  rw [hsign]

/-- Two normal values that stand for one number are the same value. -/
theorem eq_of_units?_eq {v w : Value} {k : Int} (hv : v.IsNormal) (hw : w.IsNormal)
    (h : v.units? = some k) (h' : w.units? = some k) : v = w := by
  match v, w with
  | int a, int b =>
    have heq : a.toInt * Grid.one = b.toInt * Grid.one := Option.some.inj (h.trans h'.symm)
    have hone := Int.ne_of_gt Grid.intCast_one_pos
    rw [Int64.toInt_inj.mp (Int.eq_of_mul_eq_mul_right hone heq)]
  -- an integer and a normal binary64 number are never the same number
  | int a, float (.finite t m) =>
    exact absurd (Option.some.inj (h'.trans h.symm)) (units_ne_of_isNormal hw a)
  | float (.finite s m), int b =>
    exact absurd (Option.some.inj (h.trans h'.symm)) (units_ne_of_isNormal hv b)
  | float (.finite s m), float (.finite t k) =>
    have hne : Double.signed s m.units ≠ 0 := by
      have := units_ne_of_isNormal hv 0
      rwa [show (0 : Int64).toInt = 0 from rfl, Int.zero_mul] at this
    rw [finite_eq_of_units_eq (Option.some.inj (h.trans h'.symm)) hne]

end Stencil.Value

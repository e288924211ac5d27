/-
# Stencil.Parse.Frontier -- the furthest place where something was missing

While a text is read, one reading after the other is tried and given up. Each
reading that fails on a single item leaves a note of what it wanted and where.
When the whole reading fails, only the notes at the furthest place are of
interest, and this is all that a `Frontier` keeps: that place, and what was wanted
there, each thing once and in the order in which it was first missed.

`merge` puts the notes of two readings together, the earlier one first. It is
associative and `none` is neutral to it, so a reading's notes never depend on what
was read before it.
-/

namespace Stencil.Parse

/-! ## What a reading can miss -/

/-- Something that a reading wanted to find. -/
inductive Expected where
  /-- An exact piece of text. -/
  | text (token : String)
  | identifier
  | number
  /-- One of the spellings of the comparison operators. -/
  | comparison
  /-- One of the two operators of arithmetic. -/
  | additive
  | endOfInput
deriving DecidableEq

/-- What is missing, as messages name it. -/
def Expected.describe : Expected → String
  | text token => "'" ++ token ++ "'"
  | identifier => "identifier"
  | number => "number"
  | comparison => "comparison operator"
  | additive => "'+' or '-'"
  | endOfInput => "end of input"

/-! ## The furthest notes -/

/-- The furthest place where something was missing, and what was wanted there. -/
structure Frontier where
  place : Nat
  wanted : List Expected
deriving DecidableEq

namespace Frontier

/-- Nothing was missing yet. -/
def none : Frontier := ⟨0, []⟩

/-- One thing was missing at a place. -/
def missing (place : Nat) (e : Expected) : Frontier := ⟨place, [e]⟩

/-- The notes of two readings together, the earlier first: the further one wins,
and at one place the later adds what the earlier has not. -/
def merge (f g : Frontier) : Frontier :=
  if f.place < g.place then g
  else if g.place < f.place then f
  else ⟨f.place, f.wanted ++ g.wanted.filter (· ∉ f.wanted)⟩

/-- Note one more missing thing. -/
def record (f : Frontier) (place : Nat) (e : Expected) : Frontier :=
  f.merge (missing place e)

/-! ## The laws of merging -/

theorem merge_of_lt {f g : Frontier} (h : f.place < g.place) : f.merge g = g := by
  simp [merge, h]

theorem merge_of_gt {f g : Frontier} (h : g.place < f.place) : f.merge g = f := by
  simp [merge, h, Nat.lt_asymm h]

theorem merge_of_eq {f g : Frontier} (h : f.place = g.place) :
    f.merge g = ⟨f.place, f.wanted ++ g.wanted.filter (· ∉ f.wanted)⟩ := by
  simp [merge, h]

theorem place_merge (f g : Frontier) : (f.merge g).place = max f.place g.place := by
  rcases Nat.lt_trichotomy f.place g.place with h | h | h
  · rw [merge_of_lt h]; omega
  · rw [merge_of_eq h]; simp only; omega
  · rw [merge_of_gt h]; omega

@[simp] theorem none_merge (f : Frontier) : none.merge f = f := by
  rcases Nat.eq_zero_or_pos f.place with h | h
  · rw [merge_of_eq h.symm]
    rcases f with ⟨place, wanted⟩
    simp_all [none]
  · exact merge_of_lt h

@[simp] theorem merge_none (f : Frontier) : f.merge none = f := by
  rcases Nat.eq_zero_or_pos f.place with h | h
  · rw [merge_of_eq h]
    simp [none]
  · exact merge_of_gt h

theorem merge_assoc (f g h : Frontier) : (f.merge g).merge h = f.merge (g.merge h) := by
  have := place_merge f g
  have := place_merge g h
  rcases Nat.lt_trichotomy g.place h.place with gh | gh | gh
  · rw [merge_of_lt gh]
    rcases Nat.lt_trichotomy f.place g.place with fg | fg | fg
    · rw [merge_of_lt fg, merge_of_lt gh, merge_of_lt (Nat.lt_trans fg gh)]
    · have fh : f.place < h.place := by omega
      rw [merge_of_lt fh]
      exact merge_of_lt (by omega)
    · rw [merge_of_gt fg]
  · rcases Nat.lt_trichotomy f.place g.place with fg | fg | fg
    · rw [merge_of_lt fg]
      exact (merge_of_lt (by omega)).symm
    · simp only [merge, fg, gh, Nat.lt_irrefl, ↓reduceIte, List.filter_append,
        List.filter_filter, List.append_assoc]
      congr 3
      apply List.filter_congr
      intro x _
      by_cases hx : x ∈ f.wanted <;> simp [hx]
    · rw [merge_of_gt fg, merge_of_gt (gh ▸ fg)]
      exact (merge_of_gt (by omega)).symm
  · rw [merge_of_gt gh]
    rcases Nat.lt_trichotomy f.place g.place with fg | fg | fg
    · rw [merge_of_lt fg, merge_of_gt gh]
    · rw [merge_of_gt (by omega)]
    · rw [merge_of_gt fg, merge_of_gt (Nat.lt_trans gh fg)]

end Frontier

end Stencil.Parse

/-
# Stencil.Proofs.Scanner.Notes -- the furthest notes of a scan

A scanner keeps one place and a list of what was missing there. A note empties this list first,
adds to it or is dropped, depending on how the position compares with the furthest place so far,
and between two notes the position is moved and set back in any way. What is left in the end has
a closed form that knows nothing of these comparisons: `Summarizes` says that the place is the
greatest one that was noted, or zero, and that the list holds what was noted at this place, each
thing once and in the order of the first notes of it. There is only one such frontier.

One more note keeps this (`Summarizes.record`), and a run is a sequence of notes. Parsers have no
position to move and put the notes of their parts together instead; `merge_recordAll` says that
this comes to the same.
-/
import Mathlib.Data.List.Basic
import Stencil.Proofs.Scanner.Grammar
import Stencil.Proofs.Scanner.Step

namespace Stencil

namespace Parse

/-- Something that was missing, and where. -/
structure Note where
  place : Nat
  missed : Expected
deriving DecidableEq

namespace Frontier

/-- Note missing things one after another. -/
def recordAll (f : Frontier) (notes : List Note) : Frontier :=
  notes.foldl (fun f n => f.record n.place n.missed) f

/-- All that a frontier says about the notes that were made, in the order in which they were
made. -/
structure Summarizes (f : Frontier) (notes : List Note) : Prop where
  place : (0 :: notes.map Note.place).max? = some f.place
  mem_wanted : ∀ e, e ∈ f.wanted ↔ ⟨f.place, e⟩ ∈ notes
  /-- What was noted at the place first stands first; in particular nothing stands there twice. -/
  inOrder : f.wanted.Pairwise fun a b => notes.idxOf ⟨f.place, a⟩ < notes.idxOf ⟨f.place, b⟩

variable {f g : Frontier} {notes : List Note}

/-! ## What a summary says -/

theorem Summarizes.place_le (h : f.Summarizes notes) {n : Note} (hn : n ∈ notes) :
    n.place ≤ f.place :=
  (List.max?_eq_some_iff.mp h.place).2 _ (List.mem_cons_of_mem 0 (List.mem_map_of_mem hn))

theorem Summarizes.nodup (h : f.Summarizes notes) : f.wanted.Nodup := by
  refine h.inOrder.imp ?_
  rintro a b hlt rfl
  exact Nat.lt_irrefl _ hlt

/-- Nothing is wanted just where nothing was noted at the place. -/
theorem Summarizes.wanted_eq_nil_iff (h : f.Summarizes notes) :
    f.wanted = [] ↔ ∀ e, ⟨f.place, e⟩ ∉ notes := by
  rw [List.eq_nil_iff_forall_not_mem]
  exact forall_congr' fun e => not_congr (h.mem_wanted e)

/-- The notes determine what they are summarized to. -/
theorem Summarizes.unique (h : f.Summarizes notes) (h' : g.Summarizes notes) : f = g := by
  obtain ⟨place, wanted⟩ := f
  obtain ⟨place', wanted'⟩ := g
  obtain rfl : place = place' := Option.some.inj (h.place.symm.trans h'.place)
  have hperm : wanted.Perm wanted' := by
    refine (List.perm_ext_iff_of_nodup h.nodup h'.nodup).mpr ?_
    intro e
    exact (h.mem_wanted e).trans (h'.mem_wanted e).symm
  -- of two things that stand in either order, neither was noted first
  obtain rfl : wanted = wanted' := by
    refine hperm.eq_of_pairwise ?_ h.inOrder h'.inOrder
    intro a b _ _ hab hba
    exact absurd hab (Nat.lt_asymm hba)
  rfl

/-! ## One more note -/

variable {k : Nat} {e : Expected}

theorem Summarizes.max?_snoc (h : f.Summarizes notes) (k : Nat) (e : Expected) :
    (0 :: List.map Note.place (notes ++ [⟨k, e⟩])).max? = some (max f.place k) := by
  obtain ⟨hmem, hle⟩ := List.max?_eq_some_iff.mp h.place
  rw [List.map_append, ← List.cons_append]
  refine List.max?_eq_some_iff.mpr ⟨?_, ?_⟩
  · rcases Nat.le_total f.place k with hfk | hkf
    · rw [Nat.max_eq_right hfk]
      exact List.mem_append_right _ (List.mem_singleton.mpr rfl)
    · rw [Nat.max_eq_left hkf]
      exact List.mem_append_left _ hmem
  · intro l hl
    obtain hl | hl := List.mem_append.mp hl
    · exact Nat.le_trans (hle l hl) (Nat.le_max_left ..)
    · obtain rfl : l = k := List.mem_singleton.mp hl
      exact Nat.le_max_right ..

/-- A later note does not change which of two earlier ones came first. -/
theorem Summarizes.inOrder_snoc (h : f.Summarizes notes) (n : Note) :
    f.wanted.Pairwise fun a b =>
      (notes ++ [n]).idxOf ⟨f.place, a⟩ < (notes ++ [n]).idxOf ⟨f.place, b⟩ := by
  refine h.inOrder.imp_of_mem ?_
  intro a b ha hb hlt
  rwa [List.idxOf_append_of_mem ((h.mem_wanted a).mp ha),
    List.idxOf_append_of_mem ((h.mem_wanted b).mp hb)]

/-- What is noted at a later place is all that is left. -/
theorem Summarizes.record_of_lt (h : f.Summarizes notes) (hlt : f.place < k) :
    (f.record k e).Summarizes (notes ++ [⟨k, e⟩]) := by
  have hrecord : f.record k e = ⟨k, [e]⟩ := merge_of_lt hlt
  rw [hrecord]
  refine ⟨?_, ?_, List.pairwise_singleton _ _⟩
  · rw [h.max?_snoc, Nat.max_eq_right (Nat.le_of_lt hlt)]
  · intro e'
    have hno : ⟨k, e'⟩ ∉ notes := by
      intro hmem
      exact Nat.not_le_of_lt hlt (h.place_le hmem)
    simp [hno]

/-- The same thing noted again at the furthest place makes no difference. -/
theorem Summarizes.record_of_mem (h : f.Summarizes notes) (he : e ∈ f.wanted) :
    (f.record f.place e).Summarizes (notes ++ [⟨f.place, e⟩]) := by
  have hrecord : f.record f.place e = f := by
    have hsame : f.place = (missing f.place e).place := rfl
    rw [Frontier.record, merge_of_eq hsame]
    simp [missing, he]
  have hthere : ⟨f.place, e⟩ ∈ notes := (h.mem_wanted e).mp he
  rw [hrecord]
  refine ⟨?_, ?_, h.inOrder_snoc _⟩
  · rw [h.max?_snoc, Nat.max_self]
  · intro e'
    rw [h.mem_wanted, List.mem_append, List.mem_singleton]
    constructor
    · exact .inl
    · rintro (hmem | heq)
      · exact hmem
      · exact heq ▸ hthere

/-- Another thing noted at the furthest place stands last. -/
theorem Summarizes.record_of_not_mem (h : f.Summarizes notes) (he : e ∉ f.wanted) :
    (f.record f.place e).Summarizes (notes ++ [⟨f.place, e⟩]) := by
  have hrecord : f.record f.place e = ⟨f.place, f.wanted ++ [e]⟩ := by
    have hsame : f.place = (missing f.place e).place := rfl
    rw [Frontier.record, merge_of_eq hsame]
    simp [missing, he]
  have hnew : ⟨f.place, e⟩ ∉ notes := mt (h.mem_wanted e).mpr he
  rw [hrecord]
  refine ⟨?_, ?_, ?_⟩
  · rw [h.max?_snoc, Nat.max_self]
  · intro e'
    simp [h.mem_wanted]
  · refine List.pairwise_append.mpr ⟨h.inOrder_snoc _, List.pairwise_singleton _ _, ?_⟩
    intro a ha b hb
    obtain rfl := List.mem_singleton.mp hb
    have hold : ⟨f.place, a⟩ ∈ notes := (h.mem_wanted a).mp ha
    rw [List.idxOf_append_of_mem hold, List.idxOf_append_of_notMem hnew]
    exact Nat.lt_add_right _ (List.idxOf_lt_length_of_mem hold)

/-- What is noted before the furthest place is dropped. -/
theorem Summarizes.record_of_gt (h : f.Summarizes notes) (hgt : k < f.place) :
    (f.record k e).Summarizes (notes ++ [⟨k, e⟩]) := by
  have hrecord : f.record k e = f := merge_of_gt hgt
  rw [hrecord]
  refine ⟨?_, ?_, h.inOrder_snoc _⟩
  · rw [h.max?_snoc, Nat.max_eq_left (Nat.le_of_lt hgt)]
  · intro e'
    simp [h.mem_wanted, Nat.ne_of_gt hgt]

/-- One more note keeps the summary. -/
theorem Summarizes.record (h : f.Summarizes notes) (k : Nat) (e : Expected) :
    (f.record k e).Summarizes (notes ++ [⟨k, e⟩]) := by
  rcases Nat.lt_trichotomy f.place k with hlt | rfl | hgt
  · exact h.record_of_lt hlt
  · by_cases he : e ∈ f.wanted
    · exact h.record_of_mem he
    · exact h.record_of_not_mem he
  · exact h.record_of_gt hgt

/-! ## Sequences of notes -/

theorem summarizes_none : none.Summarizes [] := ⟨rfl, by simp [none], .nil⟩

theorem Summarizes.recordAll (h : f.Summarizes notes) (later : List Note) :
    (f.recordAll later).Summarizes (notes ++ later) := by
  induction later generalizing f notes with
  | nil => rwa [List.append_nil]
  | cons n later ih =>
    have hlater := ih (h.record n.place n.missed)
    rwa [List.append_assoc] at hlater

/-- To record notes one after another is to merge their summary. -/
theorem merge_recordAll (f g : Frontier) (notes : List Note) :
    f.merge (g.recordAll notes) = (f.merge g).recordAll notes := by
  induction notes generalizing g with
  | nil => rfl
  | cons n notes ih =>
    show f.merge ((g.record n.place n.missed).recordAll notes) = _
    rw [ih, record, ← merge_assoc]
    rfl

end Frontier

end Parse

namespace Scanner

open Parse

/-! ## Scans that move and note -/

/-- What happens to the position and to the notes of a scanner. -/
inductive Act where
  /-- The position moves forward. -/
  | move (bytes : Nat)
  /-- The position is set back, or to any place at all. -/
  | reset (mark : Nat)
  | note (e : Expected)

namespace Act

/-- The rule that does it. -/
def rule : Act → Rule Unit
  | move bytes => Scanner.move bytes
  | reset mark => Scanner.reset mark
  | note e => expected e

/-- The notes that are made from a position on, each with the position at that moment. -/
def notes : (position : Nat) → List Act → List Note
  | _, [] => []
  | n, move bytes :: acts => notes (n + bytes) acts
  | _, reset mark :: acts => notes mark acts
  | n, note e :: acts => ⟨n, e⟩ :: notes n acts

/-- Acts in turn leave the notes that were made, recorded one after another. -/
theorem forM_on (acts : List Act) (σ : State) :
    ∃ τ, (acts.forM rule).on σ = some (some (), τ) ∧
      τ.notes = σ.notes.recordAll (notes σ.position acts) := by
  induction acts generalizing σ with
  | nil => exact ⟨σ, rfl, rfl⟩
  | cons a acts ih =>
    cases a with
    | move bytes => exact ih { σ with position := σ.position + bytes }
    | reset mark => exact ih { σ with position := mark }
    | note e =>
      obtain ⟨τ, hon, hnotes⟩ := ih (σ.noting e)
      refine ⟨τ, ?_, hnotes⟩
      show (expected e >>= fun _ => acts.forM rule).on σ = _
      rw [on_bind_of_some (expected_on e σ), hon]

end Act

/-- However the position moves between them, the notes of a scan that begins afresh are
summarized. The furthest place is the greatest at which something was noted, or zero. What is
wanted is what was noted at this place, each thing once and in the order in which they were
noted there first, and so it is nothing just if nothing was noted there. No other place and list
summarize the notes. To go on recording from notes made before comes to merging the two. -/
theorem furthest_notes_summarized (text : List Char) (limits : Limits) (acts : List Act) :
    ∃ τ, (acts.forM Act.rule).on (.start text limits) = some (some (), τ) ∧
      (∀ f : Frontier, f.Summarizes (Act.notes 0 acts) ↔ f = ⟨τ.furthest, τ.wanted⟩) ∧
      (τ.wanted = [] ↔ ∀ e, ⟨τ.furthest, e⟩ ∉ Act.notes 0 acts) ∧
      ∀ f : Frontier, f.recordAll (Act.notes 0 acts) = f.merge ⟨τ.furthest, τ.wanted⟩ := by
  obtain ⟨τ, hon, hnotes⟩ := Act.forM_on acts (.start text limits)
  have hsummary : τ.notes.Summarizes (Act.notes 0 acts) := by
    rw [hnotes]
    exact Frontier.summarizes_none.recordAll _
  refine ⟨τ, hon, ?_, hsummary.wanted_eq_nil_iff, ?_⟩
  · intro f
    constructor
    · exact fun h => h.unique hsummary
    · rintro rfl
      exact hsummary
  · intro f
    show _ = f.merge τ.notes
    rw [hnotes, Frontier.merge_recordAll]
    show _ = (f.merge .none).recordAll _
    rw [Frontier.merge_none]
    rfl

/-- Two things are noted at a later place, one of them again after the position was set back. -/
example :
    ([Act.note .identifier, .move 1, .note .number, .note .comparison, .reset 0,
        .note .additive, .reset 1, .note .number].forM Act.rule).on (.start ['a', 'b'] ⟨2, 1⟩) =
      some (some (), ⟨['a', 'b'], ⟨2, 1⟩, 1, 0, false, 1, [.number, .comparison]⟩) := by
  decide

end Scanner

end Stencil

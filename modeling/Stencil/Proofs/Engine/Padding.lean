/-
# Stencil.Proofs.Engine.Padding -- the padding of a text does not matter

Every operation brings its text to normal form first, and takes nothing else from it but its
length, which is reported. So texts with one normal form are as good as each other for all four
operations, and these are just the texts that differ in padding.
-/
import Stencil.Proofs.Engine.Operation
import Stencil.Proofs.Text.Padding

namespace Stencil

open Text

/-- The same answer or failure, and the same engine. The same events too, but for the first, which
reports how long the text is. -/
structure Execution.SameResult {α : Type} (x y : Execution α) : Prop where
  answer : x.answer = y.answer
  engine : x.engine = y.engine
  events : x.events.tail = y.events.tail

/-- What is made of a text is made of its normal form. -/
theorem Engine.evaluate_sameResult {τ α : Type} {e : Engine} {op : Operation}
    {parse : String → Limits → Except Parse.Failure τ} {act : τ → Store → α × Store × List Event}
    {s t : String} {vars : Option Store} (h : normalize s = normalize t) :
    (e.evaluate op parse act s vars).SameResult (e.evaluate op parse act t vars) := by
  simp only [evaluate, h]
  cases parse (normalize t) (e.install vars).limits with
  | error failure => exact ⟨rfl, rfl, rfl⟩
  | ok tree => exact ⟨rfl, rfl, rfl⟩

namespace Text

variable {s t : String}

theorem normalize_eq_iff : normalize s = normalize t ↔ SamePadding s.toList t.toList := by
  rw [← normalChars_eq_iff, normalize, normalize, String.ofList_inj]

theorem normalize_normalize (s : String) : normalize (normalize s) = normalize s := by
  rw [normalize_eq_self_iff, normalize, String.toList_ofList]
  exact isNormal_normalChars s.toList

theorem samePadding_normalize (s : String) : SamePadding s.toList (normalize s).toList :=
  normalize_eq_iff.mp (normalize_normalize s).symm

/-- What normalising cuts: the margin from the two ends of the text, and from what is left, line by
line, blanks. -/
theorem exists_cut_normalize (s : String) : ∃ core, Cut isMargin s.toList core ∧
    List.Forall₂ (Cut isBlank) (core.splitOn '\n') ((normalize s).toList.splitOn '\n') ∧
    (normalize s).toList.count '\n' = core.count '\n' := by
  refine ⟨trim isMargin s.toList, cut_trim _ _, ?_⟩
  rw [normalize, String.toList_ofList, normalChars_eq]
  exact ⟨forall₂_trimLines _, count_trimLines _⟩

end Text

/-- The normal form is canonical. It is its own normal form, it is the text with other padding,
and it is the same for two texts just if these differ in padding only, as by any number of
additions and removals of a character of the margin at an end of the text, or of a space or tab at
an end of a line. What normalising cuts is the margin at the two ends of the text and, line by
line, spaces and tabs; all line ends that the first cut leaves stay.

So no operation tells texts apart that differ in padding only: each gives the same answer, or
fails with the same failure and so with the same message, and leaves the same engine. -/
theorem normal_form_canonical (s : String) :
    normalize (normalize s) = normalize s ∧
    SamePadding s.toList (normalize s).toList ∧
    (∀ t : String, normalize s = normalize t ↔ SamePadding s.toList t.toList) ∧
    (∃ core, Cut isMargin s.toList core ∧
      List.Forall₂ (Cut isBlank) (core.splitOn '\n') ((normalize s).toList.splitOn '\n') ∧
      (normalize s).toList.count '\n' = core.count '\n') ∧
    ∀ t : String, SamePadding s.toList t.toList → ∀ (e : Engine) (vars : Option Store),
      (e.transform s vars).SameResult (e.transform t vars) ∧
      (e.conditional s vars).SameResult (e.conditional t vars) ∧
      (e.update s vars).SameResult (e.update t vars) ∧
      (e.calculate s vars).SameResult (e.calculate t vars) := by
  refine ⟨normalize_normalize s, samePadding_normalize s, fun t => normalize_eq_iff,
    exists_cut_normalize s, ?_⟩
  intro t hpadding e vars
  have hnormal : normalize s = normalize t := normalize_eq_iff.mpr hpadding
  refine ⟨?_, ?_, ?_, ?_⟩
  · exact Engine.evaluate_sameResult hnormal
  · exact Engine.evaluate_sameResult hnormal
  · exact Engine.evaluate_sameResult hnormal
  · exact Engine.evaluate_sameResult hnormal

/-- Inside a text, a carriage return keeps the blank before it; the blanks beside the line end and
the zero at the front are padding. -/
theorem normal_form_canonical_return :
    let s := "a: 1 \r\n b: 2"
    let t := "\x00a: 1 \r\t\nb: 2"
    SamePadding s.toList t.toList ∧ normalize s = "a: 1 \r\nb: 2" ∧ normalize t = normalize s ∧
      ∀ e : Engine, (e.update s none).answer = (e.update t none).answer ∧
        (e.update s none).engine = (e.update t none).engine := by
  intro s t
  have hpadding : SamePadding s.toList t.toList := by
    have hs : s.toList = ['a', ':', ' ', '1', ' ', '\r'] ++ '\n' :: ' ' :: ['b', ':', ' ', '2'] := by
      decide +kernel
    have ht : t.toList =
        '\x00' :: (['a', ':', ' ', '1', ' ', '\r'] ++ '\t' :: '\n' :: ['b', ':', ' ', '2']) := by
      decide +kernel
    rw [hs, ht]
    apply Relation.EqvGen.trans
    · apply Relation.EqvGen.symm
      apply Relation.EqvGen.rel
      apply Padded.lineStart
      decide
    apply Relation.EqvGen.trans
    · apply Relation.EqvGen.rel
      apply Padded.lineEnd _ _ (by decide : '\t' ∈ _)
    · apply Relation.EqvGen.rel
      apply Padded.front
      decide
  obtain ⟨-, -, hiff, -, hsame⟩ := normal_form_canonical s
  refine ⟨hpadding, by decide +kernel, ((hiff t).mpr hpadding).symm, ?_⟩
  intro e
  obtain ⟨-, -, hupdate, -⟩ := hsame t hpadding e none
  exact ⟨hupdate.answer, hupdate.engine⟩

end Stencil

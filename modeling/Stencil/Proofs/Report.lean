/-
# Stencil.Proofs.Report -- the report of a mismatch

A mismatch reports a place in three ways, the character found there, and what was expected.
This module shows that the report agrees with the text: the offset divides the text between
two characters, line and column count what stands in front of it, the character found is the
first one behind it, and nothing that is said to be expected stands there.

That what is expected would have helped is `Stencil.Proofs.Diagnosis`.
-/
import Stencil.Proofs.Absence
import Stencil.Proofs.Diagnosis

namespace Stencil.Parse

variable {α : Type}

/-! ## Places -/

/-- The location is that of the place behind `before`: its bytes are counted, its line ends,
and the characters of its last line. -/
structure Location.IsBehind (location : Location) (before : String) : Prop where
  offset : location.offset = before.utf8ByteSize
  line : location.line = 1 + before.toList.count '\n'
  column : ∃ earlier last, before.toList = earlier ++ last ∧
    (earlier = [] ∨ ∃ lines, earlier = lines ++ ['\n']) ∧ '\n' ∉ last ∧
      location.column = 1 + last.length

theorem Location.isBehind_behind (before : List Char) :
    (Location.behind before).IsBehind (String.ofList before) where
  offset := (utf8ByteSize_ofList before).symm
  line := by
    rw [String.toList_ofList]
    exact Nat.add_comm _ _
  column := by
    -- the last line is read from the end of the text
    have hparts := List.takeWhile_append_dropWhile (p := (· != '\n')) (l := before.reverse)
    have hlast := all_takeWhile (· != '\n') before.reverse
    have hclear := clear_dropWhile (· != '\n') before.reverse
    refine ⟨(before.reverse.dropWhile (· != '\n')).reverse,
      (before.reverse.takeWhile (· != '\n')).reverse, ?_, ?_, ?_, ?_⟩
    · rw [String.toList_ofList, ← List.reverse_append, hparts, List.reverse_reverse]
    · generalize before.reverse.dropWhile (· != '\n') = rest at hclear
      cases rest with
      | nil => exact .inl rfl
      | cons x rest =>
        have hx : x = '\n' := by simpa using clear_cons.mp hclear
        exact .inr ⟨rest.reverse, by rw [List.reverse_cons, hx]⟩
    · intro hmem
      have hne := hlast '\n' (List.mem_reverse.mp hmem)
      exact absurd hne (by decide)
    · rw [List.length_reverse]
      exact Nat.add_comm _ _

/-! ## Whole texts -/

/-- The text is divided where the mismatch is, and nothing that is expected stands there. -/
theorem Parser.Honest.whole_mismatch {p : Parser α} (h : p.Honest) {n : Nat} {text : List Char}
    {location : Location} {found : Option Char} {expected : List String}
    (hm : p.whole n text = .error (.mismatch location found expected)) :
    ∃ before after, text = before ++ after ∧ location = .behind before ∧ found = after.head? ∧
      expected.Nodup ∧
      ∀ entry ∈ expected, ∃ e : Expected, e.Plain ∧ e.describe = entry ∧ ¬ e.Stands after := by
  -- whichever frontier the message is made of, it is honest
  suffices hf : ∃ f : Frontier, f.Honest ⟨0, text⟩ ∧
      .mismatch location found expected = f.mismatch text by
    obtain ⟨f, hhonest, hf⟩ := hf
    rw [Frontier.mismatch, Cause.mismatch.injEq] at hf
    obtain ⟨rfl, rfl, rfl⟩ := hf
    refine ⟨_, _, (List.take_append_drop f.place text).symm, rfl, rfl, hhonest.nodup_describe, ?_⟩
    intro entry hentry
    obtain ⟨e, he, rfl⟩ := List.mem_map.mp hentry
    obtain ⟨hplain, hno⟩ := hhonest.not_stands he
    exact ⟨e, hplain, rfl, hno⟩
  have hnotes := h.notes ⟨0, text⟩
  obtain ⟨-, hcause⟩ | ⟨-, hcause⟩ | ⟨a, next, hread, hrest, hcause⟩ :=
    Parser.whole_eq_error_iff.mp hm
  · cases hcause
  · exact ⟨_, hnotes, hcause⟩
  · -- the end of the text is asked for where text is left
    obtain ⟨s, hs⟩ := h.forward hread
    have hend : ¬ Expected.endOfInput.Stands next.rest := hrest
    have hmissing := Frontier.honest_missing (e := .endOfInput) hs trivial hend
    exact ⟨_, hnotes.merge hmissing, hcause⟩

theorem Goal.parser_honest (goal : Goal) (n : Nat) : (goal.parser n).Honest := by
  cases goal with
  | template => exact Parser.template_honest n
  | condition => exact Parser.condition_honest n
  | expression => exact Parser.honest_expression
  | assignments => exact Parser.honest_assignments

/-- What does not stand at the beginning of a text, no entry of a message asks for there. -/
theorem not_expects_of_not_stands {e : Expected} {cs : List Char} (he : e.Plain)
    (h : ¬ e.Stands cs) : ¬ Expects e.describe cs := by
  rintro (hbegins | ⟨hend, rfl⟩)
  · exact Expected.not_begins_of_not_stands he h hbegins
  · have heq : e = .endOfInput := Expected.describe_inj he trivial hend
    rw [heq] at h
    exact h rfl

/-- If a text fails on a mismatch, the report agrees with the text. The offset divides it
between two characters, and line and column are those of this place; the character found is
the one behind it, and none is found exactly at the end. Something is expected, nothing twice,
and no entry asks for what stands there; where a number is expected, not even a numeral without
a finite value stands there. -/
theorem mismatch_report_agrees {goal : Goal} {src : String} {limits : Limits} {f : Failure}
    {location : Location} {found : Option Char} {expected : List String}
    (h : goal.parse src limits = .error f) (hf : f.cause = .mismatch location found expected) :
    ∃ before after : String, src = before ++ after ∧ location.IsBehind before ∧
      location.offset ≤ src.utf8ByteSize ∧
      found = after.toList.head? ∧ (found = none ↔ location.offset = src.utf8ByteSize) ∧
      expected ≠ [] ∧ expected.Nodup ∧ (∀ entry ∈ expected, ¬ Expects entry after.toList) ∧
      ("number" ∈ expected → ∀ s, Numeral s → ¬ s <+: after.toList) := by
  have hwhole := Goal.whole_of_mismatch h hf
  obtain ⟨hne, -⟩ := Parser.whole_mismatch (goal.parser_explains _) (goal.parser_reports _) hwhole
  obtain ⟨s, rest, hsrc, rfl, rfl, hnodup, habsent⟩ := (goal.parser_honest _).whole_mismatch hwhole
  have hsize : src.utf8ByteSize = byteLength s + byteLength rest := by
    rw [← utf8ByteSize_ofList s, ← utf8ByteSize_ofList rest, ← String.utf8ByteSize_append,
      ← String.ofList_append, ← hsrc, String.ofList_toList]
  have hoffset : (Location.behind s).offset = byteLength s := rfl
  refine ⟨String.ofList s, String.ofList rest, ?_, Location.isBehind_behind s, ?_, ?_, ?_, hne,
    hnodup, ?_, ?_⟩
  · rw [← String.ofList_append, ← hsrc, String.ofList_toList]
  · omega
  · rw [String.toList_ofList]
  · rw [List.head?_eq_none_iff, hoffset, hsize]
    have hlen := length_le_byteLength rest
    constructor
    · rintro rfl
      rfl
    · intro heq
      exact List.eq_nil_of_length_eq_zero (by omega)
  · rw [String.toList_ofList]
    intro entry hentry
    obtain ⟨e, he, rfl, hno⟩ := habsent entry hentry
    exact not_expects_of_not_stands he hno
  · rw [String.toList_ofList]
    intro hnumber t ht hprefix
    obtain ⟨e, he, hdescribe, hno⟩ := habsent _ hnumber
    have heq : e = .number := Expected.describe_inj he trivial hdescribe
    rw [heq] at hno
    exact hno ⟨t, ht, hprefix⟩

/-- Bytes, lines and characters are counted apart: the second `é` of this text stands behind nine
bytes, as the fifth character of the second line. -/
theorem mismatch_report_agrees_second_line :
    Goal.template.parse "é\n\x7b?a≤é\x7d" {} = .error ⟨.template, "é\n\x7b?a≤é\x7d",
        .mismatch ⟨9, 2, 5⟩ (some 'é') ["identifier", "number", "'\"'"]⟩ ∧
      ∃ before after : String, "é\n\x7b?a≤é\x7d" = before ++ after ∧
        Location.IsBehind ⟨9, 2, 5⟩ before ∧ some 'é' = after.toList.head? ∧
        ∀ entry ∈ ["identifier", "number", "'\"'"], ¬ Expects entry after.toList := by
  have hmismatch : Goal.template.parse "é\n\x7b?a≤é\x7d" {} = .error ⟨.template, "é\n\x7b?a≤é\x7d",
      .mismatch ⟨9, 2, 5⟩ (some 'é') ["identifier", "number", "'\"'"]⟩ := rfl
  obtain ⟨before, after, hsrc, hplace, -, hfound, -, -, -, hentries, -⟩ :=
    mismatch_report_agrees hmismatch rfl
  exact ⟨hmismatch, before, after, hsrc, hplace, hfound, hentries⟩

end Stencil.Parse

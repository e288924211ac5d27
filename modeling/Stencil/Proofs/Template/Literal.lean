/-
# Stencil.Proofs.Template.Literal -- literal text as it is read

Literal text is read up to the end or the next opener. That no opener stands in it is
said by the grammar of the text alone, while the reader looks ahead, past the end of the
literal. The two agree because an opener has its only brace of that kind in front, so
that none can begin in a literal and end behind it (`plain_iff`).
-/
import Stencil.Proofs.Template.Written

namespace Stencil

open Parse

/-- The text ends here, or a directive begins. -/
def Stops (rest : List Char) : Prop := rest = [] ∨ Parser.atOpener rest = true

/-- No directive begins in the text `s` that stands in front of `rest`. -/
def Plain : (s rest : List Char) → Prop
  | [], _ => True
  | x :: s, rest => Parser.atOpener (x :: (s ++ rest)) = false ∧ Plain s rest

namespace Parse.Parser

variable {c next : Cursor} {s rest : List Char}

/-! ## Openers -/

theorem atOpener_iff : atOpener s = true ↔ ∃ o ∈ openers, o <+: s := by
  simp only [atOpener, List.any_eq_true, List.isPrefixOf_iff_prefix]

/-- Every opener has a brace in front, and no other. -/
theorem opener_eq {o : List Char} (h : o ∈ openers) :
    ∃ x tail, o = '\x7b' :: x :: tail ∧ '\x7b' ∉ x :: tail := by
  simp only [openers, List.mem_cons, List.not_mem_nil, or_false] at h
  rcases h with rfl | rfl | rfl | rfl <;> exact ⟨_, _, rfl, by simp⟩

theorem atOpener_first (h : atOpener rest = true) : ∃ tail, rest = '\x7b' :: tail := by
  obtain ⟨o, ho, tail, rfl⟩ := atOpener_iff.mp h
  obtain ⟨x, o', rfl, -⟩ := opener_eq ho
  exact ⟨_, rfl⟩

/-- No opener begins in a text and ends behind it, where another begins or nothing is left. -/
theorem opener_within {o : List Char} (ho : o ∈ openers) (hne : s ≠ []) (hstop : Stops rest)
    (h : o <+: s ++ rest) : o <+: s := by
  obtain ⟨tail, htail⟩ := h
  obtain ⟨ahead, rfl, -⟩ | ⟨behind, rfl, hrest⟩ := List.append_eq_append_iff.mp htail
  · exact ⟨ahead, rfl⟩
  cases behind with
  | nil => simp
  | cons y behind =>
    -- what the opener has behind `s` begins as `rest` does, with a second brace
    obtain ⟨x, o', heq, hno⟩ := opener_eq ho
    cases s with
    | nil => exact absurd rfl hne
    | cons z s =>
      obtain hnil | hopen := hstop
      · simp [hrest] at hnil
      · obtain ⟨rest', hrest'⟩ := atOpener_first hopen
        have hy : y = '\x7b' := by
          rw [hrest, List.cons_append, List.cons.injEq] at hrest'
          exact hrest'.1
        rw [List.cons_append, List.cons.injEq] at heq
        rw [← heq.2, hy] at hno
        exact absurd (by simp) hno

/-- What the reader finds by looking ahead, the text of a literal shows by itself. -/
theorem plain_iff (hstop : Stops rest) : Plain s rest ↔ ∀ o ∈ openers, ¬ o <:+: s := by
  induction s with
  | nil =>
    simp only [Plain, List.infix_nil, true_iff]
    rintro o ho rfl
    obtain ⟨x, o', heq, -⟩ := opener_eq ho
    cases heq
  | cons x s ih =>
    rw [Plain, ih, ← Bool.not_eq_true, atOpener_iff, not_exists]
    constructor
    · rintro ⟨hhere, hlater⟩ o ho hin
      obtain hin | hin := List.infix_cons_iff.mp hin
      · exact hhere o ⟨ho, hin.trans (List.prefix_append (x :: s) rest)⟩
      · exact hlater o ho hin
    · intro h
      refine ⟨?_, fun o ho hin => h o ho (List.infix_cons hin)⟩
      rintro o ⟨ho, hin⟩
      exact h o ho (opener_within (s := x :: s) ho (by simp) hstop hin).isInfix

/-! ## Characters and runs of them -/

/-- A character is read as literal text unless an opener begins with it. -/
theorem literalChar_matched_iff {x : Char} :
    literalChar.outcome c = .matched x next ↔ c.Spans [x] next ∧ atOpener c.rest = false := by
  rcases c with ⟨place, _ | ⟨y, rest⟩⟩
  · simp [outcome, literalChar, fail, Cursor.Spans]
  · rcases next with ⟨place', rest'⟩
    by_cases hy : atOpener (y :: rest) = true
    · simp [outcome, literalChar, hy, fail]
    · simp only [outcome, literalChar, hy, Bool.false_eq_true, ↓reduceIte, Outcome.matched.injEq,
        Cursor.advance, Cursor.mk.injEq, Cursor.Spans, List.cons_append, List.nil_append,
        List.cons.injEq, List.length_singleton]
      grind

theorem literalChar_failed_iff : literalChar.outcome c = .failed ↔ Stops c.rest := by
  rcases c with ⟨place, _ | ⟨y, rest⟩⟩
  · simp [outcome, literalChar, fail, Stops]
  · by_cases hy : atOpener (y :: rest) = true <;> simp [outcome, literalChar, hy, fail, Stops]

theorem literalChar_advances : literalChar.Advances := by
  apply advances_of_outcome
  intro c x next h
  have hlen := (literalChar_matched_iff.mp h).1.length
  simp only [List.length_singleton] at hlen
  omega

/-- Round by round, just the plain texts are read. -/
theorem literalChars_reached_iff {xs : List Char} :
    Reached literalChar xs c next ↔ c.Spans xs next ∧ Plain xs next.rest := by
  induction xs generalizing c with
  | nil =>
    simp only [Plain, and_true, Cursor.spans_nil_iff]
    constructor
    · rintro ⟨⟩
      rfl
    · rintro rfl
      exact .start _
  | cons x xs ih =>
    constructor
    · rintro (_ | ⟨hx, hxs⟩)
      obtain ⟨hx, hno⟩ := literalChar_matched_iff.mp hx
      obtain ⟨hs, hplain⟩ := ih.mp hxs
      have hspan : c.Spans (x :: xs) next := hx.trans hs
      rw [hspan.1] at hno
      exact ⟨hspan, hno, hplain⟩
    · rintro ⟨hs, hno, hplain⟩
      obtain ⟨mid, hx, hs'⟩ := Cursor.Spans.split (s := [x]) hs
      rw [← List.cons_append, ← hs.1] at hno
      exact .step (literalChar_matched_iff.mpr ⟨hx, hno⟩) (ih.mpr ⟨hs', hplain⟩)

/-! ## Literals -/

/-- A literal is read up to the end or the next opener, as what the grammar says of its text
alone. -/
theorem literal_matched_iff {node : Node} :
    literal.outcome c = .matched node next ↔
      ∃ s, c.Spans s next ∧ IsLiteral s ∧ Stops next.rest ∧ node = .literal (String.ofList s) := by
  simp only [literal, bind_matched_iff, pure_matched_iff, many_matched_iff literalChar_advances,
    literalChar_failed_iff]
  constructor
  · rintro ⟨x, mid, hx, xs, last, ⟨hxs, hstop⟩, rfl, rfl⟩
    obtain ⟨hs, hplain⟩ := literalChars_reached_iff.mp (.step hx hxs)
    exact ⟨x :: xs, hs, ⟨by simp, (plain_iff hstop).mp hplain⟩, hstop, rfl⟩
  · rintro ⟨s, hs, ⟨hne, hno⟩, hstop, rfl⟩
    obtain _ | ⟨hx, hxs⟩ := literalChars_reached_iff.mpr ⟨hs, (plain_iff hstop).mpr hno⟩
    · exact absurd rfl hne
    · exact ⟨_, _, hx, _, _, ⟨hxs, hstop⟩, rfl, rfl⟩

theorem literal_failed (h : Stops c.rest) : literal.outcome c = .failed :=
  bind_failed (literalChar_failed_iff.mpr h)

end Parse.Parser

/-- No directive begins in front of a literal, nor does the text end there. -/
theorem IsLiteral.not_stops {s rest : List Char} (h : IsLiteral s) (hstop : Stops rest) :
    ¬ Stops (s ++ rest) := by
  have hplain := (Parser.plain_iff hstop).mpr h.2
  cases s with
  | nil => exact absurd rfl h.1
  | cons x s =>
    rintro (hnil | hopen)
    · cases hnil
    · rw [List.cons_append, hplain.1] at hopen
      cases hopen

end Stencil

/-
# Stencil.Proofs.Assignment.Lines -- assignment lists line by line

The grammar of assignment lists runs over the whole text. This module shows that it is
the same to cut the text at every line end and to look at each line by itself: the first
has to be an assignment, every other one has to be an assignment or empty.

What carries this is that no line end can stand inside an assignment (`no_lineEnd`), not
even in a quoted text. So no assignment is cut, and none spans two lines.
-/
import Mathlib.Data.List.Forall2
import Mathlib.Data.List.ReduceOption
import Stencil.Proofs.Assignment
import Stencil.Proofs.Text.Normal

namespace Stencil

open Parse

/-! ## No line end inside -/

section NoLineEnd

variable {s : List Char}

theorem Blanks.no_lineEnd (h : Blanks s) : '\n' ∉ s := fun hmem => absurd (h _ hmem) (by decide)

theorem IsName.no_lineEnd {name : String} (h : IsName name s) : '\n' ∉ s := by
  obtain ⟨x, rest, rfl, hx, hrest, -⟩ := isName_iff.mp h
  rw [List.mem_cons]
  rintro (rfl | hmem)
  · exact absurd hx (by decide)
  · exact absurd (hrest _ hmem) (by decide)

theorem Digits.no_lineEnd (h : Digits s) : '\n' ∉ s := fun hmem => absurd (h.2 _ hmem) (by decide)

theorem Numeral.no_lineEnd (h : Numeral s) : '\n' ∉ s := by
  obtain ⟨sign, whole, fraction, hsign, hwhole, hfraction, rfl⟩ := h
  have hsign' : '\n' ∉ sign := by
    rcases hsign with rfl | rfl <;> decide
  have hfraction' : '\n' ∉ fraction := by
    obtain rfl | ⟨digits, hdigits, rfl⟩ := hfraction
    · decide
    · simp [hdigits.no_lineEnd]
  simp [hsign', hwhole.no_lineEnd, hfraction']

/-- The one form that may hold almost any character holds no line end. -/
theorem IsQuoted.no_lineEnd {body : String} (h : IsQuoted body s) : '\n' ∉ s := by
  obtain ⟨-, hline, rfl⟩ := h
  simp [hline]

theorem TruthWord.no_lineEnd {b : Bool} (h : TruthWord b s) : '\n' ∉ s := h.isName.no_lineEnd

theorem Operand.Term.no_lineEnd {a : Operand} (h : a.Term s) : '\n' ∉ s := by
  cases h with
  | lookup h => exact h.no_lineEnd
  | number h => exact h.1.no_lineEnd

theorem Additive.Spelling.no_lineEnd {op : Additive} (h : op.Spelling s) : '\n' ∉ s := by
  cases h <;> decide

/-- Whatever its form, a value expression stands in one line. -/
theorem Expression.Written.no_lineEnd {e : Expression} (h : e.Written s) : '\n' ∉ s := by
  cases h with
  | truth h => exact h.no_lineEnd
  | arithmetic ha _ hw hop hw' hb =>
    simp [ha.no_lineEnd, hw.no_lineEnd, hop.no_lineEnd, hw'.no_lineEnd, hb.no_lineEnd]
  | number h => exact h.1.no_lineEnd
  | text h => exact h.no_lineEnd
  | lookup h => exact h.no_lineEnd

/-- So does an assignment, with its blanks. -/
theorem Assignment.Written.no_lineEnd {a : Assignment} (h : a.Written s) : '\n' ∉ s := by
  obtain ⟨hname, hw, hw', he, hw''⟩ := h
  simp [hname.no_lineEnd, hw.no_lineEnd, hw'.no_lineEnd, he.no_lineEnd, hw''.no_lineEnd]

end NoLineEnd

namespace Assignment

/-! ## Lines -/

/-- What a line holds: an assignment, or nothing if it is empty. -/
def InLine : Option Assignment → List Char → Prop
  | some a, line => a.Written line
  | none, line => line = []

theorem InLine.no_lineEnd {content : Option Assignment} {line : List Char}
    (h : InLine content line) : '\n' ∉ line := by
  cases content with
  | none =>
    rw [show line = [] from h]
    decide
  | some a => exact Written.no_lineEnd h

/-- Lines with assignments, and empty ones, are cut nowhere. -/
theorem no_lineEnd_of_inLine {contents : List (Option Assignment)} {lines : List (List Char)}
    (h : List.Forall₂ InLine contents lines) : ∀ line ∈ lines, '\n' ∉ line := by
  induction h with
  | nil => simp
  | cons hline _ ih => exact List.forall_mem_cons.mpr ⟨hline.no_lineEnd, ih⟩

/-- The lines behind the first are those that the grammar reads. -/
theorem lines_iff {list : List Assignment} {s : List Char} :
    Lines list s ↔ ∃ contents lines, list = contents.reduceOption ∧
      List.Forall₂ InLine contents lines ∧ s = lines.flatMap ('\n' :: ·) := by
  constructor
  · intro h
    induction h with
    | nil => exact ⟨[], [], rfl, .nil, rfl⟩
    | empty _ ih =>
      obtain ⟨contents, lines, rfl, hlines, rfl⟩ := ih
      exact ⟨none :: contents, [] :: lines, rfl, .cons rfl hlines, rfl⟩
    | @line a _ s _ ha _ ih =>
      obtain ⟨contents, lines, rfl, hlines, rfl⟩ := ih
      exact ⟨some a :: contents, s :: lines, rfl, .cons ha hlines, rfl⟩
  · rintro ⟨contents, lines, rfl, hlines, rfl⟩
    induction hlines with
    | nil => exact .nil
    | @cons content line _ _ hline _ ih =>
      cases content with
      | none =>
        rw [show line = [] from hline]
        exact .empty ih
      | some a => exact .line hline ih

/-- A list of assignments is written just if each line of the text holds its own. -/
theorem listWritten_iff_lines {list : List Assignment} {s : List Char} :
    ListWritten list s ↔ ∃ a contents, list = a :: contents.reduceOption ∧
      List.Forall₂ InLine (some a :: contents) (s.splitOn '\n') := by
  constructor
  · rintro @⟨a, list, first, t, ha, hlines⟩
    obtain ⟨contents, lines, rfl, hcontents, rfl⟩ := lines_iff.mp hlines
    refine ⟨a, contents, rfl, ?_⟩
    have hall : List.Forall₂ InLine (some a :: contents) (first :: lines) := .cons ha hcontents
    -- no line is cut once more
    rwa [← Text.intercalate_lines, List.splitOn_intercalate _ (no_lineEnd_of_inLine hall) (by simp)]
  · rintro ⟨a, contents, rfl, hall⟩
    obtain ⟨first, lines, ha, hlines, hsplit⟩ := List.forall₂_cons_left_iff.mp hall
    have hs : s = first ++ lines.flatMap ('\n' :: ·) := by
      rw [← Text.intercalate_lines, ← hsplit, List.intercalate_splitOn]
    rw [hs]
    exact .cons ha (lines_iff.mpr ⟨contents, lines, rfl, hlines, rfl⟩)

/-- The text of an assignment: an identifier, a colon, and a text that is accepted as its value,
with blanks between them and at the end. -/
theorem written_iff_accepted {a : Assignment} {line : List Char} :
    a.Written line ↔ isIdentifier a.name = true ∧ ∃ w w' v w'', Blanks w ∧ Blanks w' ∧ Blanks w'' ∧
      (∃ limits, Expression.parse (String.ofList v) limits = .ok a.value) ∧
      line = a.name.toList ++ (w ++ (':' :: (w' ++ (v ++ w'')))) := by
  constructor
  · rintro @⟨name, e, s, w, w', v, w'', hname, hw, hw', he, hw''⟩
    obtain ⟨hident, rfl⟩ := hname
    exact ⟨hident, w, w', v, w'', hw, hw', hw'', Expression.written_iff_accepted.mp he, rfl⟩
  · rintro ⟨hident, w, w', v, w'', hw, hw', hw'', he, rfl⟩
    exact .mk ⟨hident, rfl⟩ hw hw' (Expression.written_iff_accepted.mpr he) hw''

end Assignment

/-- A text within its bound is parsed as an assignment list exactly if, cut at every line end,
its first line is an assignment and each later line is an assignment or empty; the list has the
assignments of these lines in their order. A line is an assignment exactly if it is an
identifier, a colon and an accepted value expression, with blanks between them and at the
end. -/
theorem assignments_parse_line_by_line (src : String) (limits : Limits)
    (list : List Assignment) :
    (Assignment.parseAll src limits = .ok list ↔
      src.utf8ByteSize ≤ limits.maxBytes ∧ ∃ a contents, list = a :: contents.reduceOption ∧
        List.Forall₂ Assignment.InLine (some a :: contents) (src.toList.splitOn '\n')) ∧
    ∀ (a : Assignment) (line : List Char), a.Written line ↔
      isIdentifier a.name = true ∧ ∃ w w' v w'', Blanks w ∧ Blanks w' ∧ Blanks w'' ∧
        (∃ limits, Expression.parse (String.ofList v) limits = .ok a.value) ∧
        line = a.name.toList ++ (w ++ (':' :: (w' ++ (v ++ w'')))) := by
  refine ⟨?_, fun a line => Assignment.written_iff_accepted⟩
  rw [Assignment.parseAll_eq_ok_iff, Assignment.listWritten_iff_lines]

/-- Empty lines are skipped, a line of blanks is not. -/
example : (Assignment.parseAll "a: 1\n\nb: a\n" {} =
      .ok [⟨"a", .operand (.number (.int 1))⟩, ⟨"b", .operand (.lookup "a")⟩]) ∧
    ∃ f, Assignment.parseAll "a: 1\n \nb: a" {} = .error f := ⟨rfl, _, rfl⟩

end Stencil

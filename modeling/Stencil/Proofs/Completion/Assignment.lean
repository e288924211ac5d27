/-
# Stencil.Proofs.Completion.Assignment -- completing assignment lists

What an assignment misses is completed to an assignment, and what is missing behind some
lines is completed by a line more: an empty one where a line end is missing, and else a
line that holds an assignment.
-/
import Stencil.Proofs.Assignment
import Stencil.Proofs.Completion.Expression

namespace Stencil

open Parse

/-! ## Longer lists of lines -/

/-- One empty line more. -/
theorem Assignment.Lines.snoc_empty {list : List Assignment} {s : List Char}
    (h : Assignment.Lines list s) : Assignment.Lines list (s ++ ['\n']) := by
  have hlines := h.append (.empty .nil)
  rwa [List.append_nil] at hlines

/-- One assignment more. -/
theorem Assignment.Lines.snoc {list : List Assignment} {a : Assignment} {s t : List Char}
    (h : Assignment.Lines list s) (ha : a.Written t) :
    Assignment.Lines (list ++ [a]) (s ++ ('\n' :: t)) := by
  have hlines := h.append (.line ha .nil)
  rwa [List.append_nil] at hlines

namespace Parse.Parser

/-! ## Assignments and lists of them -/

theorem identifier_explains : identifier.Explains IsName where
  sound := identifier_reads.sound
  completes _ := identifier_completes.imp fun _ h => ⟨"a", h ▸ isName_a⟩

theorem assignment_explains : assignment.Explains Assignment.Written where
  sound := assignment_reads.sound
  completes c := by
    refine completes_read identifier_explains (Cursor.spans_nil c) ?_ ?_
    · intro name s hname
      have ha := Assignment.Written.mk hname blanks_nil blanks_nil expression_a blanks_nil
      exact ⟨[':', 'a'], _, ha⟩
    intro name s c₁ hs hname
    refine completes_blanks hs ?_
    intro w c₂ hs hw
    refine completes_token (by simp) hs ?_ ?_
    · have ha := Assignment.Written.mk hname hw blanks_nil expression_a blanks_nil
      refine ⟨['a'], ⟨name, .operand (.lookup "a")⟩, ?_⟩
      simp only [List.append_assoc]
      exact ha
    intro c₃ hs
    refine completes_blanks hs ?_
    intro w' c₄ hs hw'
    refine completes_bind ?_ fun _ _ _ => completes_return silent_blanks.completes
    refine (expression_explains.completes c₄).behind hs ?_
    rintro t ⟨e, he⟩
    refine ⟨⟨name, e⟩, ?_⟩
    have ha := Assignment.Written.mk hname hw hw' he blanks_nil
    simpa using ha

/-- Behind the first assignment and some lines, one line more is missing or completed. -/
theorem assignments_explains : assignments.Explains Assignment.ListWritten where
  sound := assignments_reads.sound
  completes c := by
    refine completes_read assignment_explains (Cursor.spans_nil c) ?_ ?_
    · intro a s ha
      have hlist := Assignment.ListWritten.cons ha .nil
      exact ⟨[], [a], hlist⟩
    intro a s c₁ hs ha
    refine completes_return (completes_many ?_)
    intro lines c₂ hr
    obtain ⟨t, ht, hlines⟩ := lines_of_reached hr
    refine completes_token (by simp) (hs.trans ht) ?_ ?_
    · have hlist := Assignment.ListWritten.cons ha hlines.snoc_empty
      refine ⟨[], a :: lines.filterMap id, ?_⟩
      rw [List.append_assoc, List.append_nil]
      exact hlist
    intro c₃ hs
    refine completes_orElse (completes_map ?_) fun _ => (silent_pure _).completes
    refine (assignment_explains.completes c₃).behind hs ?_
    rintro u ⟨b, hb⟩
    have hlist := Assignment.ListWritten.cons ha (hlines.snoc hb)
    refine ⟨a :: (lines.filterMap id ++ [b]), ?_⟩
    simpa using hlist

end Parse.Parser

end Stencil

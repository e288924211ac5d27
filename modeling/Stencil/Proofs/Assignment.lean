/-
# Stencil.Proofs.Assignment -- the grammar of assignment lists, and how it is read

    assignments := assignment line*
    line        := line-end  |  line-end assignment
    assignment  := identifier blanks ':' blanks expression blanks

The grammar gives each line to an assignment or leaves it empty. The reader takes an
assignment wherever one can be read; an empty line stays empty because no assignment
begins with a line end, and every other line because nothing but a line end or the end
of the text may follow an assignment.
-/
import Stencil.Assignment.Parser
import Stencil.Proofs.Expression.Value

namespace Stencil

open Parse

/-! ## The grammar -/

/-- The texts of assignments. -/
inductive Assignment.Written : Assignment → List Char → Prop
  | mk {name : String} {value : Expression} {s w w' t w'' : List Char} :
      IsName name s → Blanks w → Blanks w' → value.Written t → Blanks w'' →
      Written ⟨name, value⟩ (s ++ (w ++ (':' :: (w' ++ (t ++ w'')))))

/-- The texts of lines, each behind its line end. -/
inductive Assignment.Lines : List Assignment → List Char → Prop
  | nil : Lines [] []
  | empty {list : List Assignment} {s : List Char} : Lines list s → Lines list ('\n' :: s)
  | line {a : Assignment} {list : List Assignment} {s t : List Char} :
      a.Written s → Lines list t → Lines (a :: list) ('\n' :: (s ++ t))

/-- The texts of assignment lists. -/
inductive Assignment.ListWritten : List Assignment → List Char → Prop
  | cons {a : Assignment} {list : List Assignment} {s t : List Char} :
      a.Written s → Lines list t → ListWritten (a :: list) (s ++ t)

/-- Lines and further lines. -/
theorem Assignment.Lines.append {list list' : List Assignment} {s t : List Char}
    (h : Assignment.Lines list s) (h' : Assignment.Lines list' t) :
    Assignment.Lines (list ++ list') (s ++ t) := by
  induction h with
  | nil => exact h'
  | empty _ ih => exact .empty ih
  | line ha _ ih =>
    rw [List.cons_append, List.cons_append, List.append_assoc]
    exact .line ha ih

/-- The text or the line ends here. -/
def LineEnds (rest : List Char) : Prop := ∀ x ∈ rest.head?, x = '\n'

/-- Where a line ends, no other kind of character stands. -/
theorem LineEnds.clear {rest : List Char} (h : LineEnds rest) {p : Char → Bool}
    (hp : p '\n' = false) : Clear p rest := by
  intro x hx
  rw [h x hx]
  exact hp

theorem LineEnds.before {rest : List Char} (h : LineEnds rest) :
    Before Parser.expressionStops rest := by
  cases rest with
  | nil => exact before_nil _
  | cons x rest =>
    obtain rfl := h x rfl
    exact before_cons (by decide) rfl

/-- Lines begin with a line end, if there are any. -/
theorem Assignment.Lines.lineEnds {list : List Assignment} {s : List Char}
    (h : Assignment.Lines list s) : LineEnds s := by
  cases h with
  | nil => simp [LineEnds]
  | empty => simp [LineEnds]
  | line => simp [LineEnds]

namespace Parse.Parser

variable {c next : Cursor}

/-! ## Assignments -/

/-- Assignments are read where a line ends behind them. -/
theorem assignment_reads : assignment.Reads Assignment.Written LineEnds where
  sound h := by
    simp only [assignment, bind_matched_iff, pure_matched_iff, blanks_matched_iff,
      token_matched_iff] at h
    obtain ⟨name, c₁, hname, -, c₂, ⟨w, hs₂, hw, -⟩, -, c₃, hs₃, -, c₄, ⟨w', hs₄, hw', -⟩,
      e, c₅, he, -, c₆, ⟨w'', hs₆, hw'', -⟩, rfl, rfl⟩ := h
    obtain ⟨s, hs₁, hname⟩ := identifier_reads.sound hname
    obtain ⟨t, hs₅, he⟩ := expression_reads.sound he
    have ha := Assignment.Written.mk hname hw hw' he hw''
    exact ⟨_, hs₁.trans (hs₂.trans (hs₃.trans (hs₄.trans (hs₅.trans hs₆)))), ha⟩
  complete {c a next s} hs ha hf := by
    obtain @⟨name, e, s, w, w', t, w'', hname, hw, hw', he, hw''⟩ := ha
    obtain ⟨c₁, hs₁, hs⟩ := hs.split
    obtain ⟨c₂, hs₂, hs⟩ := hs.split
    obtain ⟨c₃, hs₃, hs⟩ := Cursor.Spans.split (s := [':']) hs
    obtain ⟨c₄, hs₄, hs⟩ := hs.split
    obtain ⟨c₅, hs₅, hs₆⟩ := hs.split
    -- what stands behind each part lets it be read up to its end
    have h₁ : Clear isNameRest c₁.rest := by
      rw [hs₂.1, hs₃.1]
      exact hw.clear_append (fun x hx => (Bool.or_eq_false_iff.mp (operandRest_of_blank hx)).1)
        (clear_cons.mpr rfl)
    have h₂ : Clear Text.isBlank c₂.rest := by
      rw [hs₃.1]
      exact clear_cons.mpr rfl
    have h₄ : Clear Text.isBlank c₄.rest := by
      rw [hs₅.1]
      exact (he.leads.append _).clear fun x => operandStart_not_blank
    have h₅ : Before expressionStops c₅.rest := by
      rw [hs₆.1]
      exact hw''.before_append hf.before
    rw [assignment, bind_of_matched (identifier_reads.complete hs₁ hname h₁),
      bind_of_matched (blanks_complete hs₂ hw h₂),
      bind_of_matched (token_complete hs₃),
      bind_of_matched (blanks_complete hs₄ hw' h₄),
      bind_of_matched (expression_reads.complete hs₅ he h₅),
      bind_of_matched (blanks_complete hs₆ hw'' (hf.clear rfl)), outcome_pure]

theorem assignment_failed (h : Clear isNameStart c.rest) : assignment.outcome c = .failed :=
  bind_failed (identifier_failed h)

/-! ## Lines -/

/-- A line is read as an assignment wherever one can be, and as empty otherwise. -/
theorem nextLine_matched_iff {line : Option Assignment} :
    nextLine.outcome c = .matched line next ↔ ∃ mid, c.Spans ['\n'] mid ∧
      ((∃ a, assignment.outcome mid = .matched a next ∧ line = some a) ∨
        assignment.outcome mid = .failed ∧ next = mid ∧ line = none) := by
  simp only [nextLine, optional, bind_matched_iff, token_matched_iff, orElse_matched_iff,
    map_matched_iff, map_failed_iff, pure_matched_iff]
  constructor
  · rintro ⟨-, mid, hs, ⟨a, ha, rfl⟩ | ⟨hfail, rfl, rfl⟩⟩
    · exact ⟨mid, hs, .inl ⟨a, ha, rfl⟩⟩
    · exact ⟨_, hs, .inr ⟨hfail, rfl, rfl⟩⟩
  · rintro ⟨mid, hs, ⟨a, ha, rfl⟩ | ⟨hfail, rfl, rfl⟩⟩
    · exact ⟨(), mid, hs, .inl ⟨a, ha, rfl⟩⟩
    · exact ⟨(), _, hs, .inr ⟨hfail, rfl, rfl⟩⟩

theorem nextLine_advances : nextLine.Advances := by
  apply advances_of_outcome
  intro c line next h
  obtain ⟨mid, hs, ⟨a, ha, -⟩ | ⟨-, rfl, -⟩⟩ := nextLine_matched_iff.mp h
  · obtain ⟨s, hs', -⟩ := assignment_reads.sound ha
    have hlen := (hs.trans hs').length
    simp only [List.length_append, List.length_singleton] at hlen
    omega
  · have hlen := hs.length
    simp only [List.length_singleton] at hlen
    omega

/-- The lines that were read are lines of the grammar, the empty ones left out of the list. -/
theorem lines_of_reached {lines : List (Option Assignment)} (h : Reached nextLine lines c next) :
    ∃ s, c.Spans s next ∧ Assignment.Lines (lines.filterMap id) s := by
  induction h with
  | start c => exact ⟨[], Cursor.spans_nil c, .nil⟩
  | step hline _ ih =>
    obtain ⟨t, ht, hlines⟩ := ih
    obtain ⟨mid, hs, ⟨a, ha, rfl⟩ | ⟨-, rfl, rfl⟩⟩ := nextLine_matched_iff.mp hline
    · obtain ⟨s, hs', ha⟩ := assignment_reads.sound ha
      have hline := Assignment.Lines.line ha hlines
      exact ⟨_, hs.trans (hs'.trans ht), hline⟩
    · exact ⟨_, hs.trans ht, .empty hlines⟩

/-- Lines of the grammar are read one by one. An empty one is not taken for more, as a line end or
the end of the text follows it. -/
theorem reached_of_lines {list : List Assignment} {s : List Char} (h : Assignment.Lines list s)
    (hs : c.Spans s next) (hf : LineEnds next.rest) :
    ∃ lines, Reached nextLine lines c next ∧ lines.filterMap id = list := by
  -- every line but the last ends where the next one begins
  have hends : ∀ {t : List Char} {list : List Assignment} {mid : Cursor}, mid.Spans t next →
      Assignment.Lines list t → LineEnds mid.rest := by
    intro t list mid ht hlines
    rw [ht.1]
    cases t with
    | nil => exact hf
    | cons x t => exact fun y hy => hlines.lineEnds y hy
  induction h generalizing c with
  | nil =>
    rw [Cursor.spans_nil_iff.mp hs]
    exact ⟨[], .start _, rfl⟩
  | empty hlines ih =>
    obtain ⟨mid, hs, ht⟩ := Cursor.Spans.split (s := ['\n']) hs
    obtain ⟨lines, hr, rfl⟩ := ih ht
    have hfail := assignment_failed ((hends ht hlines).clear rfl)
    exact ⟨none :: lines, .step (nextLine_matched_iff.mpr ⟨mid, hs, .inr ⟨hfail, rfl, rfl⟩⟩) hr,
      rfl⟩
  | @line a list s t ha hlines ih =>
    obtain ⟨mid, hs, hs'⟩ := Cursor.Spans.split (s := ['\n']) hs
    obtain ⟨mid', hs', ht⟩ := hs'.split
    obtain ⟨lines, hr, rfl⟩ := ih ht
    have hm := assignment_reads.complete hs' ha (hends ht hlines)
    exact ⟨some a :: lines, .step (nextLine_matched_iff.mpr ⟨mid, hs, .inl ⟨a, hm, rfl⟩⟩) hr, rfl⟩

/-- Assignment lists are read where they are the whole of the text. -/
theorem assignments_reads : assignments.Reads Assignment.ListWritten (· = []) where
  sound h := by
    simp only [assignments, bind_matched_iff, pure_matched_iff,
      many_matched_iff nextLine_advances] at h
    obtain ⟨a, mid, ha, lines, last, ⟨hlines, -⟩, rfl, rfl⟩ := h
    obtain ⟨s, hs, ha⟩ := assignment_reads.sound ha
    obtain ⟨t, ht, hlines⟩ := lines_of_reached hlines
    exact ⟨s ++ t, hs.trans ht, .cons ha hlines⟩
  complete {c list next s} hs hlist hf := by
    obtain ⟨ha, hlines⟩ := hlist
    obtain ⟨mid, hs, ht⟩ := hs.split
    have hends : LineEnds mid.rest := by
      rw [ht.1, hf, List.append_nil]
      exact hlines.lineEnds
    obtain ⟨lines, hr, rfl⟩ := reached_of_lines hlines ht (by simp [LineEnds, hf])
    have hstop : nextLine.outcome next = .failed := by
      refine bind_failed (token_failed ?_)
      simp [hf]
    rw [assignments, bind_of_matched (assignment_reads.complete hs ha hends),
      bind_of_matched (many_of_reached nextLine_advances hr hstop), outcome_pure]

end Parse.Parser

/-- A text is parsed as an assignment list exactly if it is within its bound and writes it. -/
theorem Assignment.parseAll_eq_ok_iff {src : String} {limits : Limits} {list : List Assignment} :
    Assignment.parseAll src limits = .ok list ↔
      src.utf8ByteSize ≤ limits.maxBytes ∧ Assignment.ListWritten list src.toList := by
  rw [Assignment.parseAll, Parse.parse_eq_ok_iff, Parser.assignments_reads.whole_eq_ok_iff rfl]

end Stencil

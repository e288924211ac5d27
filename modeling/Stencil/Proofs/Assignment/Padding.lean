/-
# Stencil.Proofs.Assignment.Padding -- assignment lists without their padding

An assignment may have blanks at its end, so an assignment list may have padding at the end of
every line, and at its own end empty lines besides. It can have none where a line begins: a name
stands there. Padding that is taken away therefore leaves the list as it is.

This is seen line by line, since an assignment list can be divided at every line end
(`ListWritten.split`).
-/
import Stencil.Proofs.Assignment.Joining
import Stencil.Proofs.Expression.Places
import Stencil.Proofs.Text.Padding

namespace Stencil

variable {s t u v : List Char} {x : Char}

/-- A line end stands behind a text without one. -/
theorem exists_of_append_lineEnd (hu : '\n' ∉ u) (h : u ++ v = s ++ '\n' :: t) :
    ∃ c, s = u ++ c ∧ v = c ++ '\n' :: t := by
  obtain hbehind | ⟨c, rfl, -⟩ := Text.append_eq_append_cons h
  · exact hbehind
  · simp at hu

namespace Assignment

variable {list : List Assignment} {a : Assignment}

/-! ## Dividing lists -/

theorem lines_nil_iff : Lines list [] ↔ list = [] := by
  constructor
  · rintro ⟨⟩
    rfl
  · rintro rfl
    exact .nil

/-- What stands behind a line end is empty up to the next line end, or a list by itself. -/
theorem Lines.of_cons (h : Lines list ('\n' :: s)) : Lines list s ∨ ListWritten list s := by
  cases h with
  | empty h => exact .inl h
  | line ha h => exact .inr (.cons ha h)

/-- A last line that is not empty is an assignment. -/
theorem Lines.listWritten (h : Lines list ('\n' :: s)) (hne : s ≠ []) (hno : '\n' ∉ s) :
    ListWritten list s := by
  obtain hlines | hlist := h.of_cons
  · obtain ⟨y, rest, rfl⟩ := List.exists_cons_of_ne_nil hne
    obtain rfl : y = '\n' := hlines.lineEnds y rfl
    simp at hno
  · exact hlist

theorem Lines.split (h : Lines list (s ++ '\n' :: t)) :
    ∃ before after, list = before ++ after ∧ Lines before s ∧ Lines after ('\n' :: t) := by
  generalize htext : s ++ '\n' :: t = text at h
  induction h generalizing s with
  | nil => simp at htext
  | @empty list rest hrest ih =>
    cases s with
    | nil =>
      rw [← List.nil_append ('\n' :: t), htext]
      exact ⟨[], list, rfl, .nil, .empty hrest⟩
    | cons y s =>
      obtain ⟨rfl, hrest'⟩ := List.cons.inj htext
      obtain ⟨before, after, rfl, hbefore, hafter⟩ := ih hrest'
      exact ⟨before, after, rfl, .empty hbefore, hafter⟩
  | @line a list line rest ha hrest ih =>
    cases s with
    | nil =>
      rw [← List.nil_append ('\n' :: t), htext]
      exact ⟨[], a :: list, rfl, .nil, .line ha hrest⟩
    | cons y s =>
      obtain ⟨rfl, htext'⟩ := List.cons.inj htext
      obtain ⟨c, rfl, hc⟩ := exists_of_append_lineEnd ha.no_lineEnd htext'.symm
      obtain ⟨before, after, rfl, hbefore, hafter⟩ := ih hc.symm
      exact ⟨a :: before, after, rfl, .line ha hbefore, hafter⟩

theorem ListWritten.split (h : ListWritten list (s ++ '\n' :: t)) :
    ∃ before after, list = before ++ after ∧ ListWritten before s ∧ Lines after ('\n' :: t) := by
  generalize htext : s ++ '\n' :: t = text at h
  obtain @⟨a, list, line, rest, ha, hlines⟩ := h
  obtain ⟨c, rfl, rfl⟩ := exists_of_append_lineEnd ha.no_lineEnd htext.symm
  obtain ⟨before, after, rfl, hbefore, hafter⟩ := hlines.split
  exact ⟨a :: before, after, rfl, .cons ha hbefore, hafter⟩

/-! ## Padding at the end -/

theorem Written.leads (h : a.Written s) : Leads (!Text.isMargin ·) s := by
  obtain ⟨hname, -⟩ := h
  exact hname.leadsInk.append _

/-- Behind its expression, an assignment has nothing but blanks. -/
theorem Written.of_append_margin (h : a.Written (s ++ [x])) (hx : Text.isMargin x = true) :
    a.Written s := by
  generalize htext : s ++ [x] = text at h
  obtain @⟨name, e, n, w, w', t, w'', hname, hw, hw', he, hw''⟩ := h
  obtain rfl | ⟨w'', y, rfl⟩ := List.eq_nil_or_concat w''
  · -- the expression would end in a character of the margin
    have hends : EndsInk (n ++ (w ++ (':' :: (w' ++ t)))) :=
      (((he.endsInk.append_left w').append_left [':']).append_left w).append_left n
    rw [← List.append_nil t, ← htext] at hends
    have hink := hends.clear
    rw [List.reverse_append] at hink
    exact absurd hx (Bool.eq_false_iff.mp (clear_cons.mp hink))
  · have hsame : s ++ [x] = (n ++ (w ++ (':' :: (w' ++ (t ++ w''))))) ++ [y] := by
      simpa using htext
    obtain ⟨rfl, -⟩ := List.append_inj' hsame rfl
    exact .mk hname hw hw' he fun z hz => hw'' z (by simp [hz])

/-- At the end of a list of one line, a blank can be left out. -/
theorem ListWritten.of_append_margin_line (h : ListWritten list (s ++ [x]))
    (hx : Text.isMargin x = true) (hno : '\n' ∉ s ++ [x]) : ListWritten list s := by
  obtain ⟨a, rfl, ha⟩ := (listWritten_iff_of_no_lineEnd hno).mp h
  have hs : '\n' ∉ s := fun hmem => hno (List.mem_append_left [x] hmem)
  exact (listWritten_iff_of_no_lineEnd hs).mpr ⟨a, rfl, ha.of_append_margin hx⟩

/-- At the end of a list, a line end or a blank can be left out. -/
theorem ListWritten.of_append_margin (h : ListWritten list (s ++ [x]))
    (hx : Text.isMargin x = true) : ListWritten list s := by
  by_cases hline : x = '\n'
  · subst hline
    obtain ⟨before, after, rfl, hbefore, hafter⟩ := h.split
    obtain hnil | hlist := hafter.of_cons
    · rw [lines_nil_iff.mp hnil, List.append_nil]
      exact hbefore
    · exact absurd rfl hlist.ne_nil
  obtain hno | ⟨t, line, hno, rfl⟩ := Text.exists_lastLine s
  · exact h.of_append_margin_line hx (by simp [hno, Ne.symm hline])
  · rw [List.append_assoc, List.cons_append] at h
    obtain ⟨before, after, rfl, hbefore, hafter⟩ := h.split
    have hno' : '\n' ∉ line ++ [x] := by simp [hno, Ne.symm hline]
    have hlast := (hafter.listWritten (by simp) hno').of_append_margin_line hx hno'
    exact hbefore.append_lines hlast.lines

/-! ## Padding anywhere -/

theorem ListWritten.leads (h : ListWritten list s) : Leads (!Text.isMargin ·) s := by
  obtain ⟨ha, -⟩ := h
  exact ha.leads.append _

/-- A list from which padding is taken away is the same list. -/
theorem ListWritten.of_padded (hpadded : Text.Padded s t) (h : ListWritten list t) :
    ListWritten list s := by
  cases hpadded with
  | @front m _ hm =>
    have hink := clear_cons.mp (Text.clear_isMargin h.leads)
    rw [Text.isMargin_iff.mpr hm] at hink
    cases hink
  | back _ hm => exact h.of_append_margin (Text.isMargin_iff.mpr hm)
  | @lineEnd b u v hb =>
    rw [List.append_cons] at h
    obtain ⟨before, after, rfl, hbefore, hafter⟩ := h.split
    have hmargin := Text.isMargin_of_isBlank (Text.isBlank_iff.mpr hb)
    exact (hbefore.of_append_margin hmargin).append_lines hafter
  | @lineStart b u v hb =>
    have hblank := Text.isBlank_iff.mpr hb
    obtain ⟨before, after, rfl, -, hafter⟩ := h.split
    -- a line begins with its line end or with a name
    obtain hlines | hlist := hafter.of_cons
    · exact absurd (hlines.lineEnds b rfl) (Text.ne_lineEnd_of_isBlank hblank)
    · have hink := clear_cons.mp (Text.clear_isMargin hlist.leads)
      rw [Text.isMargin_of_isBlank hblank] at hink
      cases hink

theorem ListWritten.normalChars (h : ListWritten list s) :
    ListWritten list (Text.normalChars s) :=
  Text.of_padded (P := ListWritten list) (fun _ _ => ListWritten.of_padded) h

end Assignment

end Stencil

/-
# Stencil.Proofs.Text.Padding -- the normal form is what is left without padding

Padding is what may be added to a text without a change of its normal form: a character of the
margin at an end of the text, and a blank at an end of a line. `Padded` adds one such character.

Two facts make the normal form canonical. Adding padding does not change it
(`Padded.normalChars_eq`), although what is blank inside the text may be margin at its end, where
more is cut. And every text is its own normal form with padding added, one character after
another (`padded_normalChars`): where nothing can be taken away, the text is in normal form. So
texts have one normal form just if each can be made from the other by adding and removing padding
(`normalChars_eq_iff`).
-/
import Mathlib.Data.List.Forall2
import Mathlib.Logic.Relation
import Stencil.Proofs.Text.Normal

namespace Stencil.Text

variable {p : Char → Bool} {x b m : Char} {r s t w : List Char}

/-! ## Padding -/

/-- The second text is the first with one more character, at a place where it is cut: a character
of the margin at an end of the text, or a blank at an end of a line. -/
inductive Padded : List Char → List Char → Prop
  | front {m : Char} (s : List Char) :
      m ∈ [' ', '\t', '\n', '\x0c', '\r', '\x00'] → Padded s (m :: s)
  | back {m : Char} (s : List Char) :
      m ∈ [' ', '\t', '\n', '\x0c', '\r', '\x00'] → Padded s (s ++ [m])
  | lineEnd {b : Char} (s t : List Char) :
      b ∈ [' ', '\t'] → Padded (s ++ '\n' :: t) (s ++ b :: '\n' :: t)
  | lineStart {b : Char} (s t : List Char) :
      b ∈ [' ', '\t'] → Padded (s ++ '\n' :: t) (s ++ '\n' :: b :: t)

/-- Each text is made from the other by adding and removing padding. -/
def SamePadding : List Char → List Char → Prop := Relation.EqvGen Padded

theorem isBlank_iff : isBlank x = true ↔ x ∈ [' ', '\t'] := by
  simp [isBlank]

theorem isMargin_iff : isMargin x = true ↔ x ∈ [' ', '\t', '\n', '\x0c', '\r', '\x00'] := by
  simp [isMargin, isBlank, or_assoc]

theorem Padded.length_lt (h : Padded r s) : r.length < s.length := by
  cases h <;> simp

/-- A character of two texts put together stands in the first or in the second. -/
theorem append_eq_append_cons (h : s ++ t = r ++ x :: w) :
    (∃ c, r = s ++ c ∧ t = c ++ x :: w) ∨ ∃ c, s = r ++ x :: c ∧ w = c ++ t := by
  obtain ⟨c, hr, ht⟩ | ⟨c, hs, hw⟩ := List.append_eq_append_iff.mp h
  · exact .inl ⟨c, hr, ht⟩
  · cases c with
    | nil => exact .inl ⟨[], by simpa using hs.symm, hw.symm⟩
    | cons y c =>
      obtain ⟨rfl, rfl⟩ := List.cons.inj hw
      exact .inr ⟨c, hs, rfl⟩

/-! ## Trimming -/

/-- The second text is what is left of the first when all that satisfies `p` is cut from its two
ends. -/
structure Cut (p : Char → Bool) (s core : List Char) : Prop where
  exists_ends : ∃ w w', (∀ x ∈ w, p x = true) ∧ (∀ x ∈ w', p x = true) ∧ s = w ++ (core ++ w')
  trimmed : Trimmed p core

theorem cut_trim (p : Char → Bool) (s : List Char) : Cut p s (trim p s) := by
  have hback : trim p s ++ ((s.dropWhile p).reverse.takeWhile p).reverse = s.dropWhile p := by
    rw [trim, ← List.reverse_append, List.takeWhile_append_dropWhile, List.reverse_reverse]
  refine ⟨⟨s.takeWhile p, ((s.dropWhile p).reverse.takeWhile p).reverse, all_takeWhile _ _, ?_,
    ?_⟩, ?_, ?_⟩
  · exact fun x hx => all_takeWhile _ _ x (List.mem_reverse.mp hx)
  · rw [hback, List.takeWhile_append_dropWhile]
  · -- what is left begins as the text does behind the first cut
    have hclear := clear_dropWhile p s
    rw [← hback] at hclear
    cases htrim : trim p s with
    | nil => exact clear_nil
    | cons x rest =>
      rw [htrim] at hclear
      exact clear_cons.mpr (clear_cons.mp hclear)
  · rw [trim, List.reverse_reverse]
    exact clear_dropWhile _ _

theorem trim_append_left (hw : ∀ x ∈ w, p x = true) : trim p (w ++ s) = trim p s := by
  rw [trim, trim, List.dropWhile_append_of_pos hw]

theorem trim_append_right (hw : ∀ x ∈ w, p x = true) : trim p (s ++ w) = trim p s := by
  obtain ⟨⟨v, v', hv, hv', hs⟩, htrimmed⟩ := cut_trim p s
  have hcut : ∀ x ∈ v' ++ w, p x = true := fun x hx =>
    (List.mem_append.mp hx).elim (hv' x) (hw x)
  rw [← trim_append hv hcut htrimmed]
  conv_lhs => rw [hs]
  simp only [List.append_assoc]

/-- What stands between two texts of which something is left stays, whatever it is. -/
theorem trim_between (hs : ∃ x ∈ s, p x = false) (ht : ∃ x ∈ t, p x = false) (w : List Char) :
    trim p (s ++ (w ++ t)) = s.dropWhile p ++ (w ++ (t.reverse.dropWhile p).reverse) := by
  have hleft : ∀ {u : List Char}, (∃ x ∈ u, p x = false) → ∀ v,
      (u ++ v).dropWhile p = u.dropWhile p ++ v := by
    rintro u ⟨x, hx, hpx⟩ v
    have hne : ¬ (u.dropWhile p).isEmpty = true := by
      rw [List.isEmpty_iff, List.dropWhile_eq_nil_iff]
      intro hall
      rw [hall x hx] at hpx
      cases hpx
    rw [List.dropWhile_append, if_neg hne]
  have ht' : ∃ x ∈ t.reverse, p x = false := by simpa using ht
  rw [trim, hleft hs, List.reverse_append, List.reverse_append, List.append_assoc, hleft ht']
  simp

/-! ## Lines -/

theorem length_splitOn (s : List Char) : (s.splitOn '\n').length = s.count '\n' + 1 := by
  induction s with
  | nil => simp
  | cons x s ih =>
    rw [List.splitOn_cons_eq_if_modifyHead, List.count_cons]
    by_cases hx : (x == '\n') = true
    · rw [if_pos hx, if_pos hx, List.length_cons, ih]
    · rw [if_neg hx, if_neg hx, List.length_modifyHead, ih, Nat.add_zero]

/-- Line by line, blanks are cut; no line is lost, and none comes in. -/
theorem forall₂_trimLines (s : List Char) :
    List.Forall₂ (Cut isBlank) (s.splitOn '\n') ((trimLines s).splitOn '\n') := by
  rw [splitOn_trimLines, List.forall₂_map_right_iff, List.forall₂_same]
  exact fun line _ => cut_trim isBlank line

theorem count_trimLines (s : List Char) : (trimLines s).count '\n' = s.count '\n' := by
  have h := (forall₂_trimLines s).length_eq
  rw [length_splitOn, length_splitOn] at h
  omega

theorem trimLines_append_lineEnd (s t : List Char) :
    trimLines (s ++ '\n' :: t) = trimLines s ++ '\n' :: trimLines t := by
  obtain ⟨first, lines, hs⟩ := List.exists_cons_of_ne_nil (List.splitOn_ne_nil '\n' s)
  obtain ⟨first', lines', ht⟩ := List.exists_cons_of_ne_nil (List.splitOn_ne_nil '\n' t)
  simp only [trimLines, List.splitOn_append_cons_self, hs, ht, List.map_append, List.map_cons,
    List.cons_append, intercalate_lines, List.flatMap_append, List.flatMap_cons,
    List.append_assoc]

theorem trimLines_of_no_lineEnd (h : '\n' ∉ s) : trimLines s = trim isBlank s := by
  rw [trimLines, List.splitOn_eq_singleton h]
  simp

theorem ne_lineEnd_of_isBlank (hb : isBlank b = true) : b ≠ '\n' := by
  rintro rfl
  rw [isBlank_lineEnd] at hb
  cases hb

/-- A text begins with a line that may be all of it. -/
theorem exists_firstLine (s : List Char) :
    '\n' ∉ s ∨ ∃ line t, '\n' ∉ line ∧ s = line ++ '\n' :: t := by
  by_cases h : '\n' ∈ s
  · obtain ⟨line, t, rfl, hline⟩ := List.eq_append_cons_of_mem h
    exact .inr ⟨line, t, hline, rfl⟩
  · exact .inl h

/-- A text ends with a line that may be all of it. -/
theorem exists_lastLine (s : List Char) :
    '\n' ∉ s ∨ ∃ t line, '\n' ∉ line ∧ s = t ++ '\n' :: line := by
  obtain h | ⟨line, t, hline, hs⟩ := exists_firstLine s.reverse
  · exact .inl (by simpa using h)
  · refine .inr ⟨t.reverse, line.reverse, by simpa using hline, ?_⟩
    rw [List.reverse_eq_iff] at hs
    simpa using hs

theorem trimLines_cons_blank (hb : isBlank b = true) (s : List Char) :
    trimLines (b :: s) = trimLines s := by
  have hcut : ∀ line, '\n' ∉ line → trimLines (b :: line) = trimLines line := by
    intro line hline
    have hline' : '\n' ∉ [b] ++ line := by simp [(ne_lineEnd_of_isBlank hb).symm, hline]
    rw [← List.singleton_append, trimLines_of_no_lineEnd hline, trimLines_of_no_lineEnd hline',
      trim_append_left (List.forall_mem_singleton.mpr hb)]
  obtain h | ⟨line, t, hline, rfl⟩ := exists_firstLine s
  · exact hcut s h
  · rw [← List.cons_append, trimLines_append_lineEnd, trimLines_append_lineEnd, hcut line hline]

theorem trimLines_append_blank (hb : isBlank b = true) (s : List Char) :
    trimLines (s ++ [b]) = trimLines s := by
  have hcut : ∀ line, '\n' ∉ line → trimLines (line ++ [b]) = trimLines line := by
    intro line hline
    have hline' : '\n' ∉ line ++ [b] := by simp [(ne_lineEnd_of_isBlank hb).symm, hline]
    rw [trimLines_of_no_lineEnd hline, trimLines_of_no_lineEnd hline',
      trim_append_right (List.forall_mem_singleton.mpr hb)]
  obtain h | ⟨t, line, hline, rfl⟩ := exists_lastLine s
  · exact hcut s h
  · rw [List.append_assoc, List.cons_append, trimLines_append_lineEnd, trimLines_append_lineEnd,
      hcut line hline]

/-! ## Padding does not change the normal form -/

/-- Between two texts, margin matters only as far as it matters for the lines. -/
theorem normalChars_between {w w' : List Char} (hw : ∀ x ∈ w, isMargin x = true)
    (hw' : ∀ x ∈ w', isMargin x = true)
    (h : ∀ s t, trimLines (s ++ (w ++ t)) = trimLines (s ++ (w' ++ t))) (s t : List Char) :
    normalChars (s ++ (w ++ t)) = normalChars (s ++ (w' ++ t)) := by
  rw [normalChars_eq, normalChars_eq]
  by_cases hs : ∀ x ∈ s, isMargin x = true
  · -- all that stands in front of `t` is cut
    rw [trim_append_left hs, trim_append_left hs, trim_append_left hw, trim_append_left hw']
  by_cases ht : ∀ x ∈ t, isMargin x = true
  · rw [← List.append_assoc, ← List.append_assoc, trim_append_right ht, trim_append_right ht,
      trim_append_right hw, trim_append_right hw']
  simp only [not_forall, Bool.not_eq_true, exists_prop] at hs ht
  rw [trim_between hs ht, trim_between hs ht, h]

theorem Padded.normalChars_eq (h : Padded r s) : normalChars s = normalChars r := by
  have hline : ∀ x ∈ ['\n'], isMargin x = true := List.forall_mem_singleton.mpr rfl
  cases h with
  | @front m _ hm =>
    have hmargin : ∀ x ∈ [m], isMargin x = true :=
      List.forall_mem_singleton.mpr (isMargin_iff.mpr hm)
    show trimLines (trim isMargin ([m] ++ r)) = _
    rw [trim_append_left hmargin]
    rfl
  | @back m _ hm =>
    have hmargin : ∀ x ∈ [m], isMargin x = true :=
      List.forall_mem_singleton.mpr (isMargin_iff.mpr hm)
    show trimLines (trim isMargin (r ++ [m])) = _
    rw [trim_append_right hmargin]
    rfl
  | @lineEnd b s t hb =>
    have hblank := isBlank_iff.mpr hb
    have hboth : ∀ x ∈ [b, '\n'], isMargin x = true :=
      List.forall_mem_cons.mpr ⟨isMargin_of_isBlank hblank, hline⟩
    refine normalChars_between hboth hline ?_ s t
    intro s t
    show trimLines (s ++ b :: '\n' :: t) = trimLines (s ++ '\n' :: t)
    rw [List.append_cons, trimLines_append_lineEnd, trimLines_append_lineEnd,
      trimLines_append_blank hblank]
  | @lineStart b s t hb =>
    have hblank := isBlank_iff.mpr hb
    have hboth : ∀ x ∈ ['\n', b], isMargin x = true :=
      List.forall_mem_cons.mpr ⟨rfl, List.forall_mem_singleton.mpr (isMargin_of_isBlank hblank)⟩
    refine normalChars_between hboth hline ?_ s t
    intro s t
    show trimLines (s ++ '\n' :: b :: t) = trimLines (s ++ '\n' :: t)
    rw [trimLines_append_lineEnd, trimLines_append_lineEnd, trimLines_cons_blank hblank]

/-! ## Every text is its normal form with padding -/

/-- A text from which no padding can be taken away is in normal form. -/
theorem isNormal_of_not_padded (h : ∀ r, ¬ Padded r s) : IsNormal s := by
  refine ⟨⟨?_, ?_⟩, ?_⟩
  · intro x hx
    rw [← Bool.not_eq_true, isMargin_iff]
    intro hmargin
    obtain ⟨rest, rfl⟩ := List.head?_eq_some_iff.mp hx
    exact h rest (.front rest hmargin)
  · intro x hx
    rw [← Bool.not_eq_true, isMargin_iff]
    intro hmargin
    rw [List.head?_reverse] at hx
    obtain ⟨rest, rfl⟩ := List.getLast?_eq_some_iff.mp hx
    exact h rest (.back rest hmargin)
  · rw [Tight, List.isChain_iff_forall_rel_of_append_cons_cons]
    rintro x y u v rfl
    constructor
    · rintro ⟨rfl, hy⟩
      exact h _ (.lineStart u v (isBlank_iff.mp hy))
    · rintro ⟨hx, rfl⟩
      exact h _ (.lineEnd u v (isBlank_iff.mp hx))

/-- A text can be made from its normal form by adding padding. -/
theorem padded_normalChars (s : List Char) :
    Relation.ReflTransGen Padded (normalChars s) s := by
  induction hn : s.length using Nat.strongRecOn generalizing s with
  | ind n ih =>
    by_cases hpadded : ∃ r, Padded r s
    · obtain ⟨r, hr⟩ := hpadded
      rw [hr.normalChars_eq]
      exact (ih r.length (hn ▸ hr.length_lt) r rfl).tail hr
    · have hnormal := isNormal_of_not_padded (not_exists.mp hpadded)
      rw [normalChars_eq_self_iff.mpr hnormal]

/-- What does not get lost when padding is taken away, the normal form has too. -/
theorem of_padded {P : List Char → Prop} (hP : ∀ r s, Padded r s → P s → P r) (h : P s) :
    P (normalChars s) := by
  generalize hr : normalChars s = r
  have hpadded := padded_normalChars s
  rw [hr] at hpadded
  clear hr
  induction hpadded with
  | refl => exact h
  | tail _ hlast ih => exact ih (hP _ _ hlast h)

theorem normalChars_normalChars (s : List Char) : normalChars (normalChars s) = normalChars s :=
  of_padded (P := (normalChars · = normalChars s))
    (fun _ _ hr hs => hr.normalChars_eq.symm.trans hs) rfl

theorem isNormal_normalChars (s : List Char) : IsNormal (normalChars s) :=
  normalChars_eq_self_iff.mp (normalChars_normalChars s)

/-- Texts have one normal form just if each is the other with padding added and removed. -/
theorem normalChars_eq_iff : normalChars s = normalChars t ↔ SamePadding s t := by
  constructor
  · intro h
    have hs := Relation.EqvGen.reflTransGen_le_eqvGen _ _ _ (padded_normalChars s)
    have ht := Relation.EqvGen.reflTransGen_le_eqvGen _ _ _ (padded_normalChars t)
    rw [h] at hs
    exact .trans _ _ _ (.symm _ _ hs) ht
  · intro h
    induction h with
    | rel r s hr => exact hr.normalChars_eq.symm
    | refl s => rfl
    | symm s t _ ih => exact ih.symm
    | trans r s t _ _ ih ih' => exact ih.trans ih'

end Stencil.Text

/-
# Stencil.Proofs.Text.Normal -- texts in normal form

Normalising leaves a text as it is exactly if the text can be seen to be in normal form
without normalising it: neither end is a character of the margin, and no blank stands
beside a line end (`normalChars_eq_self_iff`). The second half speaks of two neighbouring
characters only, so it can be followed through the places where texts are put together:
nothing that is neither a blank nor a line end disturbs it.
-/
import Mathlib.Data.List.Chain
import Mathlib.Data.List.TakeWhile
import Stencil.Proofs.Lexeme
import Stencil.Proofs.Whole

namespace Stencil.Text

/-! ## What a normal text looks like -/

/-- Neither end of the text is a character that satisfies `p`. -/
def Trimmed (p : Char → Bool) (cs : List Char) : Prop := Clear p cs ∧ Clear p cs.reverse

/-- The two characters are not a blank and a line end, in whatever order. -/
def Beside (x y : Char) : Prop :=
  ¬ (x = '\n' ∧ isBlank y = true) ∧ ¬ (isBlank x = true ∧ y = '\n')

/-- No blank stands beside a line end. -/
def Tight (cs : List Char) : Prop := cs.IsChain Beside

/-- The text is in normal form. -/
structure IsNormal (cs : List Char) : Prop where
  trimmed : Trimmed isMargin cs
  tight : Tight cs

/-- Neither a blank nor a line end. -/
def isSolid (x : Char) : Bool := !isBlank x && x != '\n'

variable {p : Char → Bool} {x : Char} {cs ds : List Char}

theorem isBlank_lineEnd : isBlank '\n' = false := by decide

theorem Trimmed.imp {q : Char → Bool} (h : Trimmed p cs) (hpq : ∀ x, q x = true → p x = true) :
    Trimmed q cs := ⟨h.1.imp hpq, h.2.imp hpq⟩

/-! ## Putting tight texts together -/

theorem beside_of_solid_left (h : isSolid x = true) (y : Char) : Beside x y := by
  simp only [isSolid, Bool.and_eq_true, Bool.not_eq_true', bne_iff_ne] at h
  simp [Beside, h]

theorem beside_of_solid_right (h : isSolid x = true) (y : Char) : Beside y x := by
  simp only [isSolid, Bool.and_eq_true, Bool.not_eq_true', bne_iff_ne] at h
  simp [Beside, h]

theorem Tight.cons (hx : isSolid x = true) (h : Tight cs) : Tight (x :: cs) :=
  List.isChain_cons.mpr ⟨fun y _ => beside_of_solid_left hx y, h⟩

/-- Tight texts may be put together where the second begins with neither a blank nor a line
end. -/
theorem Tight.append (h : Tight cs) (h' : Tight ds) (hlead : Leads isSolid ds) :
    Tight (cs ++ ds) := by
  obtain ⟨y, ds, rfl, hy⟩ := hlead
  refine List.isChain_append.mpr ⟨h, h', ?_⟩
  rintro x - _ ⟨⟩
  exact beside_of_solid_right hy x

theorem tight_of_no_lineEnd (h : '\n' ∉ cs) : Tight cs := by
  rw [Tight, List.isChain_iff_forall_rel_of_append_cons_cons]
  rintro a b l₁ l₂ rfl
  refine ⟨?_, ?_⟩
  · rintro ⟨rfl, -⟩
    simp at h
  · rintro ⟨-, rfl⟩
    simp at h

/-! ## Line by line -/

/-- A text with blanks cut from the two ends of every line. -/
def trimLines (cs : List Char) : List Char :=
  ['\n'].intercalate ((cs.splitOn '\n').map (trim isBlank))

theorem normalChars_eq (cs : List Char) : normalChars cs = trimLines (trim isMargin cs) := rfl

theorem no_lineEnd_of_mem_splitOn {line : List Char} (h : line ∈ cs.splitOn '\n') :
    '\n' ∉ line := by
  induction cs generalizing line with
  | nil =>
    rw [List.splitOn_nil, List.mem_singleton] at h
    simp [h]
  | cons x cs ih =>
    rw [List.splitOn_cons_eq_if_modifyHead] at h
    split at h
    · obtain rfl | h := List.mem_cons.mp h
      · simp
      · exact ih h
    · -- the character goes in front of the first line
      rename_i hx
      cases hlines : cs.splitOn '\n' with
      | nil => exact absurd hlines (List.splitOn_ne_nil _ _)
      | cons first lines =>
        rw [hlines] at h ih
        obtain rfl | h := List.mem_cons.mp h
        · have hfirst : '\n' ∉ first := ih (by simp)
          have hne : '\n' ≠ x := by
            rintro rfl
            exact hx rfl
          simp [hne, hfirst]
        · exact ih (by simp [h])

theorem trim_sublist_dropWhile (p : Char → Bool) (cs : List Char) :
    (trim p cs).Sublist (cs.dropWhile p) := by
  have h := (List.dropWhile_sublist p (l := (cs.dropWhile p).reverse)).reverse
  rwa [List.reverse_reverse] at h

theorem trim_sublist (p : Char → Bool) (cs : List Char) : (trim p cs).Sublist cs :=
  (trim_sublist_dropWhile p cs).trans (List.dropWhile_sublist p)

theorem dropWhile_eq_self_iff_clear : cs.dropWhile p = cs ↔ Clear p cs := by
  cases cs with
  | nil => simp
  | cons x cs => simp [List.dropWhile_eq_self_iff]

theorem trim_eq_self_iff : trim p cs = cs ↔ Trimmed p cs := by
  rw [Trimmed, ← dropWhile_eq_self_iff_clear, ← dropWhile_eq_self_iff_clear]
  constructor
  · intro h
    -- what is left of the text after both cuts is left after the first
    have hsub := trim_sublist_dropWhile p cs
    rw [h] at hsub
    have hfirst : cs.dropWhile p = cs := (List.dropWhile_sublist p).antisymm hsub
    refine ⟨hfirst, ?_⟩
    rw [trim, hfirst, List.reverse_eq_iff] at h
    exact h
  · rintro ⟨hfirst, hlast⟩
    rw [trim, hfirst, hlast, List.reverse_reverse]

theorem intercalate_map_sublist {f : List Char → List Char} (hf : ∀ l, (f l).Sublist l)
    (sep : List Char) (lines : List (List Char)) :
    (sep.intercalate (lines.map f)).Sublist (sep.intercalate lines) := by
  induction lines with
  | nil => simp
  | cons line lines ih =>
    cases lines with
    | nil => simpa using hf line
    | cons next lines =>
      rw [List.map_cons] at ih
      rw [List.map_cons, List.map_cons, List.intercalate_cons_cons, List.intercalate_cons_cons]
      exact ((hf line).append (List.Sublist.refl sep)).append ih

theorem trimLines_sublist (cs : List Char) : (trimLines cs).Sublist cs := by
  have h := intercalate_map_sublist (trim_sublist isBlank) ['\n'] (cs.splitOn '\n')
  rwa [List.intercalate_splitOn] at h

/-- The lines of the result are the trimmed lines of the text. -/
theorem splitOn_trimLines (cs : List Char) :
    (trimLines cs).splitOn '\n' = (cs.splitOn '\n').map (trim isBlank) := by
  apply List.splitOn_intercalate
  · simp only [List.mem_map]
    rintro _ ⟨line, hline, rfl⟩ hmem
    exact no_lineEnd_of_mem_splitOn hline ((trim_sublist _ _).mem hmem)
  · simp [List.splitOn_ne_nil]

theorem trimLines_eq_self_iff :
    trimLines cs = cs ↔ ∀ line ∈ cs.splitOn '\n', Trimmed isBlank line := by
  constructor
  · intro h line hline
    have hlines := splitOn_trimLines cs
    rw [h] at hlines
    have hmap : (cs.splitOn '\n').map id = (cs.splitOn '\n').map (trim isBlank) := by
      rw [List.map_id]
      exact hlines
    exact trim_eq_self_iff.mp (List.map_inj_left.mp hmap line hline).symm
  · intro h
    have hmap : (cs.splitOn '\n').map (trim isBlank) = (cs.splitOn '\n').map id :=
      List.map_inj_left.mpr fun line hline => trim_eq_self_iff.mpr (h line hline)
    rw [trimLines, hmap, List.map_id, List.intercalate_splitOn]

/-! ## Neighbouring characters -/

/-- At a line end, no blank may stand before it or behind it. -/
theorem tight_append_lineEnd_iff (h : '\n' ∉ cs) :
    Tight (cs ++ '\n' :: ds) ↔ Clear isBlank cs.reverse ∧ Clear isBlank ds ∧ Tight ds := by
  rw [Tight, List.isChain_append, List.isChain_cons]
  have hcs : cs.IsChain Beside := tight_of_no_lineEnd h
  have hbefore : (∀ x ∈ cs.getLast?, ∀ y ∈ ('\n' :: ds).head?, Beside x y) ↔
      Clear isBlank cs.reverse := by
    rw [Clear, List.head?_reverse]
    refine forall₂_congr fun x hx => ?_
    have hne : x ≠ '\n' := by
      rintro rfl
      exact h (List.mem_of_getLast? hx)
    simp [Beside, hne]
  have hbehind : (∀ y ∈ ds.head?, Beside '\n' y) ↔ Clear isBlank ds := by
    refine forall₂_congr fun y _ => ?_
    simp [Beside, isBlank_lineEnd]
  rw [hbefore, hbehind]
  constructor
  · rintro ⟨-, ⟨hbehind, hds⟩, hbefore⟩
    exact ⟨hbefore, hbehind, hds⟩
  · rintro ⟨hbefore, hbehind, hds⟩
    exact ⟨hcs, ⟨hbehind, hds⟩, hbefore⟩

theorem trimmed_append_lineEnd_iff :
    Trimmed isBlank (cs ++ '\n' :: ds) ↔ Clear isBlank cs ∧ Clear isBlank ds.reverse := by
  have hfront : ∀ l m : List Char, Clear isBlank (l ++ '\n' :: m) ↔ Clear isBlank l := by
    intro l m
    cases l with
    | nil => simp [isBlank_lineEnd]
    | cons x l => simp
  rw [Trimmed, hfront, List.reverse_append, List.reverse_cons, List.append_assoc,
    List.singleton_append, hfront]

/-- That all lines are trimmed can be seen from the ends of the text and its neighbouring
characters. -/
theorem trimmed_lines_iff {line : List Char} {lines : List (List Char)}
    (h : ∀ l ∈ line :: lines, '\n' ∉ l) :
    (∀ l ∈ line :: lines, Trimmed isBlank l) ↔
      Trimmed isBlank (['\n'].intercalate (line :: lines)) ∧
        Tight (['\n'].intercalate (line :: lines)) := by
  induction lines generalizing line with
  | nil =>
    have htight := tight_of_no_lineEnd (h line (by simp))
    simp [htight]
  | cons next lines ih =>
    obtain ⟨hline, hlines⟩ := List.forall_mem_cons.mp h
    rw [List.forall_mem_cons, ih hlines, List.intercalate_cons_cons, List.append_assoc,
      List.singleton_append, tight_append_lineEnd_iff hline, trimmed_append_lineEnd_iff, Trimmed,
      Trimmed]
    -- the ends of the lines are the ends of the text and what stands at the line ends
    constructor
    · rintro ⟨⟨hfirst, hbefore⟩, ⟨hbehind, hlast⟩, htight⟩
      exact ⟨⟨hfirst, hlast⟩, hbefore, hbehind, htight⟩
    · rintro ⟨⟨hfirst, hlast⟩, hbefore, hbehind, htight⟩
      exact ⟨⟨hfirst, hbefore⟩, ⟨hbehind, hlast⟩, htight⟩

theorem trimLines_eq_self_iff_tight : trimLines cs = cs ↔ Trimmed isBlank cs ∧ Tight cs := by
  rw [trimLines_eq_self_iff]
  cases hlines : cs.splitOn '\n' with
  | nil => exact absurd hlines (List.splitOn_ne_nil _ _)
  | cons line lines =>
    have hno : ∀ l ∈ line :: lines, '\n' ∉ l := fun l hl =>
      no_lineEnd_of_mem_splitOn (hlines ▸ hl)
    rw [trimmed_lines_iff hno, ← hlines, List.intercalate_splitOn]

/-! ## Normal texts -/

theorem isMargin_of_isBlank {x : Char} (h : isBlank x = true) : isMargin x = true := by
  simp [isMargin, h]

/-- Normalising leaves just the texts in normal form as they are. -/
theorem normalChars_eq_self_iff : normalChars cs = cs ↔ IsNormal cs := by
  rw [normalChars_eq]
  constructor
  · intro h
    -- nothing is cut from the ends, as nothing is cut at all
    have hsub := trimLines_sublist (trim isMargin cs)
    rw [h] at hsub
    have hends : trim isMargin cs = cs := (trim_sublist _ _).antisymm hsub
    rw [hends] at h
    exact ⟨trim_eq_self_iff.mp hends, (trimLines_eq_self_iff_tight.mp h).2⟩
  · rintro ⟨htrimmed, htight⟩
    rw [trim_eq_self_iff.mpr htrimmed]
    exact trimLines_eq_self_iff_tight.mpr
      ⟨htrimmed.imp fun _ => isMargin_of_isBlank, htight⟩

theorem normalize_eq_self_iff {s : String} : normalize s = s ↔ IsNormal s.toList := by
  rw [normalize, ← String.toList_inj, String.toList_ofList, normalChars_eq_self_iff]

/-- What can be cut is cut, and nothing else. -/
theorem trim_append {w w' : List Char} (hw : ∀ x ∈ w, p x = true) (hw' : ∀ x ∈ w', p x = true)
    (h : Trimmed p cs) : trim p (w ++ (cs ++ w')) = cs := by
  unfold trim
  cases cs with
  | nil =>
    have hall : (w ++ ([] ++ w')).dropWhile p = [] := by
      rw [List.dropWhile_eq_nil_iff]
      intro x hx
      rcases List.mem_append.mp hx with hx | hx
      · exact hw x hx
      · exact hw' x hx
    rw [hall]
    rfl
  | cons x cs =>
    have hfirst : Clear p (x :: cs ++ w') := clear_cons.mpr (clear_cons.mp h.1)
    rw [dropWhile_append_clear hw hfirst, List.reverse_append,
      dropWhile_append_clear (fun y hy => hw' y (List.mem_reverse.mp hy)) h.2,
      List.reverse_reverse]

/-- Blanks behind a text in normal form are cut. -/
theorem normalChars_append_blanks {w : List Char} (h : IsNormal cs) (hw : Blanks w) :
    normalChars (cs ++ w) = cs := by
  have htrim : trim isMargin (cs ++ w) = trim isMargin cs := by
    rw [trim_eq_self_iff.mpr h.trimmed]
    exact trim_append (w := []) (by simp) (fun x hx => isMargin_of_isBlank (hw x hx)) h.trimmed
  rw [normalChars_eq, htrim, ← normalChars_eq, normalChars_eq_self_iff.mpr h]

/-- No text is longer in normal form. -/
theorem utf8ByteSize_normalize_le (s : String) : (normalize s).utf8ByteSize ≤ s.utf8ByteSize := by
  rw [normalize, Parse.utf8ByteSize_ofList, Parse.utf8ByteSize_eq_byteLength, normalChars_eq]
  exact Parse.byteLength_le_of_sublist ((trimLines_sublist _).trans (trim_sublist ..))

/-! ## Lines put together -/

/-- Lines put behind a first one, with a line end in front of each. -/
theorem intercalate_lines (first : List Char) (lines : List (List Char)) :
    ['\n'].intercalate (first :: lines) = first ++ lines.flatMap ('\n' :: ·) := by
  induction lines generalizing first with
  | nil => simp
  | cons line lines ih =>
    rw [List.intercalate_cons_cons, ih]
    simp

/-- Tight texts may be put on both sides of a line end if no blank is beside it. -/
theorem Tight.append_lineEnd (h : Tight cs) (h' : Tight ds) (hbefore : Clear isBlank cs.reverse)
    (hbehind : Clear isBlank ds) : Tight (cs ++ '\n' :: ds) := by
  refine List.isChain_append.mpr ⟨h, List.isChain_cons.mpr ⟨?_, h'⟩, ?_⟩
  · intro y hy
    simp [Beside, isBlank_lineEnd, hbehind y hy]
  · rintro x hx _ ⟨⟩
    have hblank : isBlank x = false := hbefore x (List.head?_reverse ▸ hx)
    simp [Beside, isBlank_lineEnd, hblank]

/-- Two texts in normal form, a line end between them, are in normal form. -/
theorem IsNormal.append_lineEnd (h : IsNormal cs) (h' : IsNormal ds) (hcs : cs ≠ [])
    (hds : ds ≠ []) : IsNormal (cs ++ '\n' :: ds) := by
  have hblank : ∀ x, isBlank x = true → isMargin x = true := fun _ => isMargin_of_isBlank
  refine ⟨⟨?_, ?_⟩, h.tight.append_lineEnd h'.tight (h.trimmed.2.imp hblank)
    (h'.trimmed.1.imp hblank)⟩
  · obtain ⟨x, cs, rfl⟩ := List.exists_cons_of_ne_nil hcs
    exact clear_cons.mpr (clear_cons.mp h.trimmed.1)
  · obtain ⟨y, rest, hrest⟩ := List.exists_cons_of_ne_nil (List.reverse_ne_nil_iff.mpr hds)
    have hy := h'.trimmed.2
    rw [hrest] at hy
    rw [List.reverse_append, List.reverse_cons, hrest]
    exact clear_cons.mpr (clear_cons.mp hy)

section Lines

variable {lines : List (List Char)}

theorem leads_intercalate (hne : lines ≠ []) (h : ∀ l ∈ lines, Leads p l) :
    Leads p (['\n'].intercalate lines) := by
  match lines with
  | [] => exact absurd rfl hne
  | [line] => simpa using h line (by simp)
  | line :: next :: lines =>
    rw [List.intercalate_cons_cons, List.append_assoc]
    exact (h line (by simp)).append _

theorem leads_reverse_intercalate (hne : lines ≠ []) (h : ∀ l ∈ lines, Leads p l.reverse) :
    Leads p (['\n'].intercalate lines).reverse := by
  induction lines with
  | nil => exact absurd rfl hne
  | cons line lines ih =>
    obtain ⟨hline, hlines⟩ := List.forall_mem_cons.mp h
    cases lines with
    | nil => simpa using hline
    | cons next lines =>
      rw [List.intercalate_cons_cons, List.reverse_append]
      exact (ih (by simp) hlines).append _

theorem clear_isMargin (h : Leads (!isMargin ·) cs) : Clear isMargin cs :=
  h.clear fun _ hx => by simpa using hx

/-- Lines that neither begin nor end with a character of the margin are a text in normal form. -/
theorem isNormal_intercalate (hne : lines ≠ []) (hno : ∀ l ∈ lines, '\n' ∉ l)
    (hfirst : ∀ l ∈ lines, Leads (!isMargin ·) l)
    (hlast : ∀ l ∈ lines, Leads (!isMargin ·) l.reverse) :
    IsNormal (['\n'].intercalate lines) := by
  have htrimmed : Trimmed isMargin (['\n'].intercalate lines) :=
    ⟨clear_isMargin (leads_intercalate hne hfirst),
      clear_isMargin (leads_reverse_intercalate hne hlast)⟩
  obtain ⟨line, lines, rfl⟩ := List.exists_cons_of_ne_nil hne
  have hlines : ∀ l ∈ line :: lines, Trimmed isBlank l := fun l hl =>
    Trimmed.imp ⟨clear_isMargin (hfirst l hl), clear_isMargin (hlast l hl)⟩
      fun _ => isMargin_of_isBlank
  exact ⟨htrimmed, ((trimmed_lines_iff hno).mp hlines).2⟩

end Lines

end Stencil.Text

/-
# Stencil.Proofs.Expression.Ends -- how value expressions end

A value expression ends in a letter, a digit, an underscore or a double quote, so in nothing
that normalising cuts, and it does not begin with a blank either. Between blanks it is therefore
found again by cutting them (`Written.trim_eq`), and a line keeps it as it is.
-/
import Stencil.Proofs.Expression.Value
import Stencil.Proofs.Text.Normal

namespace Stencil

open Parse

/-- What has a property that blanks, line ends and zero lack is not cut when a text is brought to
normal form. -/
theorem not_isMargin_of_apply {p : Char → Bool} {x : Char}
    (hp : [' ', '\t', '\n', '\x0c', '\r', '\x00'].any p = false) (h : p x = true) :
    (!Text.isMargin x) = true := by
  cases hmargin : Text.isMargin x with
  | false => rfl
  | true =>
    simp only [Text.isMargin, Text.isBlank, Bool.or_eq_true, beq_iff_eq] at hmargin
    obtain ((((rfl | rfl) | rfl) | rfl) | rfl) | rfl := hmargin <;> simp [h] at hp

theorem not_isMargin_of_nameRest {x : Char} (h : isNameRest x = true) :
    (!Text.isMargin x) = true := not_isMargin_of_apply (by decide) h

theorem nameRest_of_nameStart {x : Char} (h : isNameStart x = true) : isNameRest x = true := by
  have halpha : x.isAlpha = true := h
  simp [isNameRest, Char.isAlphanum, halpha]

theorem nameRest_of_digit {x : Char} (h : x.isDigit = true) : isNameRest x = true := by
  simp [isNameRest, Char.isAlphanum, h]

section Ends

variable {s t : List Char}

/-- A name may go on with any of its own characters. -/
theorem IsName.nameRest {name : String} (h : IsName name s) : ∀ x ∈ s, isNameRest x = true := by
  obtain ⟨x, rest, rfl, hx, hrest, -⟩ := isName_iff.mp h
  exact List.forall_mem_cons.mpr ⟨nameRest_of_nameStart hx, hrest⟩

theorem IsName.leadsInk {name : String} (h : IsName name s) : Leads (!Text.isMargin ·) s :=
  h.leads.imp fun _ hx => not_isMargin_of_nameRest (nameRest_of_nameStart hx)

/-- The text ends in a character that is not cut. -/
def EndsInk (s : List Char) : Prop := Leads (!Text.isMargin ·) s.reverse

theorem EndsInk.append_left (h : EndsInk t) (s : List Char) : EndsInk (s ++ t) := by
  rw [EndsInk, List.reverse_append]
  exact Leads.append h _

theorem EndsInk.clear (h : EndsInk s) : Clear Text.isMargin s.reverse := Text.clear_isMargin h

/-- A run of letters, digits and underscores ends in what is not cut. -/
theorem endsInk_of_nameRest (hne : s ≠ []) (h : ∀ x ∈ s, isNameRest x = true) : EndsInk s := by
  obtain ⟨x, rest, hrest⟩ := List.exists_cons_of_ne_nil (List.reverse_ne_nil_iff.mpr hne)
  have hx : x ∈ s := List.mem_reverse.mp (by simp [hrest])
  exact ⟨x, rest, hrest, not_isMargin_of_nameRest (h x hx)⟩

theorem IsName.endsInk {name : String} (h : IsName name s) : EndsInk s := by
  refine endsInk_of_nameRest ?_ h.nameRest
  rintro rfl
  obtain ⟨x, rest, hs, -⟩ := h.leads
  cases hs

theorem Digits.endsInk (h : Digits s) : EndsInk s :=
  endsInk_of_nameRest h.1 fun x hx => nameRest_of_digit (h.2 x hx)

/-- A numeral ends in a digit, of its fraction if it has one. -/
theorem Numeral.endsInk (h : Numeral s) : EndsInk s := by
  obtain ⟨sign, whole, fraction, -, hwhole, hfraction, rfl⟩ := h
  obtain rfl | ⟨digits, hdigits, rfl⟩ := hfraction
  · rw [List.append_nil]
    exact hwhole.endsInk.append_left sign
  · exact ((hdigits.endsInk.append_left ['.']).append_left whole).append_left sign

theorem IsQuoted.endsInk {body : String} (h : IsQuoted body s) : EndsInk s := by
  obtain ⟨-, -, rfl⟩ := h
  have hquote : EndsInk ['"'] := ⟨'"', [], rfl, rfl⟩
  exact (hquote.append_left body.toList).append_left ['"']

theorem Operand.Term.endsInk {a : Operand} (h : a.Term s) : EndsInk s := by
  cases h with
  | lookup h => exact h.endsInk
  | number h => exact h.1.endsInk

/-- Whatever its form, a value expression ends in what is not cut. -/
theorem Expression.Written.endsInk {e : Expression} (h : e.Written s) : EndsInk s := by
  cases h with
  | truth h => exact h.isName.endsInk
  | arithmetic _ _ _ _ _ hb =>
    exact (((hb.endsInk.append_left _).append_left _).append_left _).append_left _
  | number h => exact h.1.endsInk
  | text h => exact h.endsInk
  | lookup h => exact h.endsInk

/-- A value expression neither begins nor ends with a blank. -/
theorem Expression.Written.trimmed {e : Expression} (h : e.Written s) :
    Text.Trimmed Text.isBlank s :=
  ⟨h.leads.clear fun _ => operandStart_not_blank,
    h.endsInk.clear.imp fun _ => Text.isMargin_of_isBlank⟩

/-- Between blanks, a value expression is what is left without them. -/
theorem Expression.Written.trim_eq {e : Expression} {w w' : List Char} (h : e.Written s)
    (hw : Blanks w) (hw' : Blanks w') : Text.trim Text.isBlank (w ++ (s ++ w')) = s :=
  Text.trim_append hw hw' h.trimmed

/-- No line end stands in the text, and it neither begins nor ends with a character of the
margin. -/
structure Sealed (s : List Char) : Prop where
  no_lineEnd : '\n' ∉ s
  leads : Leads (!Text.isMargin ·) s
  endsInk : EndsInk s

/-- Such a text is what it is normalised to: there are no lines in it to be tightened. -/
theorem Sealed.isNormal (h : Sealed s) : Text.IsNormal s where
  trimmed := ⟨Text.clear_isMargin h.leads, h.endsInk.clear⟩
  tight := Text.tight_of_no_lineEnd h.no_lineEnd

end Ends

end Stencil

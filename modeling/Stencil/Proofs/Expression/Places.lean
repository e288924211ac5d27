/-
# Stencil.Proofs.Expression.Places -- a value expression in its three places

A value expression may be a whole text, stand behind the colon of an assignment, or stand
between the braces of a substitution, with blanks around it. What is accepted is the same in all
three: around the name, the colon and the braces nothing is left to choose, since a name goes on
as far as it can and no expression begins or ends with a blank.

In a substitution this needs one thing more. The expression may hold closing braces, between
quotes; a text that is no expression may hold one in front of which an expression stands, and
the rest of it is then taken for literal text. Without a closing brace this cannot happen.
-/
import Stencil.Proofs.Assignment.Lines
import Stencil.Proofs.Expression.Ends
import Stencil.Proofs.Template.Reading

namespace Stencil

open Parse

variable {s w w' : List Char}

theorem Expression.Written.sealed {e : Expression} (h : e.Written s) : Sealed s where
  no_lineEnd := h.no_lineEnd
  leads := h.leads.imp fun _ => not_isMargin_of_apply (by decide)
  endsInk := h.endsInk

/-! ## Behind a colon -/

namespace Assignment

/-- Behind a name, a colon and blanks, an assignment has its expression and nothing else. -/
theorem written_colon_iff {a : Assignment} {name : String} (hname : isIdentifier name = true)
    (hw : Blanks w) (hs : Text.Trimmed Text.isBlank s) :
    a.Written (name.toList ++ (':' :: (w ++ s))) ↔ a.name = name ∧ a.value.Written s := by
  have hrest : ∀ {n : String} {u : List Char} (tail : List Char), IsName n u →
      Clear isNameRest tail → (u ++ tail).takeWhile isNameRest = u :=
    fun _ hu htail => takeWhile_append_clear hu.nameRest htail
  constructor
  · intro h
    generalize htext : name.toList ++ (':' :: (w ++ s)) = text at h
    obtain @⟨n, e, u, w₁, w₂, t, w₃, hu, hw₁, hw₂, ht, hw₃⟩ := h
    -- the name is all that can be one
    have hcolon : Clear isNameRest (w₁ ++ (':' :: (w₂ ++ (t ++ w₃)))) :=
      hw₁.clear_append (fun _ hx => (Bool.or_eq_false_iff.mp (operandRest_of_blank hx)).1)
        (clear_cons.mpr rfl)
    have htake := congrArg (List.takeWhile isNameRest) htext
    rw [hrest _ ⟨hname, rfl⟩ (clear_cons.mpr rfl), hrest _ hu hcolon] at htake
    have hn : n = name := String.toList_inj.mp (hu.2.symm.trans htake.symm)
    rw [htake] at htext
    have hbehind := List.append_cancel_left htext
    cases w₁ with
    | cons y w₁ =>
      obtain ⟨rfl, -⟩ := List.cons.inj hbehind
      exact absurd (hw₁ ':' (by simp)) (by decide)
    | nil =>
      -- what is left without the blanks is the expression on either side
      have htrim := congrArg (Text.trim Text.isBlank) (List.cons.inj hbehind).2
      rw [ht.trim_eq hw₂ hw₃, ← List.append_nil s, Text.trim_append hw (by simp) hs] at htrim
      exact ⟨hn, htrim ▸ ht⟩
  · rintro ⟨rfl, ha⟩
    have h := Written.mk ⟨hname, rfl⟩ blanks_nil hw ha blanks_nil
    rwa [List.append_nil] at h

/-- A text of one line is a list of one assignment. -/
theorem listWritten_iff_of_no_lineEnd {list : List Assignment} (h : '\n' ∉ s) :
    ListWritten list s ↔ ∃ a, list = [a] ∧ a.Written s := by
  constructor
  · rintro @⟨a, list, u, t, ha, hlines⟩
    cases hlines with
    | nil => exact ⟨a, rfl, by rwa [List.append_nil]⟩
    | empty => simp at h
    | line => simp at h
  · rintro ⟨a, rfl, ha⟩
    have hlist := ListWritten.cons ha .nil
    rwa [List.append_nil] at hlist

end Assignment

/-! ## Between braces -/

/-- A substitution with blanks around its expression. -/
theorem Template.written_insertion {e : Expression} (h : e.Written s) (hw : Blanks w)
    (hw' : Blanks w') :
    Template.Written [.substitution e] ('\x7b' :: '=' :: (w ++ (s ++ (w' ++ ['\x7d'])))) := by
  have hnode := Template.Written.cons (.substitution ⟨w, s, w', hw, h, hw', rfl⟩) .nil nofun
  rwa [List.append_nil] at hnode

/-- A template whose text begins with the opener of a substitution begins with one. -/
theorem Template.Written.exists_enclosed {t : Template}
    (h : Template.Written t ('\x7b' :: '=' :: s)) :
    ∃ e u v, Enclosed Expression.Written '\x7d' e u ∧ u ++ v = s := by
  generalize htext : '\x7b' :: '=' :: s = text at h
  cases h with
  | nil => cases htext
  | @cons node nodes u v hnode hnodes hlit =>
    cases hnode with
    | literal hliteral =>
      -- no literal begins where a directive does
      have hstop := hnodes.stops (hlit rfl) (.inl rfl)
      rw [List.append_nil] at hstop
      have hno := hliteral.not_stops hstop
      rw [← htext] at hno
      exact absurd (.inr (by simp [Parser.atOpener, Parser.openers])) hno
    | substitution he =>
      obtain ⟨-, hs⟩ := List.cons.inj htext
      exact ⟨_, _, v, he, (List.cons.inj hs).2.symm⟩
    | conditional =>
      obtain ⟨-, hs⟩ := List.cons.inj htext
      cases (List.cons.inj hs).1

/-- The last of its kind in a text is the only one, if there is none before. -/
theorem eq_of_append_cons {u v tail : List Char} {x : Char} (hv : x ∉ v)
    (h : u ++ (x :: tail) = v ++ [x]) : u = v := by
  obtain ⟨c, rfl, hc⟩ | ⟨c, rfl, hc⟩ := List.append_eq_append_iff.mp h
  · cases c with
    | nil => rw [List.append_nil]
    | cons y c =>
      obtain ⟨rfl, -⟩ := List.cons.inj hc
      simp at hv
  · cases c with
    | nil => rw [List.append_nil]
    | cons y c => simp at hc

/-- Without a closing brace in it, what stands between the braces is an expression. -/
theorem Template.Written.exists_expression {t : Template} (hw : Blanks w) (hw' : Blanks w')
    (hs : Text.Trimmed Text.isBlank s) (hno : '\x7d' ∉ s)
    (h : Template.Written t ('\x7b' :: '=' :: (w ++ (s ++ (w' ++ ['\x7d']))))) :
    ∃ e : Expression, e.Written s := by
  obtain ⟨e, _, tail, ⟨w₁, u, w₂, hw₁, hu, hw₂, rfl⟩, htext⟩ := h.exists_enclosed
  have hbrace : ∀ {b : List Char}, Blanks b → '\x7d' ∉ b := fun hb hmem =>
    absurd (hb _ hmem) (by decide)
  have hinner : '\x7d' ∉ w ++ (s ++ w') := by simp [hbrace hw, hbrace hw', hno]
  have hbraces : w₁ ++ (u ++ w₂) ++ ('\x7d' :: tail) = w ++ (s ++ w') ++ ['\x7d'] := by
    simpa using htext
  have htrim := congrArg (Text.trim Text.isBlank) (eq_of_append_cons hinner hbraces)
  rw [hu.trim_eq hw₁ hw₂, Text.trim_append hw hw' hs] at htrim
  exact ⟨e, htrim ▸ hu⟩

end Stencil

/-
# Stencil.Proofs.Expression.Connectives -- conditions put together from conditions

A condition is a list of lists: the marks of the outer one are looser than those of the inner
one. So a text with `|` between two conditions has the terms of both, one list after the other,
but `&` binds the last term of the first to the first term of the second (`Joined.append_inner`),
and only parentheses keep two conditions apart. What a condition, a conjunction or a group
evaluates to is said for each of these ways of putting them together.

That these are the texts meant, and not cut short by normalising, rests on how conditions look
from outside: no line end stands inside, and neither end is a character that is cut.
-/
import Stencil.Proofs.Assignment.Lines
import Stencil.Proofs.Expression.Condition
import Stencil.Proofs.Expression.Ends
import Stencil.Expression.Evaluation

namespace Stencil

/-! ## How conditions look from outside -/

theorem not_isMargin_of_atomStart {x : Char} (h : isAtomStart x = true) :
    (!Text.isMargin x) = true := not_isMargin_of_apply (by decide) h

section NoLineEnd

variable {s : List Char}

theorem Operand.Written.no_lineEnd {a : Operand} (h : a.Written s) : '\n' ∉ s := by
  cases h with
  | term h => exact h.no_lineEnd
  | text h => exact h.no_lineEnd

theorem Comparison.Spelling.no_lineEnd {op : Comparison} (h : op.Spelling s) : '\n' ∉ s := by
  cases h <;> decide

/-- None of the marks is a line end, and none of the parts of a condition has one inside. -/
theorem no_lineEnd_of_marks {mark : Char} {m : List Char} (hmark : mark ≠ '\n')
    (hm : m = [mark] ∨ m = [mark, mark]) : '\n' ∉ m := by
  obtain rfl | rfl := hm <;> simp [hmark.symm]

theorem no_lineEnd_bang (inverted : Bool) : '\n' ∉ bang inverted := by
  cases inverted <;> decide

mutual

theorem Atom.Written.no_lineEnd : {a : Atom} → {s : List Char} → a.Written s → '\n' ∉ s
  | .compare .., _, .compare ha hw hop hw' hb => by
    simp [ha.no_lineEnd, hw.no_lineEnd, hop.no_lineEnd, hw'.no_lineEnd, hb.no_lineEnd]
  | .present .., _, .present inverted hname hask => by
    obtain rfl | rfl := hask <;> simp [no_lineEnd_bang inverted, hname.no_lineEnd]
  | .group _ inner, _, .group inverted hw hu hw' => by
    simp [no_lineEnd_bang inverted, hw.no_lineEnd, hw'.no_lineEnd,
      Condition.Written.no_lineEnd hu]

theorem Conjunction.Written.no_lineEnd : {t : List Atom} → {s : List Char} →
    Conjunction.Written t s → '\n' ∉ s
  | [_], _, .one ha => ha.no_lineEnd
  | _ :: _, _, .more ha hw hm hw' ht => by
    simp [Atom.Written.no_lineEnd ha, hw.no_lineEnd, no_lineEnd_of_marks (by decide) hm,
      hw'.no_lineEnd, Conjunction.Written.no_lineEnd ht]

theorem Condition.Written.no_lineEnd : {t : List (List Atom)} → {s : List Char} →
    Condition.Written t s → '\n' ∉ s
  | [_], _, .one ha => Conjunction.Written.no_lineEnd ha
  | _ :: _, _, .more ha hw hm hw' ht => by
    simp [Conjunction.Written.no_lineEnd ha, hw.no_lineEnd, no_lineEnd_of_marks (by decide) hm,
      hw'.no_lineEnd, Condition.Written.no_lineEnd ht]

end

end NoLineEnd

section Ends

variable {s : List Char}

theorem Operand.Written.endsInk {a : Operand} (h : a.Written s) : EndsInk s := by
  cases h with
  | term h => exact h.endsInk
  | text h => exact h.endsInk

/-- A test ends as its last operand does, or in a question mark or a parenthesis. -/
theorem Atom.Written.endsInk {a : Atom} (h : a.Written s) : EndsInk s := by
  cases h with
  | compare _ _ _ _ hb =>
    exact (((hb.endsInk.append_left _).append_left _).append_left _).append_left _
  | present inverted hname hask =>
    obtain rfl | rfl := hask
    · rw [List.append_nil]
      exact hname.endsInk.append_left _
    · have hquestion : EndsInk ['?'] := ⟨'?', [], rfl, rfl⟩
      exact (hquestion.append_left _).append_left _
  | group inverted =>
    have hclose : EndsInk [')'] := ⟨')', [], rfl, rfl⟩
    exact (((hclose.append_left _).append_left _).append_left _).append_left ['('] |>.append_left _

theorem Joined.endsInk {α : Type} {mark : Char} {Item : α → List Char → Prop} {as : List α}
    (hi : ∀ a s, Item a s → EndsInk s) (h : Joined mark Item as s) : EndsInk s := by
  induction h with
  | one ha => exact hi _ _ ha
  | more _ _ _ _ _ ih =>
    exact (((ih.append_left _).append_left _).append_left _).append_left _

theorem Condition.Written.endsInk {t : Condition} (h : Condition.Written t s) : EndsInk s :=
  Joined.endsInk (fun _ _ => Joined.endsInk fun _ _ => Atom.Written.endsInk) h

/-- From outside, a condition looks like one word: nothing of it is cut, and it stands in one
line. -/
theorem Condition.Written.sealed {t : Condition} (h : Condition.Written t s) : Sealed s where
  no_lineEnd := h.no_lineEnd
  leads := h.leads.imp fun _ => not_isMargin_of_atomStart
  endsInk := h.endsInk

/-- Normalising leaves a written condition as it is. -/
theorem Condition.Written.isNormal {t : Condition} (h : Condition.Written t s) :
    Text.IsNormal s := h.sealed.isNormal

end Ends

/-! ## Putting texts together -/

section Joined

variable {α : Type} {mark outer : Char} {Item : α → List Char → Prop} {s w m w' t : List Char}

theorem Joined.ne_nil {as : List α} (h : Joined mark Item as s) : as ≠ [] := by
  cases h <;> exact List.cons_ne_nil _ _

/-- A single item is written without any mark. -/
theorem joined_singleton_iff {a : α} : Joined mark Item [a] s ↔ Item a s := by
  constructor
  · intro h
    cases h with
    | one ha => exact ha
    | more _ _ _ _ h => exact absurd rfl h.ne_nil
  · exact .one

/-- What makes another item of the first one does so in front of the others. -/
theorem Joined.extend_first {a b : α} {as : List α} {front : List Char}
    (h : Joined mark Item (a :: as) s) (hab : ∀ u, Item a u → Item b (front ++ u)) :
    Joined mark Item (b :: as) (front ++ s) := by
  cases h with
  | one ha => exact .one (hab _ ha)
  | more ha hw hm hw' h =>
    rw [← List.append_assoc]
    exact .more (hab _ ha) hw hm hw' h

/-- An inner mark between two texts joins the last list of the first to the first of the
second. -/
theorem Joined.append_inner {before after : List (List α)} {last first : List α}
    (h : Joined outer (Joined mark Item) (before ++ [last]) s)
    (hw : Blanks w) (hm : m = [mark] ∨ m = [mark, mark]) (hw' : Blanks w')
    (h' : Joined outer (Joined mark Item) (first :: after) t) :
    Joined outer (Joined mark Item) (before ++ (last ++ first) :: after)
      (s ++ (w ++ (m ++ (w' ++ t)))) := by
  induction before generalizing s with
  | nil =>
    have hlast : Joined mark Item last s := joined_singleton_iff.mp h
    have hextend : ∀ u, Joined mark Item first u →
        Joined mark Item (last ++ first) ((s ++ (w ++ (m ++ w'))) ++ u) := by
      intro u hu
      simp only [List.append_assoc]
      exact hlast.append hw hm hw' hu
    have hjoined := h'.extend_first hextend
    simpa only [List.append_assoc, List.nil_append] using hjoined
  | cons term before ih =>
    generalize hrest : before ++ [last] = rest at ih
    rw [List.cons_append, hrest] at h
    cases h with
    | one => simp at hrest
    | more hterm hw₁ hm₁ hw₁' h =>
      simp only [List.append_assoc]
      exact .more hterm hw₁ hm₁ hw₁' (ih h)

end Joined

/-! ## Nesting -/

/-- Two conditions next to each other nest as deeply as the deeper of them. -/
theorem Condition.nesting_append_le {t u : Condition} {n : Nat} (ht : Condition.nesting t ≤ n)
    (hu : Condition.nesting u ≤ n) : Condition.nesting (t ++ u) ≤ n := by
  rw [nesting_le_iff] at ht hu ⊢
  exact List.forall_mem_append.mpr ⟨ht, hu⟩

/-- So they do when the last term of one and the first of the other are made one. -/
theorem Condition.nesting_append_inner_le {before after : Condition} {last first : Conjunction}
    {n : Nat} (ht : Condition.nesting (before ++ [last]) ≤ n)
    (hu : Condition.nesting (first :: after) ≤ n) :
    Condition.nesting (before ++ (last ++ first) :: after) ≤ n := by
  rw [nesting_le_iff, List.forall_mem_append] at ht ⊢
  rw [nesting_le_iff, List.forall_mem_cons] at hu
  have hlast : Conjunction.nesting last ≤ n := ht.2 last (List.mem_singleton_self last)
  have hjoined : Conjunction.nesting (last ++ first) ≤ n := by
    rw [Conjunction.nesting_le_iff] at hlast ⊢
    exact List.forall_mem_append.mpr ⟨hlast, Conjunction.nesting_le_iff.mp hu.1⟩
  exact ⟨ht.1, List.forall_mem_cons.mpr ⟨hjoined, hu.2⟩⟩

/-- A conjunction of groups nests one level deeper than what is in them. -/
theorem Condition.nesting_groups_le {groups : List (Bool × Condition)} {n : Nat}
    (h : ∀ g ∈ groups, Condition.nesting g.2 < n) :
    Condition.nesting [groups.map fun g => .group g.1 g.2] ≤ n := by
  rw [nesting_le_iff, List.forall_mem_singleton, Conjunction.nesting_le_iff, List.forall_mem_map]
  exact h

/-! ## Evaluating what is put together -/

section Evaluation

variable (vars : Valuation)

/-- A group holds if its inside does, and an inverted one if it does not. -/
theorem Atom.value_eval_group (inverted : Bool) (inner : Condition) :
    (Atom.eval vars (.group inverted inner)).value =
      ((Condition.eval vars inner).value != inverted) := by
  rw [Atom.eval, Traced.value_map]

/-- A conjunction holds if all its tests do, whatever was left unevaluated. -/
theorem Conjunction.value_eval_cons (atom : Atom) (atoms : Conjunction) :
    (Conjunction.eval vars (atom :: atoms)).value =
      ((Atom.eval vars atom).value && (Conjunction.eval vars atoms).value) := by
  rw [Conjunction.eval, Traced.value_bind]
  cases (Atom.eval vars atom).value <;> rfl

/-- A condition holds if one of its terms does. -/
theorem Condition.value_eval_cons (term : Conjunction) (terms : Condition) :
    (Condition.eval vars (term :: terms)).value =
      ((Conjunction.eval vars term).value || (Condition.eval vars terms).value) := by
  rw [Condition.eval, Traced.value_bind]
  cases (Conjunction.eval vars term).value <;> rfl

/-- One of the terms of two conditions holds if one of them does. -/
theorem Condition.value_eval_append (t u : Condition) :
    (Condition.eval vars (t ++ u)).value =
      ((Condition.eval vars t).value || (Condition.eval vars u).value) := by
  induction t with
  | nil =>
    rw [List.nil_append, Condition.eval.eq_def vars [], Traced.value_pure, Bool.false_or]
  | cons term t ih =>
    rw [List.cons_append, value_eval_cons, value_eval_cons, ih, Bool.or_assoc]

/-- A single conjunction. -/
theorem Condition.value_eval_singleton (term : Conjunction) :
    (Condition.eval vars [term]).value = (Conjunction.eval vars term).value := by
  rw [value_eval_cons, Condition.eval, Traced.value_pure, Bool.or_false]

/-- Groups that must all hold. -/
theorem Conjunction.value_eval_groups (groups : List (Bool × Condition)) :
    (Conjunction.eval vars (groups.map fun g => .group g.1 g.2)).value =
      groups.all fun g => (Condition.eval vars g.2).value != g.1 := by
  induction groups with
  | nil => rw [List.map_nil, Conjunction.eval, Traced.value_pure, List.all_nil]
  | cons g groups ih =>
    rw [List.map_cons, value_eval_cons, Atom.value_eval_group, ih, List.all_cons]

end Evaluation

end Stencil

/-
# Stencil.Proofs.Engine.Composition -- conditions put together as texts

Two texts that are conditions can be put together by writing marks and parentheses around them,
and the answer for the whole is what logic makes of the two answers. Whatever the texts begin or
end with, nothing of one is ever read as a part of the other: the parts are found again as they
were, since a text writes one condition only.

`&` is the exception, and not a mistake: it binds more tightly than `|`, so without parentheses
it takes hold of the last term of the one text and of the first term of the other.
-/
import Stencil.Proofs.Engine.Operation
import Stencil.Proofs.Expression.Connectives

namespace Stencil

variable {s t w w' src : String} {p q : Condition} {x : Bool} {mark : Char}

/-! ## The texts -/

/-- A text in parentheses, with texts between it and them. -/
def parenthesized (before src after : String) : String := "(" ++ before ++ src ++ after ++ ")"

/-- The text is a mark, single or doubled, with blanks around it. -/
def IsConnective (mark : Char) (text : String) : Prop :=
  ∃ w m w', Blanks w ∧ (m = [mark] ∨ m = [mark, mark]) ∧ Blanks w' ∧
    text.toList = w ++ (m ++ w')

theorem toList_parenthesized : (parenthesized w src w').toList =
    '(' :: (w.toList ++ (src.toList ++ (w'.toList ++ [')']))) := by
  simp [parenthesized, String.toList_append]

/-- A condition in parentheses is a group. -/
theorem Condition.Written.parenthesized (inverted : Bool) (h : Condition.Written p src.toList)
    (hw : Blanks w.toList) (hw' : Blanks w'.toList) :
    Atom.Written (.group inverted p)
      (bang inverted ++ (Stencil.parenthesized w src w').toList) := by
  rw [toList_parenthesized]
  exact .group inverted hw h hw'

section Connective

variable {α : Type} {outer : Char} {Item : α → List Char → Prop} {text : String}

/-- Items joined by a connective. -/
theorem IsConnective.joined {as bs : List α} (h : IsConnective mark text)
    (hs : Joined mark Item as s.toList) (ht : Joined mark Item bs t.toList) :
    Joined mark Item (as ++ bs) (s ++ text ++ t).toList := by
  obtain ⟨w, m, w', hw, hm, hw', htext⟩ := h
  simp only [String.toList_append, htext, List.append_assoc]
  exact hs.append hw hm hw' ht

theorem IsConnective.joined_inner {before after : List (List α)} {last first : List α}
    (h : IsConnective mark text)
    (hs : Joined outer (Joined mark Item) (before ++ [last]) s.toList)
    (ht : Joined outer (Joined mark Item) (first :: after) t.toList) :
    Joined outer (Joined mark Item) (before ++ (last ++ first) :: after)
      (s ++ text ++ t).toList := by
  obtain ⟨w, m, w', hw, hm, hw', htext⟩ := h
  simp only [String.toList_append, htext, List.append_assoc]
  exact hs.append_inner hw hm hw' ht

end Connective

namespace Engine

variable {e : Engine} {vars : Option Store} {limits : Limits}

/-! ## Answers and what is written -/

/-- A text that writes a condition is decided as this condition. -/
theorem conditional_of_written (h : Condition.Written p src.toList)
    (hbytes : src.utf8ByteSize ≤ e.limits.maxBytes)
    (hnest : Condition.nesting p ≤ e.limits.maxDepth) :
    (e.conditional src vars).answer = .ok (Condition.eval (vars.getD e.vars).lookup p).value := by
  have hnormal : Text.normalize src = src := Text.normalize_eq_self_iff.mpr h.isNormal
  rw [conditional_answer, hnormal, Condition.parse_eq_ok_iff.mpr ⟨hbytes, h, hnest⟩]
  rfl

/-- A text that is decided writes a condition. -/
theorem exists_written_of_conditional (hnormal : Text.normalize src = src)
    (h : (e.conditional src vars).answer = .ok x) :
    ∃ p, Condition.parse src e.limits = .ok p ∧ Condition.Written p src.toList ∧
      Condition.nesting p ≤ e.limits.maxDepth ∧
      (Condition.eval (vars.getD e.vars).lookup p).value = x := by
  rw [conditional_answer, hnormal, Parse.map_eq_ok_iff] at h
  obtain ⟨p, hparse, heval⟩ := h
  obtain ⟨-, hwritten, hnest⟩ := Condition.parse_eq_ok_iff.mp hparse
  exact ⟨p, hparse, hwritten, hnest, heval⟩

/-! ## Groups -/

/-- A text that writes groups joined by `&` is decided as all of what is in them, inverted where
there is an exclamation mark. -/
theorem conditional_of_groups (groups : List (Bool × Condition))
    (h : Conjunction.Written (groups.map fun g => .group g.1 g.2) src.toList)
    (hbytes : src.utf8ByteSize ≤ e.limits.maxBytes)
    (hnest : ∀ g ∈ groups, Condition.nesting g.2 < e.limits.maxDepth) :
    (e.conditional src vars).answer =
      .ok (groups.all fun g => (Condition.eval (vars.getD e.vars).lookup g.2).value != g.1) := by
  have hwritten : Condition.Written [groups.map fun g => .group g.1 g.2] src.toList := .one h
  rw [conditional_of_written hwritten hbytes (Condition.nesting_groups_le hnest),
    Condition.value_eval_singleton, Conjunction.value_eval_groups]

/-- A condition in parentheses, inverted if an exclamation mark stands before them. -/
theorem conditional_parenthesized {text : String} (inverted : Bool)
    (h : Condition.Written p src.toList) (hw : Blanks w.toList) (hw' : Blanks w'.toList)
    (htext : text.toList = bang inverted ++ (parenthesized w src w').toList)
    (hbytes : text.utf8ByteSize ≤ e.limits.maxBytes)
    (hnest : Condition.nesting p < e.limits.maxDepth) :
    (e.conditional text vars).answer =
      .ok ((Condition.eval (vars.getD e.vars).lookup p).value != inverted) := by
  have hgroup := h.parenthesized inverted hw hw'
  rw [← htext] at hgroup
  have hgroups : ∀ g ∈ [(inverted, p)], Condition.nesting g.2 < e.limits.maxDepth :=
    List.forall_mem_singleton.mpr hnest
  rw [conditional_of_groups [(inverted, p)] (.one hgroup) hbytes hgroups, List.all_cons,
    List.all_nil, Bool.and_true]

end Engine

/-- Conditions compose as logic says. Let two texts in normal form be decided, as `x` and `y`,
under some limits, and let the engine's own limits allow the whole text and one more level. Then
the first text in parentheses is decided as `x`, and with an exclamation mark as its negation;
both in parentheses with `&` between them as `x` and `y`; both as they are with `|` between them
as `x` or `y`. In this last case the tree has the terms of the first text and then those of the
second. With `&` between the texts as they are, the last term of the first and the first term of
the second become one. Every mark may be doubled, and blanks may stand around it and inside the
parentheses. -/
theorem conditions_compose (e : Engine) (vars : Option Store) (limits : Limits) (s t : String)
    (x y : Bool) (hs : Text.normalize s = s) (ht : Text.normalize t = t)
    (hx : (Engine.conditional { e with limits } s vars).answer = .ok x)
    (hy : (Engine.conditional { e with limits } t vars).answer = .ok y)
    (hdepth : limits.maxDepth < e.limits.maxDepth) :
    (∀ w w', Blanks w.toList → Blanks w'.toList →
      ((parenthesized w s w').utf8ByteSize ≤ e.limits.maxBytes →
        (e.conditional (parenthesized w s w') vars).answer = .ok x) ∧
      (("!" ++ parenthesized w s w').utf8ByteSize ≤ e.limits.maxBytes →
        (e.conditional ("!" ++ parenthesized w s w') vars).answer = .ok !x)) ∧
    (∀ w₁ w₂ w₃ w₄ both, Blanks w₁.toList → Blanks w₂.toList → Blanks w₃.toList →
      Blanks w₄.toList → IsConnective '&' both →
      let text := parenthesized w₁ s w₂ ++ both ++ parenthesized w₃ t w₄
      text.utf8ByteSize ≤ e.limits.maxBytes → (e.conditional text vars).answer = .ok (x && y)) ∧
    (∀ either, IsConnective '|' either → (s ++ either ++ t).utf8ByteSize ≤ e.limits.maxBytes →
      (e.conditional (s ++ either ++ t) vars).answer = .ok (x || y)) ∧
    ∃ p q, Condition.parse s limits = .ok p ∧ Condition.parse t limits = .ok q ∧
      (∀ either, IsConnective '|' either → (s ++ either ++ t).utf8ByteSize ≤ e.limits.maxBytes →
        Condition.parse (s ++ either ++ t) e.limits = .ok (p ++ q)) ∧
      ∃ before last first after, p = before ++ [last] ∧ q = first :: after ∧
        ∀ both, IsConnective '&' both → (s ++ both ++ t).utf8ByteSize ≤ e.limits.maxBytes →
          Condition.parse (s ++ both ++ t) e.limits =
            .ok (before ++ (last ++ first) :: after) := by
  obtain ⟨p, hp, hpwritten, hpnest, hpeval⟩ := Engine.exists_written_of_conditional hs hx
  obtain ⟨q, hq, hqwritten, hqnest, hqeval⟩ := Engine.exists_written_of_conditional ht hy
  have hp' : Condition.nesting p < e.limits.maxDepth := Nat.lt_of_le_of_lt hpnest hdepth
  have hq' : Condition.nesting q < e.limits.maxDepth := Nat.lt_of_le_of_lt hqnest hdepth
  have hor : ∀ either, IsConnective '|' either →
      Condition.Written (p ++ q) (s ++ either ++ t).toList :=
    fun _ heither => heither.joined hpwritten hqwritten
  have hornest : Condition.nesting (p ++ q) ≤ e.limits.maxDepth :=
    Condition.nesting_append_le (Nat.le_of_lt hp') (Nat.le_of_lt hq')
  refine ⟨?_, ?_, ?_, p, q, hp, hq, ?_, ?_⟩
  · intro w w' hw hw'
    constructor
    · intro hbytes
      rw [Engine.conditional_parenthesized false hpwritten hw hw' rfl hbytes hp', hpeval,
        Bool.bne_false]
    · intro hbytes
      have htext : ("!" ++ parenthesized w s w').toList =
          bang true ++ (parenthesized w s w').toList := String.toList_append
      rw [Engine.conditional_parenthesized true hpwritten hw hw' htext hbytes hp', hpeval,
        Bool.bne_true]
  · intro w₁ w₂ w₃ w₄ both hw₁ hw₂ hw₃ hw₄ hboth text hbytes
    have hwritten : Conjunction.Written [.group false p, .group false q] text.toList :=
      hboth.joined (.one (hpwritten.parenthesized false hw₁ hw₂))
        (.one (hqwritten.parenthesized false hw₃ hw₄))
    rw [Engine.conditional_of_groups [(false, p), (false, q)] hwritten hbytes (by simp [hp', hq'])]
    simp [hpeval, hqeval]
  · intro either heither hbytes
    rw [Engine.conditional_of_written (hor either heither) hbytes hornest,
      Condition.value_eval_append, hpeval, hqeval]
  · intro either heither hbytes
    exact Condition.parse_eq_ok_iff.mpr ⟨hbytes, hor either heither, hornest⟩
  · obtain ⟨before, last, rfl⟩ : ∃ before last, p = before ++ [last] :=
      ⟨_, _, (List.dropLast_append_getLast hpwritten.ne_nil).symm⟩
    obtain ⟨first, after, rfl⟩ := List.exists_cons_of_ne_nil hqwritten.ne_nil
    refine ⟨before, last, first, after, rfl, rfl, ?_⟩
    intro both hboth hbytes
    have hwritten : Condition.Written (before ++ (last ++ first) :: after)
        (s ++ both ++ t).toList := hboth.joined_inner hpwritten hqwritten
    have hnest : Condition.nesting (before ++ (last ++ first) :: after) ≤ e.limits.maxDepth :=
      Condition.nesting_append_inner_le (Nat.le_of_lt hp') (Nat.le_of_lt hq')
    exact Condition.parse_eq_ok_iff.mpr ⟨hbytes, hwritten, hnest⟩

/-- Texts that begin and end with marks of their own, and with operators between quotes. -/
theorem conditions_compose_marks :
    let e : Engine := { vars := Store.empty.set "a" (.str "|(&") }
    let s := "!b & a = \"|(&\" | c?"
    let t := "!(a) && -2 < -1"
    (e.conditional ("!" ++ parenthesized " " s "\t") none).answer = .ok false ∧
      (e.conditional (parenthesized "" s " " ++ " && " ++ parenthesized "\t" t "") none).answer =
        .ok false ∧
      (e.conditional (s ++ "||" ++ t) none).answer = .ok true := by
  intro e s t
  have hx : (Engine.conditional { e with limits := ⟨20, 1⟩ } s none).answer = .ok true := by
    decide +kernel
  have hy : (Engine.conditional { e with limits := ⟨20, 1⟩ } t none).answer = .ok false := by
    decide +kernel
  have hmain := conditions_compose e none ⟨20, 1⟩ s t true false (by decide +kernel)
    (by decide +kernel) hx hy (by decide)
  obtain ⟨hgroup, hboth, heither, -⟩ := hmain
  have hand : IsConnective '&' " && " :=
    ⟨[' '], ['&', '&'], [' '], by decide, .inr rfl, by decide, rfl⟩
  have hor : IsConnective '|' "||" := ⟨[], ['|', '|'], [], by decide, .inr rfl, by decide, rfl⟩
  exact ⟨(hgroup " " "\t" (by decide) (by decide)).2 (by decide +kernel),
    hboth "" " " "\t" "" " && " (by decide) (by decide) (by decide) (by decide) hand
      (by decide +kernel),
    heither "||" hor (by decide +kernel)⟩

end Stencil

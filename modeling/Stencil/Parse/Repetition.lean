/-
# Stencil.Parse.Repetition -- what `many` does, without its bound

`many` counts its rounds against the characters that are left. This module shows
that the count is never felt by a parser that reads at least one character whenever
it matches: repeating it is reading it once and then repeating it, or nothing
(`many_eq`).

The proof compares two repetitions with different bounds, both large enough, of
which one starts with something read already (`manyFrom_eq`).
-/
import Stencil.Parse.Parser

namespace Stencil.Parse

variable {α : Type}

/-- The answer of a repetition to which something read and missed before is added. -/
def Reply.continuing (read : List α) (missed : Frontier) : Reply (List α) → Reply (List α)
  | ⟨.matched as next, f⟩ => ⟨.matched (read.reverse ++ as) next, missed.merge f⟩
  | ⟨.failed, f⟩ => ⟨.failed, missed.merge f⟩
  | ⟨.tooDeep, f⟩ => ⟨.tooDeep, missed.merge f⟩

namespace Parser

/-- Round by round: if `I` is kept by every round, then the answer of a repetition is one of those
that end the rounds where `I` holds. -/
theorem manyFrom_induction {p : Parser α} {I : Cursor → List α → Frontier → Prop}
    {P : Reply (List α) → Prop}
    (hround : ∀ {c read missed a next f}, I c read missed →
      p.reply c = ⟨.matched a next, f⟩ → I next (a :: read) (missed.merge f))
    (hbound : ∀ {c read missed}, I c read missed → P ⟨.matched read.reverse c, missed⟩)
    (hfailed : ∀ {c read missed f}, I c read missed → p.reply c = ⟨.failed, f⟩ →
      P ⟨.matched read.reverse c, missed.merge f⟩)
    (hdeep : ∀ {c read missed f}, I c read missed → p.reply c = ⟨.tooDeep, f⟩ →
      P ⟨.tooDeep, missed.merge f⟩)
    (bound : List Char) {c : Cursor} {read : List α} {missed : Frontier} (h : I c read missed) :
    P (manyFrom p bound c read missed) := by
  induction bound generalizing c read missed with
  | nil =>
    unfold manyFrom
    split
    · rename_i a next f heq
      exact hbound (hround h heq)
    · rename_i f heq
      exact hfailed h heq
    · rename_i f heq
      exact hdeep h heq
  | cons x bound ih =>
    unfold manyFrom
    split
    · rename_i a next f heq
      exact ih (hround h heq)
    · rename_i f heq
      exact hfailed h heq
    · rename_i f heq
      exact hdeep h heq

/-- The parser reads at least one character whenever it matches. -/
def Advances (p : Parser α) : Prop :=
  ∀ c a next missed, p.reply c = ⟨.matched a next, missed⟩ →
    next.rest.length < c.rest.length

/-- Two large enough bounds lead to the same repetition, and what was read before
stands in front of it. -/
theorem manyFrom_eq {p : Parser α} (hp : p.Advances) (n : Nat) {c : Cursor}
    (hc : c.rest.length ≤ n) {bound bound' : List Char} (h : n ≤ bound.length)
    (h' : n ≤ bound'.length) (read : List α) (missed : Frontier) :
    manyFrom p bound c read missed =
      (manyFrom p bound' c [] .none).continuing read missed := by
  induction n generalizing c bound bound' read missed with
  | zero =>
    unfold manyFrom
    split
    · rename_i a next f heq
      have := hp c a next f heq
      omega
    · simp [Reply.continuing]
    · simp [Reply.continuing]
  | succ n ih =>
    unfold manyFrom
    split
    · rename_i a next f heq
      have hlt := hp c a next f heq
      cases bound with
      | nil => simp at h
      | cons x bound =>
        cases bound' with
        | nil => simp at h'
        | cons y bound' =>
          simp only [List.length_cons, Nat.add_le_add_iff_right] at h h'
          have hn : next.rest.length ≤ n := by omega
          simp only
          rw [ih hn h h (a :: read), ih hn h' h [a]]
          rcases manyFrom p bound next [] .none with ⟨_ | _ | _, g⟩ <;>
            simp [Reply.continuing, Frontier.merge_assoc]
    · simp [Reply.continuing]
    · simp [Reply.continuing]

/-- A repetition never fails, even if it ends the parse. -/
theorem manyFrom_outcome_ne_failed (p : Parser α) (bound : List Char) (c : Cursor)
    (read : List α) (missed : Frontier) :
    (manyFrom p bound c read missed).outcome ≠ .failed :=
  manyFrom_induction (I := fun _ _ _ => True) (P := fun r => r.outcome ≠ .failed)
    (fun _ _ => trivial) (fun _ => nofun) (fun _ _ => nofun) (fun _ _ => nofun) bound trivial

/-- To repeat an advancing parser is to read it once and repeat it, if it matches, and
to read nothing otherwise. -/
theorem many_eq {p : Parser α} (hp : p.Advances) :
    p.many = ((do return (← p) :: (← p.many)) <|> pure [] : Parser (List α)) := by
  ext1
  funext c
  show manyFrom p c.rest c [] .none = _
  unfold manyFrom
  simp only [reply_orElse, reply_bind, reply_pure]
  split
  · rename_i a next f heq
    have hlt := hp c a next f heq
    cases hr : c.rest with
    | nil => simp [hr] at hlt
    | cons x rest =>
      rw [hr, List.length_cons] at hlt
      have hn := Nat.le_refl next.rest.length
      have hne := manyFrom_outcome_ne_failed p next.rest next [] .none
      simp only [many]
      rw [manyFrom_eq hp _ hn (by omega) hn [a]]
      generalize manyFrom p next.rest next [] .none = r at hne
      rcases r with ⟨_ | _ | _, g⟩
      · simp [Reply.continuing, Reply.after]
      · exact absurd rfl hne
      · simp [Reply.continuing, Reply.after]
  · simp [Reply.after]
  · simp

end Parser

end Stencil.Parse

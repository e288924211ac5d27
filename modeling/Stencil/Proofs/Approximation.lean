/-
# Stencil.Proofs.Approximation -- what a greater depth changes

A parser with less depth left approximates one with more: at each place it either gives
up because of the nesting or gives the very same answer, notes included. That it gives up
is final, for no alternative is tried then. This is why the relation passes through every
combination of parsers, and why a text cannot be read in two ways under two depths.
-/
import Stencil.Proofs.Outcome
import Stencil.Template.Parser

namespace Stencil.Parse.Parser

variable {α β : Type}

/-- At each place, `p` gives up because of the nesting or answers as `q` does. -/
def Approximates (p q : Parser α) : Prop :=
  ∀ c, p.outcome c = .tooDeep ∨ p.reply c = q.reply c

variable {p q : Parser α}

/-! ## Combinations -/

theorem Approximates.refl (p : Parser α) : p.Approximates p := fun _ => .inr rfl

/-- The parser that only gives up approximates every other. -/
theorem tooDeep_approximates (p : Parser α) : tooDeep.Approximates p := fun _ => .inl rfl

theorem Approximates.map (h : p.Approximates q) (f : α → β) :
    (f <$> p).Approximates (f <$> q) := by
  intro c
  obtain hdeep | heq := h c
  · left
    rw [outcome_map, hdeep]
  · right
    rw [reply_map, reply_map, heq]

/-- In a sequence, either parser may give up; as long as none does, both sides are at one place. -/
theorem Approximates.bind {f g : α → Parser β} (h : p.Approximates q)
    (hf : ∀ a, (f a).Approximates (g a)) : (p >>= f).Approximates (q >>= g) := by
  intro c
  obtain hdeep | heq := h c
  · left
    rw [outcome_bind, hdeep]
  rw [outcome, reply_bind, reply_bind, heq]
  rcases q.reply c with ⟨⟨a, next⟩ | _ | _, missed⟩
  · obtain hdeep | heq := hf a next
    · exact .inl hdeep
    · right
      show ((f a).reply next).after missed = ((g a).reply next).after missed
      rw [heq]
  · exact .inr rfl
  · exact .inr rfl

/-- A first alternative that gives up leaves no second one to be tried, so that no other answer
takes the place of a missing one. -/
theorem Approximates.orElse {p' q' : Parser α} (h : p.Approximates q)
    (h' : p'.Approximates q') : (p <|> p').Approximates (q <|> q') := by
  intro c
  obtain hdeep | heq := h c
  · left
    rw [outcome_orElse, hdeep]
  rw [outcome, reply_orElse, reply_orElse, heq]
  rcases q.reply c with ⟨_ | _ | _, missed⟩
  · exact .inr rfl
  · obtain hdeep | heq := h' c
    · exact .inl hdeep
    · right
      show (p'.reply c).after missed = (q'.reply c).after missed
      rw [heq]
  · exact .inr rfl

theorem manyFrom_tooDeep {bound : List Char} {c : Cursor} {read : List α} {missed : Frontier}
    (h : p.outcome c = .tooDeep) : (manyFrom p bound c read missed).outcome = .tooDeep := by
  unfold manyFrom
  rw [outcome] at h
  rcases hp : p.reply c with ⟨_ | _ | _, f⟩ <;> simp [hp] at h ⊢

/-- A repetition gives up in its first round that does, and agrees in all the rounds before. -/
theorem manyFrom_approximates (h : p.Approximates q) (bound : List Char) (c : Cursor)
    (read : List α) (missed : Frontier) :
    (manyFrom p bound c read missed).outcome = .tooDeep ∨
      manyFrom p bound c read missed = manyFrom q bound c read missed := by
  -- round by round, for as long as both go on
  induction bound generalizing c read missed with
  | nil =>
    obtain hdeep | heq := h c
    · exact .inl (manyFrom_tooDeep hdeep)
    · right
      unfold manyFrom
      rw [heq]
  | cons x bound ih =>
    obtain hdeep | heq := h c
    · exact .inl (manyFrom_tooDeep hdeep)
    · unfold manyFrom
      rw [heq]
      rcases q.reply c with ⟨⟨a, next⟩ | _ | _, f⟩
      · exact ih next (a :: read) (missed.merge f)
      · exact .inr rfl
      · exact .inr rfl

theorem Approximates.many (h : p.Approximates q) : p.many.Approximates q.many := by
  intro c
  exact manyFrom_approximates h c.rest c [] .none

theorem Approximates.optional (h : p.Approximates q) : p.optional.Approximates q.optional :=
  (h.map _).orElse (.refl _)

/-! ## Conditions -/

theorem Approximates.enclosed (h : p.Approximates q) (close : String) :
    (enclosed p close).Approximates (enclosed q close) :=
  (Approximates.refl _).bind fun _ => h.bind fun _ => .refl _

/-- Items with marks between them are approximated if the item is. -/
theorem Approximates.joined (h : p.Approximates q) (mark : String) :
    (joined mark p).Approximates (joined mark q) := by
  have hround := (Approximates.refl blanks).bind fun _ => (Approximates.refl (token mark)).bind
    fun _ => (Approximates.refl (accept mark)).bind fun _ => (Approximates.refl blanks).bind
    fun _ => h
  exact h.bind fun _ => hround.many.bind fun _ => .refl _

theorem atom_approximates {inside inside' : Parser Condition} (h : inside.Approximates inside') :
    (atom inside).Approximates (atom inside') := by
  have hgroup : ∀ inverted, (group inside inverted).Approximates (group inside' inverted) :=
    fun _ => (Approximates.refl _).bind fun _ => h.bind fun _ => .refl _
  exact (Approximates.refl _).orElse
    ((Approximates.refl _).bind fun inverted => (Approximates.refl _).orElse (hgroup inverted))

/-- A condition depends on the depth only through what stands inside its groups. -/
theorem disjunction_approximates {inside inside' : Parser Condition}
    (h : inside.Approximates inside') : (disjunction inside).Approximates (disjunction inside') :=
  ((atom_approximates h).joined "&").joined "|"

/-- More depth changes no answer of a condition but that it nests too deeply. -/
theorem condition_approximates {n m : Nat} (h : n ≤ m) :
    (condition n).Approximates (condition m) := by
  induction n generalizing m with
  | zero =>
    cases m with
    | zero => exact .refl _
    | succ m => exact disjunction_approximates (tooDeep_approximates _)
  | succ n ih =>
    cases m with
    | zero => omega
    | succ m => exact disjunction_approximates ((ih (by omega)).enclosed ")")

/-! ## Templates -/

/-- A conditional depends on it through its tests and its bodies. -/
theorem chain_approximates {test test' : Parser Condition} {body body' : Parser Template}
    (ht : test.Approximates test') (hb : body.Approximates body') :
    (chain test body).Approximates (chain test' body') := by
  have hbranch : (branch test body).Approximates (branch test' body') :=
    (ht.enclosed _).bind fun _ => hb.bind fun _ => .refl _
  have hothers := ((Approximates.refl (token "\x7b|")).bind fun _ => hbranch).many
  have hlast := ((Approximates.refl (token "\x7b|\x7d")).bind fun _ => hb).optional
  exact hbranch.bind fun _ => hothers.bind fun _ => hlast.bind fun _ => .refl _

theorem nodes_approximates {inside inside' : Parser Chain} (h : inside.Approximates inside') :
    (many (node inside)).Approximates (many (node inside')) :=
  ((Approximates.refl literal).orElse ((Approximates.refl substitution).orElse
    ((Approximates.refl _).bind fun _ => h.map _))).many

/-- More depth changes no answer of a template but that it nests too deeply. -/
theorem template_approximates {n m : Nat} (h : n ≤ m) :
    (template n).Approximates (template m) := by
  induction n generalizing m with
  | zero =>
    cases m with
    | zero => exact .refl _
    | succ m => exact nodes_approximates (tooDeep_approximates _)
  | succ n ih =>
    cases m with
    | zero => omega
    | succ m =>
      exact nodes_approximates (chain_approximates (condition_approximates (by omega))
        (ih (by omega)))

end Stencil.Parse.Parser

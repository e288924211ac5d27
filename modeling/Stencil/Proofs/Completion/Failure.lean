/-
# Stencil.Proofs.Completion.Failure -- no failure without a note

A few readings fail without a word: a numeral too large to be a number, a word that goes
on as an identifier. None of them is the last alternative anywhere, and so whatever can be
asked for as a whole fails only with a note of something missing.

That a note is never lost again when notes are put together rests on frontiers without
notes being at the very start (`Solid`).
-/
import Stencil.Proofs.Completion.Assignment
import Stencil.Template.Parser

namespace Stencil.Parse.Parser

variable {α β : Type} {p q : Parser α} {c : Cursor}

/-- Without notes, the frontier is where it was at the start. -/
def Solid (p : Parser α) : Prop :=
  ∀ c, (p.reply c).frontier.wanted = [] → (p.reply c).frontier.place = 0

/-- The parser does not fail without a note. -/
def Reports (p : Parser α) : Prop :=
  ∀ c, p.outcome c = .failed → (p.reply c).frontier.wanted ≠ []

/-- Without notes, a frontier that can be completed is at the very start. -/
theorem Explains.solid {L : α → List Char → Prop} (h : p.Explains L) : p.Solid :=
  fun c => (h.completes c).place_eq_zero

theorem Silent.solid (h : p.Silent) : p.Solid := by
  intro c _
  rw [h c]
  rfl

theorem token_solid {s : String} (hs : '\'' ∉ s.toList) : (token s).Solid :=
  fun _ => (token_completes hs).place_eq_zero

/-! ## Combinations -/

/-- What never fails has nothing to report. -/
theorem reports_of_ne_failed (h : ∀ c, p.outcome c ≠ .failed) : p.Reports :=
  fun c hc => absurd hc (h c)

theorem reports_pure (a : α) : (pure a : Parser α).Reports :=
  reports_of_ne_failed fun _ => nofun

theorem Reports.map (h : p.Reports) (f : α → β) : (f <$> p).Reports := by
  intro c hfail
  have hp := h c (map_failed_iff.mp hfail)
  rw [map_failed_iff] at hfail
  rw [reply_map]
  unfold outcome at hfail
  generalize p.reply c = r at hp hfail
  rcases r with ⟨_ | _ | _, missed⟩ <;> exact hp

/-- In a sequence a failure of either part is reported: what takes the place of the later part's
notes is other notes, since without any the frontier of the earlier part is at the start. -/
theorem Reports.bind {f : α → Parser β} (h : p.Reports) (hsolid : p.Solid)
    (hf : ∀ a, (f a).Reports) : (p >>= f).Reports := by
  intro c hfail
  have hp := h c
  have hs := hsolid c
  rw [outcome, reply_bind] at hfail
  rw [reply_bind]
  unfold outcome at hp
  generalize p.reply c = r at hp hs hfail
  rcases r with ⟨⟨a, mid⟩ | _ | _, missed⟩
  · -- the notes of the later parser are put behind those of the earlier
    have hne := hf a mid hfail
    exact Frontier.merge_wanted_ne_nil hs (fun hnil => absurd hnil hne) (.inr hne)
  · exact hp rfl
  · cases hfail

/-- Of two alternatives, it is enough that the last reports its failures and the first is solid. -/
theorem Reports.orElse (h : q.Reports) (hsolid : p.Solid) : (p <|> q).Reports := by
  intro c hfail
  have hs := hsolid c
  rw [outcome, reply_orElse] at hfail
  rw [reply_orElse]
  generalize p.reply c = r at hs hfail
  rcases r with ⟨⟨a, mid⟩ | _ | _, missed⟩
  · cases hfail
  · have hne := h c hfail
    exact Frontier.merge_wanted_ne_nil hs (fun hnil => absurd hnil hne) (.inr hne)
  · cases hfail

/-- A repetition never fails, however its last round did. -/
theorem many_pure_reports (f : List α → β) : (do return f (← many p) : Parser β).Reports := by
  refine reports_of_ne_failed fun c => ?_
  have hne := many_ne_failed (p := p) (c := c)
  rw [outcome_bind]
  cases hm : p.many.outcome c with
  | matched as next => nofun
  | failed => exact absurd hm hne
  | tooDeep => nofun

/-! ## Lexemes -/

theorem blanks_reports : blanks.Reports := reports_of_ne_failed fun _ => nofun

theorem token_reports (s : String) : (token s).Reports := by
  intro c hfail
  rw [outcome, token] at hfail
  rw [token]
  simp only at hfail ⊢
  split
  · rename_i heq
    rw [heq] at hfail
    cases hfail
  · simp [want, Frontier.missing]

/-- An identifier is missed at its first character only. -/
theorem identifier_reports : identifier.Reports := by
  have hone : (one .identifier isNameStart).Reports := by
    rintro ⟨place, _ | ⟨x, rest⟩⟩ hfail
    · simp [one, want, Frontier.missing]
    · rw [outcome, one] at hfail
      rw [one]
      by_cases hx : isNameStart x = true
      · simp [hx] at hfail
      · simp [hx, want, Frontier.missing]
  have hsolid : (one .identifier isNameStart).Solid :=
    fun _ => (one_completes (e := .identifier) (Named.identifier isName_a).begins).place_eq_zero
  refine hone.bind hsolid fun x => ?_
  apply reports_of_ne_failed
  intro c hfail
  cases hfail

/-! ## Value expressions and assignment lists -/

/-- What completes a sum does not matter here, so that no care is needed with the words for truth
values. -/
theorem arithmetic_solid : arithmetic.Solid := by
  intro c
  have hbinary : (binary term additive).Completes c (fun _ => True) c :=
    binary_completes term_explains additive_explains (.lookup isName_a)
      (term_completes.imp fun _ _ => trivial) (by intros; trivial)
  have harithmetic : arithmetic.Completes c (fun _ => True) c := completes_return hbinary
  exact harithmetic.place_eq_zero

theorem expression_reports : expression.Reports := by
  have htruth : (Expression.truth <$> truth).Solid :=
    fun _ => (completes_map truth_completes).place_eq_zero
  have hnumber : (Operand.number <$> number).Solid :=
    fun _ => (completes_map number_completes).place_eq_zero
  have htext : (Operand.text <$> quotedText).Solid :=
    fun _ => (completes_map quotedText_completes).place_eq_zero
  have hoperand := (((identifier_reports.map Operand.lookup).orElse htext).orElse hnumber).map
    Expression.operand
  -- identifiers are tried last, and without one a note is left
  exact (hoperand.orElse arithmetic_solid).orElse htruth

theorem assignment_reports : assignment.Reports := by
  have hidentifier : identifier.Solid := fun _ => identifier_completes.place_eq_zero
  refine identifier_reports.bind hidentifier fun name => ?_
  refine blanks_reports.bind silent_blanks.solid fun _ => ?_
  refine (token_reports _).bind (token_solid (by simp)) fun _ => ?_
  refine blanks_reports.bind silent_blanks.solid fun _ => ?_
  refine expression_reports.bind expression_explains.solid fun value => ?_
  exact blanks_reports.bind silent_blanks.solid fun _ => reports_pure _

/-- Assignment lists fail in their first line only. -/
theorem assignments_reports : assignments.Reports := by
  refine assignment_reports.bind assignment_explains.solid fun a => ?_
  exact many_pure_reports _

/-! ## Conditions -/

theorem joined_reports {item : Parser α} (h : item.Reports) (hsolid : item.Solid)
    (mark : String) : (joined mark item).Reports := by
  rw [joined_eq]
  refine h.bind hsolid fun a => ?_
  exact many_pure_reports _

theorem enclosed_reports {inner : Parser α} (h : inner.Reports) (hsolid : inner.Solid)
    {close : String} (hclose : '\'' ∉ close.toList) : (enclosed inner close).Reports := by
  refine blanks_reports.bind silent_blanks.solid fun _ => ?_
  refine h.bind hsolid fun a => ?_
  refine blanks_reports.bind silent_blanks.solid fun _ => ?_
  exact (token_reports close).bind (token_solid hclose) fun _ => reports_pure a

/-- Of the forms a test can have, a group is tried last, and without one its parenthesis is
noted. -/
theorem atom_reports {inside : Parser Condition} (h : inside.Reports) (hsolid : inside.Solid) :
    (atom inside).Reports := by
  have hcomparing : comparing.Solid := fun _ => comparing_completes.place_eq_zero
  have hpresence : ∀ inverted, (presence inverted).Solid :=
    fun _ _ => presence_completes.place_eq_zero
  have hgroup : ∀ inverted, (group inside inverted).Reports := by
    intro inverted
    refine (token_reports _).bind (token_solid (by simp)) fun _ => ?_
    exact h.bind hsolid fun _ => reports_pure _
  have hrest : (do let inverted ← accept "!"
                   presence inverted <|> group inside inverted : Parser Atom).Reports := by
    have haccept : (accept "!").Reports := by
      refine reports_of_ne_failed fun c => ?_
      simp only [outcome, accept]
      split <;> simp
    exact haccept.bind (silent_accept _).solid fun inverted =>
      (hgroup inverted).orElse (hpresence inverted)
  exact hrest.orElse hcomparing

theorem disjunction_reports {inside : Parser Condition} {n : Nat}
    (hinside : inside.Reads (InGroup n) (fun _ => True))
    (hcompletes : ∀ c, inside.Completes c (fun s => ∃ t, Enclosed Condition.Written ')' t s) c)
    (h : inside.Reports) : (disjunction inside).Reports := by
  have hsolid : inside.Solid := fun c => (hcompletes c).place_eq_zero
  have hatom := (atom_explains hinside hcompletes).solid
  have hconjunction := (conjunction_explains hinside hcompletes).solid
  exact joined_reports (joined_reports (atom_reports h hsolid) hatom "&") hconjunction "|"

/-- Conditions do not fail without a note, at any number of levels. -/
theorem condition_reports (n : Nat) : (condition n).Reports := by
  induction n with
  | zero =>
    exact disjunction_reports tooDeep_reads_inGroup (fun _ => Frontier.completable_none)
      (reports_of_ne_failed fun _ => nofun)
  | succ n ih =>
    have hexplains := condition_explains n
    exact disjunction_reports (group_reads (condition_reads n))
      (enclosed_explains hexplains rfl (by decide)).completes
      (enclosed_reports ih hexplains.solid (by simp))

/-- A template does not fail at all. -/
theorem template_ne_failed (n : Nat) : (template n).outcome c ≠ .failed := by
  cases n with
  | zero => exact many_ne_failed
  | succ n => exact many_ne_failed (p := node _)

end Stencil.Parse.Parser

/-
# Stencil.Proofs.Limits -- what the limits on a parse do

A text that is too long is not read at all. Of every other text the limit on nesting
decides one thing only: whether the result is the one that a sufficient depth gives, or
the error that names the limit. A tree is kept exactly if it nests no deeper than the
limit, whatever was tried and given up on the way to it.

Two facts carry this. Less depth approximates more (`Stencil.Proofs.Approximation`), so
that a result under one depth is the result under every greater one; and a depth as
great as the text is long is sufficient (`Stencil.Proofs.Sufficiency`). That the limit
strikes no tree which fits it is the exactness of the grammar at every depth.
-/
import Stencil.Proofs.Goal

namespace Stencil.Parse

variable {α : Type}

/-- The cause of a failure that is the text's own, and not a limit's. -/
def Cause.IsMismatch : Cause → Prop
  | .mismatch _ _ _ => True
  | _ => False

/-! ## Whole texts under two depths -/

namespace Parser

theorem whole_of_tooDeep {p : Parser α} {n : Nat} {text : List Char}
    (h : p.outcome ⟨0, text⟩ = .tooDeep) : p.whole n text = .error (.tooDeep n) :=
  whole_eq_error_iff.mpr (.inl ⟨h, rfl⟩)

theorem whole_isMismatch {p : Parser α} {n : Nat} {text : List Char} {cause : Cause}
    (hne : p.outcome ⟨0, text⟩ ≠ .tooDeep) (h : p.whole n text = .error cause) :
    cause.IsMismatch := by
  obtain ⟨hdeep, -⟩ | ⟨-, rfl⟩ | ⟨a, next, -, -, rfl⟩ := whole_eq_error_iff.mp h
  · exact absurd hdeep hne
  · trivial
  · trivial

theorem Approximates.whole {p q : Parser α} (h : p.Approximates q) (n m : Nat) (text : List Char) :
    p.whole n text = .error (.tooDeep n) ∨ p.whole n text = q.whole m text := by
  by_cases hdeep : p.outcome ⟨0, text⟩ = .tooDeep
  · exact .inl (whole_of_tooDeep hdeep)
  · right
    obtain hdeep' | heq := h ⟨0, text⟩
    · exact absurd hdeep' hdeep
    · rw [outcome, heq] at hdeep
      rw [Parser.whole, Parser.whole, heq]
      rcases hq : q.reply ⟨0, text⟩ with ⟨_ | _ | _, missed⟩
      · rfl
      · rfl
      · rw [hq] at hdeep
        exact absurd rfl hdeep

end Parser

/-! ## Parses under two limits -/

namespace Goal

variable {goal : Goal} {src : String}

theorem parse_agrees (limits larger : Limits) (hsmall : src.utf8ByteSize ≤ limits.maxBytes)
    (hlarge : src.utf8ByteSize ≤ larger.maxBytes) (hdepth : limits.maxDepth ≤ larger.maxDepth) :
    goal.parse src limits = .error ⟨goal, src, .tooDeep limits.maxDepth⟩ ∨
      goal.parse src limits = goal.parse src larger := by
  rw [parse_of_le hsmall, parse_of_le hlarge]
  obtain hdeep | heq := (goal.parser_approximates hdepth).whole limits.maxDepth
    larger.maxDepth src.toList
  · left
    rw [hdeep]
    rfl
  · right
    rw [heq]

/-- Under a sufficient depth, a text fails only because of itself. -/
theorem parse_isMismatch (limits : Limits) (hbytes : src.utf8ByteSize ≤ limits.maxBytes)
    (hdepth : src.utf8ByteSize ≤ limits.maxDepth) {f : Failure}
    (h : goal.parse src limits = .error f) :
    f.goal = goal ∧ f.text = src ∧ f.cause.IsMismatch := by
  obtain ⟨hgoal, htext, hw⟩ := (parse_eq_error_iff hbytes).mp h
  have hlen := length_le_utf8ByteSize src
  have hne : (goal.parser limits.maxDepth).outcome ⟨0, src.toList⟩ ≠ .tooDeep :=
    goal.parser_ne_tooDeep (by show src.toList.length ≤ _; omega)
  exact ⟨hgoal, htext, Parser.whole_isMismatch hne hw⟩

/-- What the limit on nesting makes of a tree that a sufficient depth gives. -/
theorem parse_of_parse_ok {limits : Limits} {depth : Nat} {t : goal.Tree}
    (h : goal.parse src { limits with maxDepth := depth } = .ok t) :
    goal.parse src limits = if goal.nesting t ≤ limits.maxDepth then .ok t
      else .error ⟨goal, src, .tooDeep limits.maxDepth⟩ := by
  obtain ⟨hbytes, ht, hn⟩ := parse_eq_ok_iff.mp h
  split
  · rename_i hfits
    exact parse_eq_ok_iff.mpr ⟨hbytes, ht, hfits⟩
  · rename_i hdeep
    have hle : limits.maxDepth ≤ depth := by
      have : goal.nesting t ≤ depth := hn
      omega
    obtain hlimit | heq := parse_agrees limits { limits with maxDepth := depth } hbytes hbytes hle
    · exact hlimit
    · -- a tree that does not fit the limit was not given under it
      rw [h] at heq
      exact absurd (parse_eq_ok_iff.mp heq).2.2 hdeep

/-- What the limit on nesting makes of a text that fails by itself. -/
theorem parse_of_parse_error {limits : Limits} {depth : Nat}
    (hbytes : src.utf8ByteSize ≤ limits.maxBytes)
    (hdepth : src.utf8ByteSize ≤ depth) {f : Failure}
    (h : goal.parse src { limits with maxDepth := depth } = .error f) :
    goal.parse src limits = .error f ∨
      goal.parse src limits = .error ⟨goal, src, .tooDeep limits.maxDepth⟩ := by
  obtain hle | hle := Nat.le_total limits.maxDepth depth
  · obtain hlimit | heq := parse_agrees limits { limits with maxDepth := depth } hbytes hbytes hle
    · exact .inr hlimit
    · exact .inl (heq.trans h)
  · obtain hlimit | heq := parse_agrees { limits with maxDepth := depth } limits hbytes hbytes hle
    · -- a sufficient depth is not a limit
      have hmismatch := parse_isMismatch { limits with maxDepth := depth } hbytes hdepth hlimit
      exact hmismatch.2.2.elim
    · exact .inl (heq.symm.trans h)

theorem parse_error_stays {limits : Limits} {depth : Nat} {f : Failure}
    (hbytes : src.utf8ByteSize ≤ limits.maxBytes)
    (hdepth : limits.maxDepth ≤ depth) (hf : f.cause.IsMismatch)
    (h : goal.parse src limits = .error f) :
    goal.parse src { limits with maxDepth := depth } = .error f := by
  obtain hlimit | heq := parse_agrees limits { limits with maxDepth := depth } hbytes hbytes hdepth
  · rw [h, Except.error.injEq] at hlimit
    rw [hlimit] at hf
    exact hf.elim
  · exact heq.symm.trans h

end Goal

/-- The limits decide whether a text is read and how deeply it may nest, and nothing else. A
text over the limit of bytes fails for that reason alone. For every other text, a tree that
a sufficient depth gives is given exactly if it fits the limit, and a mismatch that a
sufficient depth gives is given as it is or hidden by the limit, from some depth on never
again. So greater limits change no result but the error that names one of them. -/
theorem parse_under_limits (goal : Goal) (src : String) (limits : Limits) :
    (limits.maxBytes < src.utf8ByteSize →
      goal.parse src limits =
        .error ⟨goal, src, .inputTooLong src.utf8ByteSize limits.maxBytes⟩) ∧
    (src.utf8ByteSize ≤ limits.maxBytes → ∀ depth, src.utf8ByteSize ≤ depth →
      (∀ t, goal.parse src { limits with maxDepth := depth } = .ok t →
        goal.parse src limits = if goal.nesting t ≤ limits.maxDepth then .ok t
          else .error ⟨goal, src, .tooDeep limits.maxDepth⟩) ∧
      ∀ f, goal.parse src { limits with maxDepth := depth } = .error f →
        (f.goal = goal ∧ f.text = src ∧ f.cause.IsMismatch) ∧
        (goal.parse src limits = .error f ∨
          goal.parse src limits = .error ⟨goal, src, .tooDeep limits.maxDepth⟩) ∧
        (goal.parse src limits = .error f → ∀ deeper, limits.maxDepth ≤ deeper →
          goal.parse src { limits with maxDepth := deeper } = .error f)) ∧
    ∀ larger : Limits, limits.maxBytes ≤ larger.maxBytes → limits.maxDepth ≤ larger.maxDepth →
      goal.parse src larger = goal.parse src limits ∨
        goal.parse src limits =
          .error ⟨goal, src, .inputTooLong src.utf8ByteSize limits.maxBytes⟩ ∨
        goal.parse src limits = .error ⟨goal, src, .tooDeep limits.maxDepth⟩ := by
  refine ⟨Goal.parse_of_lt, ?_, ?_⟩
  · intro hbytes depth hdepth
    refine ⟨fun t => Goal.parse_of_parse_ok, ?_⟩
    intro f hf
    have hmismatch := Goal.parse_isMismatch { limits with maxDepth := depth } hbytes hdepth hf
    refine ⟨hmismatch, Goal.parse_of_parse_error hbytes hdepth hf, ?_⟩
    intro h deeper hdeeper
    exact Goal.parse_error_stays hbytes hdeeper hmismatch.2.2 h
  · -- greater limits
    intro larger hbytes hdepth
    obtain hlong | hfits := Nat.lt_or_ge limits.maxBytes src.utf8ByteSize
    · exact .inr (.inl (Goal.parse_of_lt hlong))
    · obtain hdeep | heq := Goal.parse_agrees limits larger hfits (Nat.le_trans hfits hbytes) hdepth
      · exact .inr (.inr hdeep)
      · exact .inl heq.symm

theorem parse_under_limits_groups :
    Goal.condition.parse "((a))" ⟨5, 1⟩ = .error ⟨.condition, "((a))", .tooDeep 1⟩ ∧
      Goal.condition.parse "((a))" ⟨4, 5⟩ = .error ⟨.condition, "((a))", .inputTooLong 5 4⟩ := by
  have hdeep := (parse_under_limits .condition "((a))" ⟨5, 1⟩).2.1 (by decide) 5 (by decide)
  have hlong := (parse_under_limits .condition "((a))" ⟨4, 5⟩).1 (by decide)
  exact ⟨hdeep.1 [[.group false [[.group false [[.present false "a"]]]]]] rfl, hlong⟩

end Stencil.Parse

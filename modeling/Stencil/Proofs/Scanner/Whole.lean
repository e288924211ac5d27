/-
# Stencil.Proofs.Scanner.Whole -- whole texts in place

Assignments perform their parsers, and with them every goal. A parse in place of a whole text
therefore ends, cuts through no character and answers what the parse of the text answers: what
the message of a mismatch speaks of is the same place, in bytes where the parser counts
characters.
-/
import Stencil.Proofs.Diagnosis
import Stencil.Proofs.Scanner.Template

namespace Stencil.Scanner

open Parse

variable {α : Type} {k n : Nat} {φ : Failing} {m : Rule α} {p : Parser α} {σ τ : State}

/-! ## Assignments -/

theorem performs_assignment : Performs k 1 .anywhere assignment Parser.assignment :=
  (performs_identifier.bind fun name => performs_blanks.bind fun _ =>
    (performs_eat ":").bind fun _ => performs_blanks.bind fun _ =>
      performs_expression.bind fun value => performs_blanks.bind fun _ =>
        performs_pure (⟨name, value⟩ : Assignment)).weaken (by omega) (.inr rfl)

/-- Every round reads a line end first, so the rounds come to an end. -/
theorem performs_otherLines :
    Performs k 0 .never (rounds (eat "\n") fun _ => perhaps (attempt assignment))
      Parser.nextLine.many :=
  (performs_eat "\n").rounds (fun _ => performs_assignment.attempt.perhaps) (by decide)

/-- Lines do not nest, so the number of levels does not matter. -/
theorem performs_assignments : Performs k 1 .anywhere assignments Parser.assignments :=
  (performs_assignment.bind fun first => performs_otherLines.bind fun others =>
    performs_pure (first :: others.filterMap id)).weaken (by omega) (.inr rfl)

/-- Every rule does what its parser says, at any number of levels. -/
theorem performs_rule (goal : Goal) (k : Nat) :
    Performs k 0 .anywhere (rule goal) (goal.parser k) := by
  cases goal with
  | template => exact performs_template.weaken (Nat.zero_le _) (.inr rfl)
  | condition => exact performs_condition.weaken (Nat.zero_le _) (.inr rfl)
  | expression => exact performs_expression.weaken (Nat.zero_le _) (.inr rfl)
  | assignments => exact performs_assignments.weaken (Nat.zero_le _) (.inr rfl)

/-! ## Whole texts -/

/-- Where the text can be cut, notes in bytes report the mismatch of the notes in characters. -/
theorem mismatch?_eq {f : Frontier} (hbound : IsBoundary τ.text τ.furthest)
    (hnotes : τ.notes = f.inBytes τ.text) : τ.mismatch? = some (f.mismatch τ.text) := by
  obtain ⟨before, after, htext, hfurthest⟩ := hbound
  have hplace : byteOffset τ.text f.place = byteOffset τ.text before.length := by
    have hbytes : τ.furthest = byteOffset τ.text f.place := congrArg Frontier.place hnotes
    rw [← hbytes, hfurthest, htext, byteOffset_append]
  have hwanted : τ.wanted = f.wanted := congrArg Frontier.wanted hnotes
  rw [State.mismatch?, splitBytes?_eq_some_iff.mpr ⟨htext, hfurthest⟩, Frontier.mismatch, htext,
    byteOffset_inj hplace, List.take_left, List.drop_left, hwanted]
  rfl

/-- A scan starts where its parser does. -/
theorem standsAt_start (text : List Char) (limits : Limits) :
    (State.start text limits).StandsAt ⟨0, text⟩ := ⟨[], Cursor.spans_nil _, rfl⟩

/-- Nothing is left just where the position has reached the end. -/
theorem byteLength_le_position_iff {c : Cursor} (hc : σ.StandsAt c) :
    byteLength σ.text ≤ σ.position ↔ c.rest = [] := by
  obtain ⟨before, ⟨hrest, -⟩, hpos⟩ := hc
  have htext : σ.text = before ++ c.rest := hrest
  rw [htext, hpos, byteLength_append]
  constructor
  · intro hle
    have hlen := length_le_byteLength c.rest
    exact List.eq_nil_of_length_eq_zero (by omega)
  · intro hnil
    simp [hnil, byteLength]

theorem whole_on_end {a : α} {c : Cursor} (hon : m.on σ = some (some a, τ)) (hc : τ.StandsAt c)
    (hend : c.rest = []) : (whole m).on σ = some (some a, τ) := by
  have hdone := (byteLength_le_position_iff hc).mpr hend
  rw [whole, on_bind_of_some hon, on_bind_of_some (on_atEnd τ), if_pos (decide_eq_true hdone),
    on_pure]

/-- Where something is left, the end of the text is noted as missing. -/
theorem whole_on_rest {a : α} {c : Cursor} (hon : m.on σ = some (some a, τ)) (hc : τ.StandsAt c)
    (hrest : c.rest ≠ []) : (whole m).on σ = some (none, τ.noting .endOfInput) := by
  have hmore : ¬ byteLength τ.text ≤ τ.position := mt (byteLength_le_position_iff hc).mp hrest
  rw [whole, on_bind_of_some hon, on_bind_of_some (on_atEnd τ), if_neg (by simpa using hmore)]
  exact missing_on .endOfInput τ

/-- Whatever happens at the end, the flag stays set. -/
theorem whole_on_tooDeep {r : Option α} {c : Cursor} (hon : m.on σ = some (r, τ))
    (hc : τ.StandsAt c) (hdeep : τ.tooDeep = true) :
    ∃ r' υ, (whole m).on σ = some (r', υ) ∧ υ.tooDeep = true ∧ υ.limits = τ.limits := by
  cases r with
  | none => exact ⟨none, τ, on_bind_of_none hon, hdeep, rfl⟩
  | some a =>
    by_cases hend : c.rest = []
    · exact ⟨some a, τ, whole_on_end hon hc hend, hdeep, rfl⟩
    · exact ⟨none, τ.noting .endOfInput, whole_on_rest hon hc hend, hdeep, rfl⟩

/-- Once the flag is set, nothing else is answered. -/
theorem answer?_of_tooDeep {r : Option α} (h : σ.tooDeep = true) :
    σ.answer? r = some (.error (.tooDeep σ.limits.maxDepth)) := by
  simp [State.answer?, h]

theorem answer?_some {a : α} (h : σ.tooDeep = false) : σ.answer? (some a) = some (.ok a) := by
  simp [State.answer?, h]

/-- A rule that fails answers with the mismatch of its notes. -/
theorem answer?_none {f : Frontier} (h : σ.tooDeep = false)
    (hbound : IsBoundary σ.text σ.furthest) (hnotes : σ.notes = f.inBytes σ.text) :
    σ.answer? (none : Option α) = some (.error (f.mismatch σ.text)) := by
  simp [State.answer?, h, mismatch?_eq hbound hnotes]

/-- A rule that has to leave nothing answers what its parser answers for the whole text. -/
theorem Performs.whole {limits : Limits} (h : Performs limits.maxDepth n φ m p)
    (text : List Char) :
    ((whole m).on (.start text limits)).bind (fun (r, σ) => σ.answer? r) =
      some (p.whole limits.maxDepth text) := by
  obtain ⟨r, τ, hon, hl⟩ := h _ _ (standsAt_start text limits) rfl
  have ht := hl.tells rfl
  have htext : τ.text = text := hl.reaches.text
  have hlimits : τ.limits = limits := hl.reaches.limits
  have hbound := hl.reaches.furthestBoundary ⟨[], text, rfl, rfl⟩
  have hfresh : (State.start text limits).notes = .none := rfl
  obtain ⟨c, hc⟩ := State.onBoundary_iff.mp hl.reaches.onBoundary
  rw [Parser.whole]
  generalize p.reply ⟨0, text⟩ = reply at ht
  rcases reply with ⟨⟨a, next⟩ | _ | _, missed⟩
  · obtain ⟨rfl, hnext, hflag, hnotes⟩ := ht
    have hmissed : τ.notes = missed.inBytes text := by
      rw [hnotes, hfresh, Frontier.none_merge]
      rfl
    by_cases hend : next.rest = []
    · rw [whole_on_end hon hnext hend]
      simp [answer?_some hflag, hend]
    · have hrecord : (τ.noting .endOfInput).notes =
          (missed.record next.place .endOfInput).inBytes (τ.noting .endOfInput).text := by
        show _ = (missed.merge _).inBytes τ.text
        rw [Frontier.inBytes_merge, inBytes_missing hnext, htext, ← hmissed, State.notes_noting]
        rfl
      have hreaches := State.Reaches.noting hnext.onBoundary .endOfInput
      have hanswer : (τ.noting .endOfInput).answer? (none : Option α) = _ :=
        answer?_none hflag (hreaches.furthestBoundary hbound) hrecord
      rw [whole_on_rest hon hnext hend]
      simp only [Option.bind_some, hanswer, List.isEmpty_iff, hend, ↓reduceIte]
      rw [hreaches.text, htext]
  · obtain ⟨rfl, hflag, hnotes⟩ := ht
    rw [hfresh, Frontier.none_merge] at hnotes
    rw [Scanner.whole, on_bind_of_none hon]
    simp [answer?_none hflag hbound (htext ▸ hnotes), htext]
  · obtain ⟨r', υ, hwhole, hdeep, hsame⟩ := whole_on_tooDeep hon hc ht
    rw [hwhole]
    simp [answer?_of_tooDeep hdeep, hsame, hlimits]

/-- A parse in place ends and answers what the parse of the text answers. -/
theorem parse_eq (goal : Goal) (src : String) (limits : Limits) :
    parse goal src limits = some (goal.parse src limits) := by
  rw [parse]
  by_cases hlen : limits.maxBytes < src.utf8ByteSize
  · rw [if_pos hlen, Goal.parse_of_lt hlen]
    rfl
  · rw [if_neg hlen, Goal.parse_of_le (Nat.not_lt.mp hlen),
      (performs_rule goal limits.maxDepth).whole]
    rfl

end Stencil.Scanner

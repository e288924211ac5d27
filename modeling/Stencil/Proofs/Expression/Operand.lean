/-
# Stencil.Proofs.Expression.Operand -- operands and operators as they are read

The parsers of operators and operands read the written forms. The spellings of a table
are tried in its order, and none of them hides a later one unless it goes on where the
later one ends (`TriedBefore`). In the table of comparisons this takes a `=`, so a
comparison operator is complete in front of anything else; an operand is complete in
front of what cannot go on with a name or a numeral.

`binary` puts these together once, for comparisons and for arithmetic alike.
-/
import Stencil.Expression.Parser
import Stencil.Proofs.Expression.Written

namespace Stencil

open Parse

/-! ## First characters -/

/-- What an operator begins with. -/
def isOperatorStart (x : Char) : Bool :=
  ['<', '>', '=', '≤', '≥', '≠', '!', '+', '-'].contains x

/-- What can go on with an operand. -/
def isOperandRest (x : Char) : Bool := isNameRest x || x == '.'

/-- What a variable or a number begins with. -/
def isTermStart (x : Char) : Bool := isNameStart x || x.isDigit || x == '-'

/-- What an operand begins with. -/
def isOperandStart (x : Char) : Bool := isNameStart x || x.isDigit || x == '-' || x == '"'

theorem operandRest_of_blank {x : Char} (h : Text.isBlank x = true) : isOperandRest x = false := by
  simp only [Text.isBlank, Bool.or_eq_true, beq_iff_eq] at h
  rcases h with rfl | rfl <;> decide

theorem operandStart_of_blank {x : Char} (h : Text.isBlank x = true) :
    isOperandStart x = false := by
  simp only [Text.isBlank, Bool.or_eq_true, beq_iff_eq] at h
  rcases h with rfl | rfl <;> decide

theorem operandStart_not_blank {x : Char} (h : isOperandStart x = true) :
    Text.isBlank x = false := by
  cases hb : Text.isBlank x with
  | false => rfl
  | true => rw [operandStart_of_blank hb] at h; cases h

/-- No name begins with a digit. -/
theorem nameStart_of_digit {x : Char} (h : x.isDigit = true) : isNameStart x = false := by
  have h' : (decide (x.val ≥ 48) && decide (x.val ≤ 57)) = true := h
  show (decide (x.val ≥ 65 ∧ x.val ≤ 90) || (decide (x.val ≥ 97) && decide (x.val ≤ 122))) = false
  simp only [Bool.and_eq_true, decide_eq_true_eq, Bool.or_eq_false_iff, Bool.and_eq_false_iff,
    decide_eq_false_iff_not, ge_iff_le, UInt32.le_iff_toNat_le, UInt32.reduceToNat] at h' ⊢
  omega

/-- No name begins with what a numeral begins with. -/
theorem nameStart_of_numeralStart {x : Char} (h : (x.isDigit || x == '-') = true) :
    isNameStart x = false := by
  rcases (Bool.or_eq_true ..).mp h with h | h
  · exact nameStart_of_digit h
  · rw [beq_iff_eq.mp h]
    decide

section Clear

variable {s rest : List Char}

/-- What does not go on with an operand goes on with no name, and with no numeral either. -/
theorem Clear.nameRest (h : Clear isOperandRest rest) : Clear isNameRest rest :=
  h.imp (by simp +contextual [isOperandRest])

theorem Clear.numeralRest (h : Clear isOperandRest rest) : Clear isNumeralRest rest := by
  apply h.imp
  simp +contextual [isOperandRest, isNumeralRest, isNameRest, Char.isAlphanum, or_imp]

/-- Where no operand begins, no variable or number does. -/
theorem Clear.termStart (h : Clear isOperandStart rest) : Clear isTermStart rest :=
  h.imp (by simp +contextual [isOperandStart, isTermStart])

theorem Clear.nameStart (h : Clear isTermStart rest) : Clear isNameStart rest :=
  h.imp (by simp +contextual [isTermStart])

theorem Clear.numeralStart (h : Clear isTermStart rest) :
    Clear (fun x => x.isDigit || x == '-') rest :=
  h.imp (by simp +contextual [isTermStart, or_imp])

theorem Numeral.clear_nameStart (h : Numeral s) (rest : List Char) :
    Clear isNameStart (s ++ rest) :=
  (h.leads.append rest).clear fun _ => nameStart_of_numeralStart

theorem IsQuoted.clear_termStart {body : String} (h : IsQuoted body s) (rest : List Char) :
    Clear isTermStart (s ++ rest) := by
  refine (h.leads.append rest).clear ?_
  intro x hx
  rw [beq_iff_eq.mp hx]
  rfl

end Clear

theorem operatorStart_not_blank {x : Char} (h : isOperatorStart x = true) :
    Text.isBlank x = false := by
  have hall : ['<', '>', '=', '≤', '≥', '≠', '!', '+', '-'].any Text.isBlank = false := by decide
  exact Bool.eq_false_iff.mpr (List.any_eq_false.mp hall x (List.contains_iff_mem.mp h))

/-- An operator may stand directly behind an operand: nothing it begins with goes on with one. -/
theorem operatorStart_not_operandRest {x : Char} (h : isOperatorStart x = true) :
    isOperandRest x = false := by
  have hall : ['<', '>', '=', '≤', '≥', '≠', '!', '+', '-'].any isOperandRest = false := by decide
  exact Bool.eq_false_iff.mpr (List.any_eq_false.mp hall x (List.contains_iff_mem.mp h))

theorem Comparison.Spelling.leads {op : Comparison} {o : List Char} (h : op.Spelling o) :
    Leads isOperatorStart o := by
  cases h <;> exact ⟨_, _, rfl, by decide⟩

theorem Additive.Spelling.leads {op : Additive} {o : List Char} (h : op.Spelling o) :
    Leads isOperatorStart o := by
  cases h <;> exact ⟨_, _, rfl, by decide⟩

theorem Operand.Term.leads {a : Operand} {s : List Char} (h : a.Term s) :
    Leads isOperandStart s := by
  cases h with
  | lookup h => exact h.leads.imp (by simp +contextual [isOperandStart])
  | number h => exact h.1.leads.imp (by simp +contextual [isOperandStart, or_imp])

/-- Operands begin with a letter, a digit or minus sign, or a double quote. -/
theorem Operand.Written.leads {a : Operand} {s : List Char} (h : a.Written s) :
    Leads isOperandStart s := by
  cases h with
  | term h => exact h.leads
  | text h => exact h.leads.imp (by simp +contextual [isOperandStart])

namespace Parse.Parser

variable {α β : Type} {c next : Cursor}

/-! ## Operators -/

/-- What is read by a table is one of its spellings, with the value that stands beside it. -/
theorem spelling_sound {e : Expected} {table : List (String × α)} {a : α}
    (h : (spelling e table).outcome c = .matched a next) :
    ∃ s, (s, a) ∈ table ∧ c.Spans s.toList next := by
  induction table with
  | nil => simp [spelling, outcome, want] at h
  | cons entry table ih =>
    obtain ⟨s, b⟩ := entry
    simp only [spelling, bind_matched_iff, accept_matched_iff] at h
    obtain ⟨found, mid, ⟨rfl, hs⟩ | ⟨rfl, rfl, -⟩, h⟩ := h
    · simp only [↓reduceIte, pure_matched_iff] at h
      obtain ⟨rfl, rfl⟩ := h
      exact ⟨s, by simp, hs⟩
    · obtain ⟨t, ht, hspan⟩ := ih h
      exact ⟨t, by simp [ht], hspan⟩

theorem spelling_here {e : Expected} {table : List (String × α)} {s : String} {a : α}
    (h : c.Spans s.toList next) : (spelling e ((s, a) :: table)).outcome c = .matched a next := by
  rw [spelling, bind_of_matched (accept_there h)]
  rfl

/-- A spelling that does not stand there is passed, without a trace in the outcome. -/
theorem spelling_later {e : Expected} {table : List (String × α)} {s : String} {a : α}
    (h : ¬ s.toList <+: c.rest) :
    (spelling e ((s, a) :: table)).outcome c = (spelling e table).outcome c := by
  rw [spelling, bind_of_matched (accept_missing h)]
  rfl

/-- A table fails where none of its spellings stands. -/
theorem spelling_failed {e : Expected} {table : List (String × α)}
    (h : ∀ entry ∈ table, ¬ entry.1.toList <+: c.rest) :
    (spelling e table).outcome c = .failed := by
  induction table with
  | nil => rfl
  | cons entry table ih =>
    rw [spelling_later (h entry (by simp))]
    exact ih fun entry he => h entry (by simp [he])

/-- The spelling `t` is not hidden by `s`, which is tried before it: where `t` stands and what
follows does not begin with a character that satisfies `p`, there `s` does not stand. -/
def TriedBefore (p : Char → Bool) (s t : List Char) : Prop :=
  ¬ s <+: t ∧ (t <+: s → (s.drop t.length).head?.any p = true)

instance (p : Char → Bool) (s t : List Char) : Decidable (TriedBefore p s t) :=
  inferInstanceAs (Decidable (_ ∧ _))

/-- Where `t` is followed by nothing that satisfies `p`, an earlier `s` is not found instead. -/
theorem TriedBefore.not_isPrefix {p : Char → Bool} {s t rest : List Char}
    (h : TriedBefore p s t) (hc : Clear p rest) : ¬ s <+: t ++ rest := by
  rintro ⟨tail, htail⟩
  obtain ⟨ahead, rfl, -⟩ | ⟨behind, rfl, rfl⟩ := List.append_eq_append_iff.mp htail
  · exact h.1 (List.prefix_append s ahead)
  · -- `s` goes on behind `t`, as the text does
    have hgoes := h.2 (List.prefix_append t behind)
    rw [List.drop_left] at hgoes
    cases behind with
    | nil => cases hgoes
    | cons x behind =>
      rw [List.cons_append, clear_cons] at hc
      rw [List.head?_cons, Option.any_some, hc] at hgoes
      cases hgoes

/-- In a table in this order, each spelling is found. -/
theorem spelling_complete {e : Expected} {p : Char → Bool} {table : List (String × α)}
    (horder : table.Pairwise fun x y => TriedBefore p x.1.toList y.1.toList) {s : String} {a : α}
    (hmem : (s, a) ∈ table) (hs : c.Spans s.toList next) (hc : Clear p next.rest) :
    (spelling e table).outcome c = .matched a next := by
  induction table with
  | nil => cases hmem
  | cons entry table ih =>
    obtain ⟨hhead, htail⟩ := List.pairwise_cons.mp horder
    obtain rfl | hmem := List.mem_cons.mp hmem
    · exact spelling_here hs
    · have hno : ¬ entry.1.toList <+: c.rest := by
        rw [hs.1]
        exact (hhead _ hmem).not_isPrefix hc
      rw [spelling_later hno]
      exact ih htail hmem

/-- A table in this order reads the forms that it lists, in front of what does not begin with
a `p`. -/
theorem spelling_reads {e : Expected} {p : Char → Bool} {table : List (String × α)}
    {S : α → List Char → Prop} (hlists : ∀ {a t}, S a t ↔ ∃ s, (s, a) ∈ table ∧ s.toList = t)
    (horder : table.Pairwise fun x y => TriedBefore p x.1.toList y.1.toList) :
    (spelling e table).Reads S (Clear p) where
  sound h := by
    obtain ⟨s, hmem, hs⟩ := spelling_sound h
    exact ⟨_, hs, hlists.mpr ⟨s, hmem, rfl⟩⟩
  complete hs ha hf := by
    obtain ⟨s, hmem, rfl⟩ := hlists.mp ha
    exact spelling_complete horder hmem hs hf

/-- Where none of the forms can begin, none is read. -/
theorem spelling_failed_of_clear {e : Expected} {p : Char → Bool} {table : List (String × α)}
    {S : α → List Char → Prop} (hlists : ∀ {a t}, S a t ↔ ∃ s, (s, a) ∈ table ∧ s.toList = t)
    (hleads : ∀ {a t}, S a t → Leads p t) (h : Clear p c.rest) :
    (spelling e table).outcome c = .failed := by
  apply spelling_failed
  intro entry hmem
  exact (hleads (hlists.mpr ⟨_, hmem, rfl⟩)).not_isPrefix h

/-- The table of comparisons lists the written forms, each with its operator. -/
theorem comparisonSpelling_iff {op : Comparison} {o : List Char} :
    op.Spelling o ↔ ∃ s, (s, op) ∈ comparisonSpellings ∧ s.toList = o := by
  constructor
  · intro h
    refine ⟨String.ofList o, ?_, String.toList_ofList⟩
    cases h <;> decide
  · rintro ⟨s, hmem, rfl⟩
    simp only [comparisonSpellings, List.mem_cons, Prod.mk.injEq, List.not_mem_nil,
      or_false] at hmem
    rcases hmem with ⟨rfl, rfl⟩ | ⟨rfl, rfl⟩ | ⟨rfl, rfl⟩ | ⟨rfl, rfl⟩ | ⟨rfl, rfl⟩ | ⟨rfl, rfl⟩ |
      ⟨rfl, rfl⟩ | ⟨rfl, rfl⟩ | ⟨rfl, rfl⟩ | ⟨rfl, rfl⟩ <;> constructor

/-- Where one spelling begins another, the longer is tried first and goes on with a `=`. So the
shorter is read in front of anything else. -/
theorem comparison_reads : comparison.Reads Comparison.Spelling (Clear (· == '=')) :=
  spelling_reads comparisonSpelling_iff (by decide)

theorem comparison_failed (h : Clear isOperatorStart c.rest) : comparison.outcome c = .failed :=
  spelling_failed_of_clear comparisonSpelling_iff Comparison.Spelling.leads h

theorem additiveSpelling_iff {op : Additive} {o : List Char} :
    op.Spelling o ↔ ∃ s, (s, op) ∈ additiveSpellings ∧ s.toList = o := by
  constructor
  · intro h
    refine ⟨String.ofList o, ?_, String.toList_ofList⟩
    cases h <;> decide
  · rintro ⟨s, hmem, rfl⟩
    simp only [additiveSpellings, List.mem_cons, Prod.mk.injEq, List.not_mem_nil, or_false] at hmem
    rcases hmem with ⟨rfl, rfl⟩ | ⟨rfl, rfl⟩ <;> constructor

/-- The two signs are read in front of anything, since neither begins the other. -/
theorem additive_reads : additive.Reads Additive.Spelling (fun _ => True) := by
  have hreads : additive.Reads Additive.Spelling (Clear fun _ => false) :=
    spelling_reads additiveSpelling_iff (by decide)
  exact hreads.imp (fun _ _ => .rfl) fun _ _ _ _ => rfl

theorem additive_failed (h : Clear isOperatorStart c.rest) : additive.outcome c = .failed :=
  spelling_failed_of_clear additiveSpelling_iff Additive.Spelling.leads h

/-! ## Operands -/

/-- A variable or number is read in front of what goes on with neither. It is a number only where no
name begins, so that the order of the alternatives decides nothing. -/
theorem term_reads : term.Reads Operand.Term (Clear isOperandRest) where
  sound h := by
    simp only [term, orElse_matched_iff, map_matched_iff] at h
    obtain ⟨name, h, rfl⟩ | ⟨-, v, h, rfl⟩ := h
    · obtain ⟨s, hs, hname⟩ := identifier_reads.sound h
      exact ⟨s, hs, .lookup hname⟩
    · obtain ⟨s, hs, hv⟩ := number_reads.sound h
      exact ⟨s, hs, .number hv⟩
  complete {c a next s} hs ha hf := by
    unfold term
    cases ha with
    | lookup hname =>
      exact orElse_of_matched (map_of_matched (identifier_reads.complete hs hname hf.nameRest))
    | number hv =>
      have hno : Clear isNameStart c.rest := by
        rw [hs.1]
        exact hv.1.clear_nameStart _
      rw [orElse_of_failed (map_failed (identifier_failed hno))]
      exact map_of_matched (number_reads.complete hs hv hf.numeralRest)

theorem shallow_term : term.Shallow := (shallow_identifier.map _).orElse (shallow_number.map _)

theorem term_failed (h : Clear isTermStart c.rest) : term.outcome c = .failed := by
  unfold term
  rw [orElse_of_failed (map_failed (identifier_failed h.nameStart))]
  exact map_failed (number_failed h.numeralStart)

/-- Operands are read in front of what goes on with none. Where a quoted text begins, no variable or
number does. -/
theorem operand_reads : operand.Reads Operand.Written (Clear isOperandRest) where
  sound h := by
    simp only [operand, orElse_matched_iff, map_matched_iff] at h
    obtain h | ⟨-, body, h, rfl⟩ := h
    · obtain ⟨s, hs, ha⟩ := term_reads.sound h
      exact ⟨s, hs, .term ha⟩
    · obtain ⟨s, hs, hq⟩ := quotedText_reads.sound h
      exact ⟨s, hs, .text hq⟩
  complete {c a next s} hs ha hf := by
    unfold operand
    cases ha with
    | term ha => exact orElse_of_matched (term_reads.complete hs ha hf)
    | text hq =>
      have hno : Clear isTermStart c.rest := by
        rw [hs.1]
        exact hq.clear_termStart _
      rw [orElse_of_failed (term_failed hno)]
      exact map_of_matched (quotedText_reads.complete hs hq trivial)

/-- No operand is read where none begins. -/
theorem operand_failed (h : Clear isOperandStart c.rest) : operand.outcome c = .failed := by
  unfold operand
  rw [orElse_of_failed (term_failed h.termStart)]
  exact map_failed (quotedText_failed (h.imp (by simp +contextual [isOperandStart])))

/-! ## Two operands and an operator -/

section Binary

variable {side : Parser α} {op : Parser β} {Side : α → List Char → Prop}
  {Op : β → List Char → Prop}

/-- What was read is two written operands with blanks on both sides of a written operator. Where the
first operand ended is kept, for those who know what else was tried there. -/
theorem binary_sound {Fs Fo : List Char → Prop} (hside : side.Reads Side Fs)
    (hop : op.Reads Op Fo) {x y : α} {o : β}
    (h : (binary side op).outcome c = .matched (x, o, y) next) :
    ∃ mid s w t w' u, side.outcome c = .matched x mid ∧ c.Spans s mid ∧
      c.Spans (s ++ (w ++ (t ++ (w' ++ u)))) next ∧
      Side x s ∧ Blanks w ∧ Op o t ∧ Blanks w' ∧ Side y u := by
  simp only [binary, bind_matched_iff, pure_matched_iff, blanks_matched_iff] at h
  obtain ⟨x', c₁, hx, -, c₂, ⟨w, hw, hblank, -⟩, o', c₃, ho, -, c₄, ⟨w', hw', hblank', -⟩,
    y', c₅, hy, heq, rfl⟩ := h
  cases heq
  have hmatched := hx
  obtain ⟨s, hs, hx⟩ := hside.sound hx
  obtain ⟨t, ht, ho⟩ := hop.sound ho
  obtain ⟨u, hu, hy⟩ := hside.sound hy
  exact ⟨c₁, s, w, t, w', u, hmatched, hs, hs.trans (hw.trans (ht.trans (hw'.trans hu))),
    hx, hblank, ho, hblank', hy⟩

/-- Two operands with an operator between them are read to their ends. It takes only what each part
begins with: an operator ends the operand in front of it, an operand or a blank ends the operator,
and what follows the whole ends the last operand. -/
theorem binary_complete {Fo : List Char → Prop} (hside : side.Reads Side (Clear isOperandRest))
    (hop : op.Reads Op Fo) (hlead : ∀ x s, Side x s → Leads isOperandStart s)
    (holead : ∀ o t, Op o t → Leads isOperatorStart t)
    (hfo : ∀ rest, Clear (· == '=') rest → Fo rest)
    {x y : α} {o : β} {s w t w' u : List Char}
    (hs : c.Spans (s ++ (w ++ (t ++ (w' ++ u)))) next)
    (hx : Side x s) (hw : Blanks w) (ho : Op o t) (hw' : Blanks w') (hy : Side y u)
    (hf : Clear isOperandRest next.rest) :
    (binary side op).outcome c = .matched (x, o, y) next := by
  obtain ⟨c₁, hs, hs'⟩ := hs.split
  obtain ⟨c₂, hwspan, hs''⟩ := hs'.split
  obtain ⟨c₃, ht, hs'''⟩ := hs''.split
  obtain ⟨c₄, hw'span, hu⟩ := hs'''.split
  have htlead := (holead o t ho).append c₃.rest
  have hulead := (hlead y u hy).append next.rest
  -- what stands behind each part lets it be read up to its end
  have h₁ : Clear isOperandRest c₁.rest := by
    rw [hwspan.1, ht.1]
    exact hw.clear_append (fun x => operandRest_of_blank)
      (htlead.clear fun x => operatorStart_not_operandRest)
  have h₂ : Clear Text.isBlank c₂.rest := by
    rw [ht.1]
    exact htlead.clear fun x => operatorStart_not_blank
  have h₃ : Clear (· == '=') c₃.rest := by
    rw [hw'span.1, hu.1]
    exact hw'.clear_eq rfl (hulead.clear_eq rfl)
  have h₄ : Clear Text.isBlank c₄.rest := by
    rw [hu.1]
    exact hulead.clear fun x => operandStart_not_blank
  simp only [binary, bind_matched_iff, pure_matched_iff]
  exact ⟨x, c₁, hside.complete hs hx h₁, (), c₂, blanks_complete hwspan hw h₂,
    o, c₃, hop.complete ht ho (hfo _ h₃), (), c₄, blanks_complete hw'span hw' h₄,
    y, next, hside.complete hu hy hf, rfl, rfl⟩

/-- Behind the first of two operands, the reading fails where no operator follows. -/
theorem binary_failed {x : α} {mid : Cursor} (hm : side.outcome c = .matched x mid)
    (hop : ∀ {c : Cursor}, Clear isOperatorStart c.rest → op.outcome c = .failed)
    (hclear : ClearBehind isOperatorStart mid.rest) : (binary side op).outcome c = .failed := by
  obtain ⟨last, hblanks, hlast⟩ := blanks_of_clearBehind hclear
  rw [binary, bind_of_matched hm, bind_of_matched hblanks]
  exact bind_failed (hop hlast)

end Binary

end Parse.Parser

end Stencil

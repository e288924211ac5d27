/-
# Stencil.Proofs.Expression.Value -- value expressions as they are read

The parser of value expressions reads exactly the written ones. Its five alternatives
share beginnings, and what decides between them is how far a name or a numeral goes: a
word for a truth value counts only where no name goes on, a sum only where an operator
follows its first operand.

The parser is complete wherever, behind blanks, the text ends or goes on with a closing
brace or a line end. These are the only places where a value expression may end.
-/
import Stencil.Proofs.Expression.Operand
import Stencil.Proofs.Whole

namespace Stencil

open Parse

/-! ## Words for the truth values -/

/-- The words for the truth values are names, and so they compete with variables. -/
theorem TruthWord.isName {b : Bool} {s : List Char} (h : TruthWord b s) :
    IsName (String.ofList s) s := by
  cases h <;> exact ⟨by decide, by simp⟩

theorem TruthWord.leads {b : Bool} {s : List Char} (h : TruthWord b s) : Leads isNameStart s :=
  h.isName.leads

theorem Expression.Written.leads {e : Expression} {s : List Char} (h : e.Written s) :
    Leads isOperandStart s := by
  cases h with
  | truth h => exact h.leads.imp (by simp +contextual [isOperandStart])
  | arithmetic ha => exact ha.leads.append _
  | number h => exact (Operand.Term.number h).leads
  | text h => exact (Operand.Written.text h).leads
  | lookup h => exact (Operand.Term.lookup h).leads

namespace Parse.Parser

variable {α : Type} {c next : Cursor}

theorem shallow_truth : truth.Shallow := by
  have h : ∀ (word : String) (b : Bool), (do keyword word; return b : Parser Bool).Shallow :=
    fun word b => (shallow_keyword word).bind fun _ => keeps_pure b
  exact (h _ _).orElse ((h _ _).orElse ((h _ _).orElse (h _ _)))

theorem word_failed {word : String} {b : Bool} (h : ¬ word.toList <+: c.rest) :
    (do keyword word; return b : Parser Bool).outcome c = .failed :=
  bind_failed (bind_failed (token_failed h))

theorem word_matched {word : String} {b : Bool} (h : c.Spans word.toList next)
    (hc : Clear isNameRest next.rest) :
    (do keyword word; return b : Parser Bool).outcome c = .matched b next := by
  rw [bind_of_matched (keyword_matched_iff (u := ()) |>.mpr ⟨h, hc⟩), outcome_pure]

/-- A truth value is read just if one of the four words stands there and is not the beginning of a
longer name. -/
theorem truth_matched_iff {b : Bool} :
    truth.outcome c = .matched b next ↔
      ∃ s, c.Spans s next ∧ TruthWord b s ∧ Clear isNameRest next.rest := by
  constructor
  · intro h
    simp only [truth, orElse_matched_iff, bind_matched_iff, pure_matched_iff,
      keyword_matched_iff] at h
    obtain ⟨-, _, ⟨hs, hc⟩, rfl, rfl⟩ | ⟨-, ⟨-, _, ⟨hs, hc⟩, rfl, rfl⟩ |
      ⟨-, ⟨-, _, ⟨hs, hc⟩, rfl, rfl⟩ | ⟨-, -, _, ⟨hs, hc⟩, rfl, rfl⟩⟩⟩ := h
    · exact ⟨_, hs, .true, hc⟩
    · exact ⟨_, hs, .false, hc⟩
    · exact ⟨_, hs, .yes, hc⟩
    · exact ⟨_, hs, .no, hc⟩
  · rintro ⟨s, hs, hword, hc⟩
    -- the words begin with different letters, so that those tried before fail
    have hno : ∀ word : String, (∀ rest, ¬ word.toList <+: s ++ rest) →
        ¬ word.toList <+: c.rest := by
      intro word hword
      rw [hs.1]
      exact hword next.rest
    unfold truth
    cases hword with
    | true => exact orElse_of_matched (word_matched hs hc)
    | false =>
      rw [orElse_of_failed (word_failed (hno _ (by simp)))]
      exact orElse_of_matched (word_matched hs hc)
    | yes =>
      rw [orElse_of_failed (word_failed (hno _ (by simp))),
        orElse_of_failed (word_failed (hno _ (by simp)))]
      exact orElse_of_matched (word_matched hs hc)
    | no =>
      rw [orElse_of_failed (word_failed (hno _ (by simp))),
        orElse_of_failed (word_failed (hno _ (by simp))),
        orElse_of_failed (word_failed (hno _ (by simp)))]
      exact word_matched hs hc

/-- No truth value is read where no name begins. -/
theorem truth_failed (h : Clear isNameStart c.rest) : truth.outcome c = .failed := by
  apply shallow_truth.failed
  intro b next' hm
  obtain ⟨s, hs, hword, -⟩ := truth_matched_iff.mp hm
  rw [hs.1] at h
  exact (hword.leads.append _).not_clear h

/-- No word for a truth value is read where another variable stands, or a number. -/
theorem truth_failed_of_term {a : Operand} {s : List Char} (hs : c.Spans s next) (ha : a.Term s)
    (hf : Clear isOperandRest next.rest) (hno : ∀ b, ¬ TruthWord b s) :
    truth.outcome c = .failed := by
  cases ha with
  | lookup hname =>
    apply shallow_truth.failed
    intro b next' h
    obtain ⟨s', hs', hword, hc⟩ := truth_matched_iff.mp h
    have heq := isName_unique hname hs hf.nameRest hword.isName hs' hc
    exact hno b (heq ▸ hword)
  | number hv =>
    apply truth_failed
    rw [hs.1]
    exact hv.1.clear_nameStart _

/-- Where no word for a truth value is read, none is a variable or a number. -/
theorem not_truthWord_of_failed {a : Operand} {s : List Char} (ht : truth.outcome c = .failed)
    (hm : term.outcome c = .matched a next) (hs : c.Spans s next) (b : Bool) :
    ¬ TruthWord b s := by
  intro hword
  have hlead := hword.leads.append next.rest
  rw [← hs.1] at hlead
  simp only [term, orElse_matched_iff, map_matched_iff] at hm
  obtain ⟨name, hm, -⟩ | ⟨-, v, hm, -⟩ := hm
  · -- the name ends where the word does, and the word would have been read
    obtain ⟨s', -, -, hf⟩ := identifier_matched_iff.mp hm
    rw [truth_matched_iff.mpr ⟨s, hs, hword, hf⟩] at ht
    cases ht
  · obtain ⟨s', hs', hv⟩ := number_reads.sound hm
    apply hlead.not_clear
    rw [hs'.1]
    exact hv.1.clear_nameStart _

/-! ## Sums and differences -/

/-- No sum is read where, behind its first operand and blanks, no operator stands. -/
theorem arithmetic_failed {a : Operand} (hm : term.outcome c = .matched a next)
    (hclear : ClearBehind isOperatorStart next.rest) : arithmetic.outcome c = .failed :=
  bind_failed (binary_failed hm additive_failed hclear)

/-! ## Value expressions -/

/-- What may follow a value expression. -/
def expressionStops : List Char := ['\x7d', '\n']

/-- Each alternative reads its own form. That a variable is no word for a truth value is known from
the first alternative, which has failed. -/
theorem expression_sound {e : Expression} (h : expression.outcome c = .matched e next) :
    ∃ s, c.Spans s next ∧ e.Written s := by
  simp only [expression, orElse_matched_iff, map_matched_iff, bind_matched_iff,
    pure_matched_iff, arithmetic] at h
  obtain ⟨b, h, rfl⟩ | ⟨ht, ⟨⟨a, op, b⟩, mid, h, rfl, rfl⟩ | ⟨-, o, h, rfl⟩⟩ := h
  · obtain ⟨s, hs, hword, -⟩ := truth_matched_iff.mp h
    exact ⟨s, hs, .truth hword⟩
  · obtain ⟨mid, s, w, t, w', u, hm, hmid, hs, ha, hw, hop, hw', hb⟩ :=
      binary_sound term_reads additive_reads h
    have hno := not_truthWord_of_failed (by simpa [map_failed_iff] using ht) hm hmid
    exact ⟨_, hs, .arithmetic ha hno hw hop hw' hb⟩
  · obtain ⟨v, h, rfl⟩ | ⟨hn, ⟨body, h, rfl⟩ | ⟨-, name, h, rfl⟩⟩ := h
    · obtain ⟨s, hs, hv⟩ := number_reads.sound h
      exact ⟨s, hs, .number hv⟩
    · obtain ⟨s, hs, hq⟩ := quotedText_reads.sound h
      exact ⟨s, hs, .text hq⟩
    · have hterm : term.outcome c = .matched (.lookup name) next :=
        orElse_of_matched (map_of_matched h)
      obtain ⟨s, hs, hname⟩ := identifier_reads.sound h
      have hno := not_truthWord_of_failed (by simpa [map_failed_iff] using ht) hterm hs
      exact ⟨s, hs, .lookup hname hno⟩

/-- Each form is left to its own alternative, as those tried before it fail where it stands. -/
theorem expression_complete {e : Expression} {s : List Char} (hs : c.Spans s next)
    (he : e.Written s) (hf : Before expressionStops next.rest) :
    expression.outcome c = .matched e next := by
  have hrest : Clear isOperandRest next.rest :=
    hf.clear (fun x => operandRest_of_blank) rfl
  -- behind a single operand no sum goes on
  have hsum : ∀ a, term.outcome c = .matched a next → arithmetic.outcome c = .failed :=
    fun a hm => arithmetic_failed hm (hf.clearBehind rfl)
  unfold expression
  cases he with
  | truth hword =>
    have hm := truth_matched_iff.mpr ⟨s, hs, hword, hrest.nameRest⟩
    exact orElse_of_matched (map_of_matched hm)
  | arithmetic ha hno hw hop hw' hb =>
    obtain ⟨mid, hx, hs'⟩ := hs.split
    have hmid : Clear isOperandRest mid.rest := by
      obtain ⟨c₂, hw₂, hs''⟩ := hs'.split
      rw [hw₂.1, hs''.1, List.append_assoc]
      exact hw.clear_append (fun x => operandRest_of_blank)
        ((hop.leads.append _).clear fun x => operatorStart_not_operandRest)
    rw [orElse_of_failed (map_failed (truth_failed_of_term hx ha hmid hno))]
    apply orElse_of_matched
    have hm := binary_complete term_reads additive_reads (fun _ _ => Operand.Term.leads)
      (fun _ _ => Additive.Spelling.leads) (fun _ _ => trivial) hs ha hw hop hw' hb hrest
    rw [arithmetic, bind_of_matched hm, outcome_pure]
  | number hv =>
    have hterm := term_reads.complete hs (.number hv) hrest
    have hstart : Clear isNameStart c.rest := by
      rw [hs.1]
      exact hv.1.clear_nameStart _
    have hm := number_reads.complete hs hv hrest.numeralRest
    rw [orElse_of_failed (map_failed (truth_failed hstart)), orElse_of_failed (hsum _ hterm)]
    exact map_of_matched (orElse_of_matched (map_of_matched hm))
  | text hq =>
    have hstart : Clear isTermStart c.rest := by
      rw [hs.1]
      exact hq.clear_termStart _
    have hsum' : arithmetic.outcome c = .failed :=
      bind_failed (bind_failed (term_failed hstart))
    rw [orElse_of_failed (map_failed (truth_failed hstart.nameStart)), orElse_of_failed hsum']
    apply map_of_matched
    rw [orElse_of_failed (map_failed (number_failed hstart.numeralStart))]
    exact orElse_of_matched (map_of_matched (quotedText_reads.complete hs hq trivial))
  | lookup hname hno =>
    have hterm := term_reads.complete hs (.lookup hname) hrest
    have hlead := hname.leads.append next.rest
    rw [← hs.1] at hlead
    have hnumber : Clear (fun x => x.isDigit || x == '-') c.rest := by
      apply hlead.clear
      intro x hx
      cases hd : (x.isDigit || x == '-') with
      | false => rfl
      | true => rw [nameStart_of_numeralStart hd] at hx; cases hx
    have hquote : Clear (· == '"') c.rest := hlead.clear_eq rfl
    rw [orElse_of_failed (map_failed (truth_failed_of_term hs (.lookup hname) hrest hno)),
      orElse_of_failed (hsum _ hterm)]
    apply map_of_matched
    rw [orElse_of_failed (map_failed (number_failed hnumber)),
      orElse_of_failed (map_failed (quotedText_failed hquote))]
    exact map_of_matched (identifier_reads.complete hs hname hrest.nameRest)

/-- The parser of value expressions reads the written ones. -/
theorem expression_reads : expression.Reads Expression.Written (Before expressionStops) where
  sound := expression_sound
  complete := expression_complete

end Parse.Parser

/-- A text is parsed as a value expression exactly if it is within its bound and writes it. -/
theorem Expression.parse_eq_ok_iff {src : String} {limits : Limits} {e : Expression} :
    Expression.parse src limits = .ok e ↔
      src.utf8ByteSize ≤ limits.maxBytes ∧ e.Written src.toList := by
  rw [Expression.parse, Parse.parse_eq_ok_iff,
    Parser.expression_reads.whole_eq_ok_iff (before_nil _)]

/-- The written value expressions are the accepted ones. -/
theorem Expression.written_iff_accepted {e : Expression} {s : List Char} :
    e.Written s ↔ ∃ limits, Expression.parse (String.ofList s) limits = .ok e := by
  simp only [Expression.parse_eq_ok_iff, String.toList_ofList]
  constructor
  · intro he
    exact ⟨⟨(String.ofList s).utf8ByteSize, 0⟩, Nat.le_refl _, he⟩
  · rintro ⟨limits, -, he⟩
    exact he

end Stencil

/-
# Stencil.Proofs.Sufficiency -- how much depth is enough

A depth as great as the text is long is never used up. Each step down has read an
opening token before, so that less text than depth is left behind it; and only in front
of that token is depth spent (`Keeps.behind_token`).

What is proved of each parser is that from a cursor with at most `n` characters left it
does not give up and leads to another such cursor.
-/
import Stencil.Assignment.Parser
import Stencil.Proofs.Template.Reading

namespace Stencil.Parse

/-- At most `n` characters are left. -/
def Cursor.Within (n : Nat) (c : Cursor) : Prop := c.rest.length ≤ n

namespace Parser

variable {α β : Type} {n : Nat}

/-! ## Parsers without depth -/

/-- Operators, operands and everything put together from them know nothing of depth. -/
theorem shallow_spelling (e : Expected) (table : List (String × α)) :
    (spelling e table).Shallow := by
  induction table with
  | nil => exact shallow_iff.mpr fun _ => nofun
  | cons entry table ih =>
    refine (shallow_accept entry.1).bind fun found => ?_
    cases found with
    | true => exact keeps_pure _
    | false => exact ih

theorem shallow_operand : operand.Shallow := shallow_term.orElse (shallow_quotedText.map _)

theorem shallow_binary {side : Parser α} {op : Parser β} (hside : side.Shallow)
    (hop : op.Shallow) : (binary side op).Shallow :=
  hside.bind fun _ => shallow_blanks.bind fun _ => hop.bind fun _ => shallow_blanks.bind fun _ =>
    hside.bind fun _ => keeps_pure _

theorem shallow_comparing : comparing.Shallow :=
  (shallow_binary shallow_operand (shallow_spelling _ _)).bind fun _ => keeps_pure _

theorem shallow_expression : expression.Shallow := by
  have harithmetic : arithmetic.Shallow :=
    (shallow_binary shallow_term (shallow_spelling _ _)).bind fun _ => keeps_pure _
  exact (shallow_truth.map _).orElse (harithmetic.orElse
    (((shallow_number.map _).orElse ((shallow_quotedText.map _).orElse
      (shallow_identifier.map _))).map _))

/-- The text of a template knows nothing of depth either. -/
theorem shallow_literal : literal.Shallow := by
  have hchar : literalChar.Shallow := by
    apply shallow_iff.mpr
    rintro ⟨place, _ | ⟨x, rest⟩⟩
    · simp [outcome, literalChar, fail]
    · by_cases h : atOpener (x :: rest) = true <;> simp [outcome, literalChar, fail, h]
  exact hchar.bind fun _ => hchar.many.bind fun _ => keeps_pure _

/-- There is no nesting in an assignment list. -/
theorem shallow_assignments : assignments.Shallow := by
  have hassignment : assignment.Shallow :=
    shallow_identifier.bind fun _ => shallow_blanks.bind fun _ => (shallow_token _).bind fun _ =>
      shallow_blanks.bind fun _ => shallow_expression.bind fun _ => shallow_blanks.bind fun _ =>
      keeps_pure _
  have hlines : (many nextLine).Shallow :=
    Keeps.many ((shallow_token _).bind fun _ => Keeps.optional hassignment)
  exact hassignment.bind fun _ => hlines.bind fun _ => keeps_pure _

/-- A parser without depth that reads forward leaves no more than there was. -/
theorem Shallow.keeps_within {p : Parser α} (h : p.Shallow)
    (hmoves : ∀ {c a next}, p.outcome c = .matched a next → ∃ s, c.Spans s next) :
    p.Keeps (Cursor.Within n) := by
  intro c hc
  refine ⟨shallow_iff.mp h c, ?_⟩
  intro a next hm
  obtain ⟨s, hs⟩ := hmoves hm
  have hlen := hs.length
  show next.rest.length ≤ n
  have : c.rest.length ≤ n := hc
  omega

/-! ## Lexemes -/

theorem blanks_keeps : blanks.Keeps (Cursor.Within n) :=
  shallow_blanks.keeps_within fun h => (blanks_matched_iff.mp h).imp fun _ => And.left

theorem token_keeps (s : String) : (token s).Keeps (Cursor.Within n) :=
  (shallow_token s).keeps_within fun h => ⟨_, token_matched_iff.mp h⟩

theorem accept_keeps (s : String) : (accept s).Keeps (Cursor.Within n) := by
  refine (shallow_accept s).keeps_within fun h => ?_
  obtain ⟨-, hs⟩ | ⟨-, rfl, -⟩ := accept_matched_iff.mp h
  · exact ⟨_, hs⟩
  · exact ⟨[], Cursor.spans_nil _⟩

theorem identifier_keeps : identifier.Keeps (Cursor.Within n) :=
  shallow_identifier.keeps_within fun h => (identifier_reads.sound h).imp fun _ => And.left

/-- Behind a token less text is left, and what is enough there is enough in front of it. -/
theorem Keeps.behind_token {s : String} (hs : s.toList ≠ []) {p : Parser α}
    (h : ∀ m < n, p.Keeps (Cursor.Within m)) :
    (do token s; p : Parser α).Keeps (Cursor.Within n) := by
  intro c hc
  have hc' : c.rest.length ≤ n := hc
  rw [outcome_bind]
  cases htoken : (token s).outcome c with
  | matched u mid =>
    have hlen := (token_matched_iff.mp htoken).length
    have hpos := List.length_pos_iff.mpr hs
    -- fewer characters are left, and `p` is asked about just as many
    obtain ⟨hne, hnext⟩ := h mid.rest.length (by omega) mid (Nat.le_refl _)
    refine ⟨hne, ?_⟩
    intro a next hm
    have : next.rest.length ≤ mid.rest.length := hnext a next hm
    show next.rest.length ≤ n
    omega
  | failed => exact ⟨nofun, nofun⟩
  | tooDeep => exact absurd htoken (shallow_iff.mp (shallow_token s) c)

/-! ## Conditions -/

theorem enclosed_keeps {inner : Parser α} (h : inner.Keeps (Cursor.Within n)) (close : String) :
    (enclosed inner close).Keeps (Cursor.Within n) :=
  blanks_keeps.bind fun _ => h.bind fun _ => blanks_keeps.bind fun _ =>
    (token_keeps close).bind fun _ => keeps_pure _

/-- Items with marks between them do not give up if one item does not: each starts with no more text
than the first. -/
theorem joined_keeps {item : Parser α} (h : item.Keeps (Cursor.Within n)) (mark : String) :
    (joined mark item).Keeps (Cursor.Within n) := by
  have hround : (further mark item).Keeps (Cursor.Within n) :=
    blanks_keeps.bind fun _ => (token_keeps mark).bind fun _ => (accept_keeps mark).bind fun _ =>
      blanks_keeps.bind fun _ => h
  exact h.bind fun _ => hround.many.bind fun _ => keeps_pure _

/-- Only a group goes a step down, and it does so behind its parenthesis. -/
theorem atom_keeps {inside : Parser Condition} (h : ∀ m < n, inside.Keeps (Cursor.Within m)) :
    (atom inside).Keeps (Cursor.Within n) := by
  have hcomparing : comparing.Keeps (Cursor.Within n) :=
    shallow_comparing.keeps_within fun h => (comparing_sound h).imp fun _ => And.left
  have hpresence : ∀ inverted, (presence inverted).Keeps (Cursor.Within n) :=
    fun _ => identifier_keeps.bind fun _ => (accept_keeps _).bind fun _ => keeps_pure _
  have hgroup : ∀ inverted, (group inside inverted).Keeps (Cursor.Within n) :=
    fun _ => Keeps.behind_token (by simp) fun m hm => (h m hm).bind fun _ => keeps_pure _
  exact hcomparing.orElse ((accept_keeps _).bind fun inverted =>
    (hpresence inverted).orElse (hgroup inverted))

theorem disjunction_keeps {inside : Parser Condition}
    (h : ∀ m < n, inside.Keeps (Cursor.Within m)) :
    (disjunction inside).Keeps (Cursor.Within n) :=
  joined_keeps (joined_keeps (atom_keeps h) "&") "|"

/-- A condition does not use up a depth as great as the text is long. -/
theorem condition_keeps {depth : Nat} (h : n ≤ depth) :
    (condition depth).Keeps (Cursor.Within n) := by
  induction depth generalizing n with
  | zero => exact disjunction_keeps fun m hm => by omega
  | succ depth ih => exact disjunction_keeps fun m hm => enclosed_keeps (ih (by omega)) ")"

/-! ## Templates -/

theorem literal_keeps : literal.Keeps (Cursor.Within n) :=
  shallow_literal.keeps_within fun h => (literal_matched_iff.mp h).imp fun _ => And.left

theorem substitution_keeps : substitution.Keeps (Cursor.Within n) := by
  have hexpression : expression.Keeps (Cursor.Within n) :=
    shallow_expression.keeps_within fun h => (expression_reads.sound h).imp fun _ => And.left
  exact (token_keeps _).bind fun _ => (enclosed_keeps hexpression _).map _

/-- Tests and bodies are asked about the text behind the opening token, in front of which the depth
was spent. -/
theorem chain_keeps {test : Parser Condition} {body : Parser Template}
    (ht : test.Keeps (Cursor.Within n)) (hb : body.Keeps (Cursor.Within n)) :
    (chain test body).Keeps (Cursor.Within n) := by
  have hbranch : (branch test body).Keeps (Cursor.Within n) :=
    (enclosed_keeps ht _).bind fun _ => hb.bind fun _ => keeps_pure _
  have hothers := ((token_keeps "\x7b|").bind fun _ => hbranch).many
  have hlast := ((token_keeps "\x7b|\x7d").bind fun _ => hb).optional
  exact hbranch.bind fun _ => hothers.bind fun _ => hlast.bind fun _ =>
    (token_keeps _).bind fun _ => keeps_pure _

/-- Only a conditional goes a step down, behind its opening token. -/
theorem nodes_keeps {inside : Parser Chain} (h : ∀ m < n, inside.Keeps (Cursor.Within m)) :
    (many (node inside)).Keeps (Cursor.Within n) := by
  have hconditional := Keeps.behind_token (s := "\x7b?") (by simp) fun m hm =>
    (h m hm).map Node.conditional
  exact (literal_keeps.orElse (substitution_keeps.orElse hconditional)).many

/-- A template does not use up a depth as great as the text is long. -/
theorem template_keeps {depth : Nat} (h : n ≤ depth) :
    (template depth).Keeps (Cursor.Within n) := by
  induction depth generalizing n with
  | zero => exact nodes_keeps fun m hm => by omega
  | succ depth ih =>
    exact nodes_keeps fun m hm => chain_keeps (condition_keeps (by omega)) (ih (by omega))

end Parser

end Stencil.Parse

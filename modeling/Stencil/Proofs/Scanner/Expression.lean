/-
# Stencil.Proofs.Scanner.Expression -- expressions and conditions in place

Every rule for expressions and conditions performs the parser of its name, at any number of
levels. A group is the only way from a condition to another one, and that is a level deeper, so
that the induction is on the levels that are left.
-/
import Stencil.Proofs.Scanner.Lexeme

namespace Stencil.Scanner

open Parse

variable {α β : Type} {k n n' : Nat} {φ : Failing} {m : Rule α} {p : Parser α}

/-! ## Operators and operands -/

/-- A table of spellings is tried in its order. An entry that does not stand there is passed without
a move, so that the rest of the table starts where the whole began. -/
theorem performs_spelling (e : Expected) (table : List (String × α))
    (htable : ∀ entry ∈ table, 0 < entry.1.utf8ByteSize) :
    Performs k 1 .back (spelling e table) (Parser.spelling e table) := by
  induction table with
  | nil =>
    intro σ c hc _
    exact performsAt_missing hc (missing_on e σ) rfl
  | cons entry table ih =>
    obtain ⟨token, a⟩ := entry
    obtain ⟨hpos, hrest⟩ := List.forall_mem_cons.mp htable
    intro σ c hc hk
    rcases hstrip : Parser.strip? token.toList c.rest with _ | rest
    · have hon : (spelling e ((token, a) :: table)).on σ = (spelling e table).on σ := by
        rw [spelling, on_bind_of_some (accept_on_missing hc (Parser.strip?_eq_none_iff.mp hstrip))]
        rfl
      have hreply : (Parser.spelling e ((token, a) :: table)).reply c =
          (Parser.spelling e table).reply c := by
        simp [Parser.spelling, Parser.accept, hstrip, Reply.after]
      rw [PerformsAt, hon, hreply]
      exact ih hrest σ c hc hk
    · -- the first spelling of the table stands there
      have hs := Cursor.spans_advance (Parser.strip?_eq_some_iff.mp hstrip)
      have hon : (spelling e ((token, a) :: table)).on σ = some (some a, σ.past token.toList) := by
        rw [spelling, on_bind_of_some (accept_on hc hs)]
        rfl
      refine performsAt_past hc hs hon (utf8ByteSize_eq_byteLength token ▸ hpos) ?_
      simp [Parser.spelling, Parser.accept, hstrip, Reply.after, String.length_toList]

theorem performs_comparison : Performs k 1 .back comparison Parser.comparison :=
  performs_spelling _ _ (by decide)

theorem performs_additive : Performs k 1 .back additive Parser.additive :=
  performs_spelling _ _ (by decide)

/-- An identifier that is not there leaves the position where it was, and so a number is tried at
the same place. -/
theorem performs_term : Performs k 1 .back term Parser.term :=
  (performs_identifier.map _).orElse (performs_number.map _)

theorem performs_operand : Performs k 1 .back operand Parser.operand :=
  performs_term.orElse ((performs_quotedText.map _).weaken (by decide) (.inl rfl))

/-- Two operands with an operator between them may fail anywhere; whoever tries them against another
reading restores the position. -/
theorem Performs.binary {op : Rule β} {q : Parser β} (h : Performs k 1 .back m p)
    (hop : Performs k 1 .back op q) : Performs k 1 .anywhere (binary m op) (p.binary q) :=
  (h.bind fun a => performs_blanks.bind fun _ => hop.bind fun o => performs_blanks.bind fun _ =>
    h.bind fun b => performs_pure (a, o, b)).weaken (by decide) (.inr rfl)

/-! ## Value expressions -/

/-- All the words for truth values take two bytes at least. -/
theorem performs_truth : Performs k 2 .back truth Parser.truth := by
  have hword (word : String) (b : Bool) (hword : 2 ≤ word.utf8ByteSize) :
      Performs k 2 .back (do keyword word; return b) (do Parser.keyword word; return b) :=
    ((performs_keyword word).bind fun _ => performs_pure b).weaken hword (.inl rfl)
  exact (hword "true" true (by decide)).orElse ((hword "false" false (by decide)).orElse
    ((hword "yes" true (by decide)).orElse (hword "no" false (by decide))))

theorem performs_arithmetic : Performs k 1 .anywhere arithmetic Parser.arithmetic :=
  ((performs_term.binary performs_additive).bind fun (a, op, b) =>
    performs_pure (Expression.arithmetic a op b)).weaken (by decide) (.inl rfl)

/-- Of the alternatives for a value, only the sum has to be an attempt: the others restore the
position by themselves. -/
theorem performs_expression : Performs k 1 .back expression Parser.expression := by
  have htruth : Performs k 1 .back (Expression.truth <$> truth) (.truth <$> Parser.truth) :=
    (performs_truth.map _).weaken (by decide) (.inl rfl)
  have hquoted : Performs k 1 .back (Operand.text <$> quotedText) (.text <$> Parser.quotedText) :=
    (performs_quotedText.map _).weaken (by decide) (.inl rfl)
  exact htruth.orElse (performs_arithmetic.attempt.orElse
    (((performs_number.map _).orElse (hquoted.orElse (performs_identifier.map _))).map _))

/-! ## Conditions -/

theorem performs_comparing : Performs k 1 .anywhere comparing Parser.comparing := by
  exact ((performs_operand.binary performs_comparison).bind fun (a, op, b) =>
    performs_pure (Atom.compare a op b)).weaken (by decide) (.inl rfl)

theorem performs_presence (inverted : Bool) :
    Performs k 1 .back (presence inverted) (Parser.presence inverted) :=
  (performs_identifier.bind fun name => (performs_accept "?").bind fun _ =>
    performs_pure (Atom.present inverted name)).weaken (by decide) (.inl rfl)

/-- What stands between blanks and in front of a closing token takes at least a byte more. -/
theorem Performs.enclosed (h : Performs k n φ m p) {close : String}
    (hclose : 0 < close.utf8ByteSize) :
    Performs k (n + 1) .anywhere (enclosed m close) (p.enclosed close) :=
  (performs_blanks.bind fun _ => h.bind fun a => performs_blanks.bind fun _ =>
    (performs_eat close).bind fun _ => performs_pure a).weaken (by omega) (.inr rfl)

/-- One round of a loop behind its first item: the mark, once or twice, and an item more. Given up,
it is taken back as a whole, blanks included. -/
theorem Performs.another (h : Performs k n φ m p) {token : String}
    (htoken : 0 < token.utf8ByteSize) :
    Performs k (n + 1) .back (another token m)
      (do Parser.blanks; Parser.token token; let _ ← Parser.accept token; Parser.blanks; p) :=
  ((performs_blanks.bind fun _ => (performs_eat token).bind fun _ =>
    (performs_accept token).bind fun _ => performs_blanks.bind fun _ => h).weaken
      (by omega) (.inr rfl)).attempt

/-- An item and the rounds of a loop behind it. -/
theorem Performs.joined (h : Performs k n .back m p) {token : String}
    (htoken : 0 < token.utf8ByteSize) : Performs k n .back (joined token m) (p.joined token) := by
  have hrounds := (h.another htoken).repeated (Nat.succ_pos n)
  exact h.bind fun first => hrounds.bind fun others => performs_pure (first :: others)

/-- The parser for what follows the parenthesis of a group, where `k` levels are left. -/
def groupBody : (k : Nat) → Parser Condition
  | 0 => Parser.tooDeep
  | k + 1 => (Parser.condition k).enclosed ")"

/-- A condition within `k` levels is a disjunction whose groups have `groupBody k` inside. -/
theorem condition_eq (k : Nat) : Parser.condition k = Parser.disjunction (groupBody k) := by
  cases k <;> rfl

section Group

-- what follows the parenthesis of a group performs its parser
variable {inside : Rule Condition} {insideParser : Parser Condition}
  (h : Performs k n φ (Scanner.nested inside) insideParser)
include h

/-- The comparison is an attempt, and so is all of the rest: a group that fails in its midst is
taken back to the `!` in front of it. -/
theorem Performs.atom : Performs k 1 .back (atom inside) (Parser.atom insideParser) := by
  have hgroup (inverted : Bool) :
      Performs k 1 .anywhere (group inside inverted) (Parser.group insideParser inverted) :=
    ((performs_eat "(").bind fun _ => h.bind fun inner =>
      performs_pure (Atom.group inverted inner)).weaken (Nat.le_add_right 1 _) (.inr rfl)
  exact performs_comparing.attempt.orElse ((performs_accept "!").bind fun inverted =>
    (performs_presence inverted).orElse (hgroup inverted)).attempt

theorem Performs.conjunction :
    Performs k 1 .back (conjunction inside) (Parser.conjunction insideParser) :=
  h.atom.joined (by decide)

theorem Performs.disjunction :
    Performs k 1 .back (disjunction inside) (Parser.disjunction insideParser) :=
  h.conjunction.joined (by decide)

end Group

/-- Behind the parenthesis of a group, the rule that opens a level performs the parser for the
levels that are left. The induction is on these. -/
theorem performs_group (k : Nat) :
    Performs k 0 .anywhere (nested (groupWithin k)) (groupBody k) := by
  induction k with
  | zero => exact (performs_nested_zero 0 _).weaken (Nat.le_refl 0) (.inr rfl)
  | succ k ih =>
    rw [groupBody, condition_eq]
    exact (ih.disjunction.enclosed (by decide)).nested.weaken (Nat.zero_le _) (.inr rfl)

/-- Conditions perform the parser for as many levels as are left where they begin. -/
theorem performs_condition : Performs k 1 .back condition (Parser.condition k) := by
  rw [condition_eq]
  exact .levelled _ (performs_group k).disjunction

end Stencil.Scanner

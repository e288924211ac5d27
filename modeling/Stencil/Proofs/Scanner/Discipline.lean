/-
# Stencil.Proofs.Scanner.Discipline -- what every rule keeps

The rules of the grammar, listed as `Symbol`s, with three facts about each: how many bytes it
reads at least if it succeeds, what it does to the position if it fails, and the parser that it
performs. The heads of the five loops are listed with them, since it is the head of a loop that
decides whether there is another round.

`scanner_discipline` says what holds of all of them from every state on a boundary, and not only
from those that a parse comes through: the flag may be set, the notes may be any, and the depth
may be beyond its limit.
-/
import Stencil.Proofs.Scanner.Whole

namespace Stencil.Scanner

open Parse

variable {α : Type}

/-! ## The rules by name -/

/-- A rule of the grammar and what its value is. A keyword is not empty. -/
inductive Symbol : Type → Type where
  | identifier : Symbol String
  | keyword (word : String) (nonempty : word ≠ "") : Symbol Unit
  | number : Symbol Value
  | quotedText : Symbol String
  | operand : Symbol Operand
  | comparison : Symbol Comparison
  | additive : Symbol Additive
  | arithmetic : Symbol Expression
  | expression : Symbol Expression
  | comparing : Symbol Atom
  | atom : Symbol Atom
  | conjunction : Symbol Conjunction
  | condition : Symbol Condition
  | substitution : Symbol Node
  | test (opener : String) : Symbol Condition
  | conditional : Symbol Node
  | template : Symbol Template
  | assignment : Symbol Assignment
  | assignments : Symbol (List Assignment)
  /-- The head of the loop of a conjunction. -/
  | nextAtom : Symbol Atom
  /-- The head of the loop of a condition. -/
  | nextConjunction : Symbol Conjunction
  /-- The head of the loop of a template. -/
  | node : Symbol Node
  /-- The head of the loop of a chain. -/
  | nextTest : Symbol Condition
  /-- The head of the loop of an assignment list. -/
  | lineEnd : Symbol Unit

namespace Symbol

/-- The rule. -/
def rule : Symbol α → Rule α
  | identifier => Scanner.identifier
  | keyword word _ => Scanner.keyword word
  | number => Scanner.number
  | quotedText => Scanner.quotedText
  | operand => Scanner.operand
  | comparison => Scanner.comparison
  | additive => Scanner.additive
  | arithmetic => Scanner.arithmetic
  | expression => Scanner.expression
  | comparing => Scanner.comparing
  | atom => levelled fun k => Scanner.atom (groupWithin k)
  | conjunction => levelled fun k => Scanner.conjunction (groupWithin k)
  | condition => Scanner.condition
  | substitution => Scanner.substitution
  | test opener => Scanner.test opener
  | conditional => levelled fun k => Scanner.conditional (chainWithin k)
  | template => Scanner.template
  | assignment => Scanner.assignment
  | assignments => Scanner.assignments
  | nextAtom => levelled fun k => another "&" (Scanner.atom (groupWithin k))
  | nextConjunction => levelled fun k => another "|" (Scanner.conjunction (groupWithin k))
  | node => levelled fun k => Scanner.node (chainWithin k)
  | nextTest => attempt (Scanner.test "\x7b|")
  | lineEnd => eat "\n"

/-- The parser that reads the same, with `k` levels to go. -/
def parser (k : Nat) : Symbol α → Parser α
  | identifier => Parser.identifier
  | keyword word _ => Parser.keyword word
  | number => Parser.number
  | quotedText => Parser.quotedText
  | operand => Parser.operand
  | comparison => Parser.comparison
  | additive => Parser.additive
  | arithmetic => Parser.arithmetic
  | expression => Parser.expression
  | comparing => Parser.comparing
  | atom => Parser.atom (groupBody k)
  | conjunction => Parser.conjunction (groupBody k)
  | condition => Parser.condition k
  | substitution => Parser.substitution
  | test opener => do
    Parser.token opener
    (Parser.condition k).enclosed "\x7d"
  | conditional => do
    Parser.token "\x7b?"
    .conditional <$> chainBody k
  | template => Parser.template k
  | assignment => Parser.assignment
  | assignments => Parser.assignments
  | nextAtom => do
    Parser.blanks
    Parser.token "&"
    let _ ← Parser.accept "&"
    Parser.blanks
    Parser.atom (groupBody k)
  | nextConjunction => do
    Parser.blanks
    Parser.token "|"
    let _ ← Parser.accept "|"
    Parser.blanks
    Parser.conjunction (groupBody k)
  | node => Parser.node (chainBody k)
  | nextTest => do
    Parser.token "\x7b|"
    (Parser.condition k).enclosed "\x7d"
  | lineEnd => Parser.token "\n"

/-- How many bytes are read at least: one, but a template may be empty. -/
def least : Symbol α → Nat
  | template => 0
  | _ => 1

/-- What a failure does to the position. A template never fails. -/
def failing : Symbol α → Failing
  | template => .never
  | arithmetic | comparing | substitution | test _ | conditional | assignment | assignments =>
    .anywhere
  | _ => .back

end Symbol

/-! ## The discipline -/

theorem performs_symbol (s : Symbol α) (k : Nat) :
    Performs k s.least s.failing s.rule (s.parser k) := by
  cases s with
  | identifier => exact performs_identifier
  | keyword word nonempty =>
    have hpos : 0 < word.utf8ByteSize :=
      Nat.pos_of_ne_zero (mt String.utf8ByteSize_eq_zero_iff.mp nonempty)
    exact (performs_keyword word).weaken hpos (.inl rfl)
  | number => exact performs_number
  | quotedText => exact performs_quotedText.weaken (by decide) (.inl rfl)
  | operand => exact performs_operand
  | comparison => exact performs_comparison
  | additive => exact performs_additive
  | arithmetic => exact performs_arithmetic
  | expression => exact performs_expression
  | comparing => exact performs_comparing
  | atom => exact .levelled (fun k => Scanner.atom (groupWithin k)) (performs_group k).atom
  | conjunction =>
    exact .levelled (fun k => Scanner.conjunction (groupWithin k)) (performs_group k).conjunction
  | condition => exact performs_condition
  | substitution => exact performs_substitution
  | test opener => exact performs_test opener
  | conditional => exact .levelled (fun k => Scanner.conditional (chainWithin k)) (performs_conditional k)
  | template => exact performs_template
  | assignment => exact performs_assignment
  | assignments => exact performs_assignments
  | nextAtom =>
    exact .levelled (fun k => another "&" (Scanner.atom (groupWithin k)))
      (((performs_group k).atom.another (by decide)).weaken (by decide) (.inl rfl))
  | nextConjunction =>
    exact .levelled (fun k => another "|" (Scanner.conjunction (groupWithin k)))
      (((performs_group k).conjunction.another (by decide)).weaken (by decide) (.inl rfl))
  | node => exact .levelled (fun k => Scanner.node (chainWithin k)) (performs_conditional k).node
  | nextTest => exact (performs_test _).attempt
  | lineEnd => exact performs_eat "\n"

/-- From every state on a boundary, every rule has an outcome: no loop goes on for more rounds
than there are bytes left, no level is begun that is not left, none is ended at depth zero, and
no cut goes through a character. The state that a rule leaves has the same text, limits and
depth, stands on a boundary that is not before the old one, and neither clears the flag nor
goes back behind the furthest place. A rule that succeeds has read something, but for templates,
which may be empty; one that fails has set the position back, or leaves that to its caller, and
a template does not fail. Unless something was too deep before, the result is that of the
parser for as many levels as are left.

In particular every round of a loop reads something; and every parse of a text in place ends
with the outcome of its parse. -/
theorem scanner_discipline :
    (∀ {α : Type} (s : Symbol α) (σ : State), σ.OnBoundary →
      ∃ r τ, s.rule.on σ = some (r, τ) ∧ σ.Reaches τ ∧
        (r.isSome = true → σ.position + s.least ≤ τ.position) ∧
        (r = none → s.failing.Allows σ τ) ∧
        (σ.tooDeep = false → ∀ c, σ.StandsAt c →
          Tells σ ((s.parser σ.levels).reply c) r τ)) ∧
    ∀ goal src limits, parse goal src limits = some (goal.parse src limits) := by
  refine ⟨?_, parse_eq⟩
  intro α s σ hσ
  obtain ⟨c, hc⟩ := State.onBoundary_iff.mp hσ
  obtain ⟨r, τ, hon, hl⟩ := performs_symbol s σ.levels σ c hc rfl
  refine ⟨r, τ, hon, hl.reaches, hl.advances, hl.fails, ?_⟩
  intro hflag c' hc'
  rw [← hc.unique hc']
  exact hl.tells hflag

/-- A conditional behind a character of two bytes, where no level is left: the flag is set, and the
position and the depth are where they were. -/
theorem scanner_discipline_at_limit :
    let σ : State :=
      { text := ['é', '\x7b', '?', 'a'], limits := ⟨100, 1⟩, position := 2, depth := 1 }
    σ.OnBoundary ∧ ∃ τ, (Symbol.rule .conditional).on σ = some (none, τ) ∧ σ.Reaches τ ∧
      τ.position = 2 ∧ τ.tooDeep = true := by
  intro σ
  have hσ : σ.OnBoundary := ⟨['é'], ['\x7b', '?', 'a'], rfl, by decide⟩
  have hrun : (Symbol.rule .conditional).on σ = some (none, { σ with tooDeep := true }) := rfl
  obtain ⟨r, τ, hon, hreaches, -⟩ := scanner_discipline.1 .conditional σ hσ
  obtain ⟨rfl, rfl⟩ : none = r ∧ { σ with tooDeep := true } = τ := by
    simpa using hrun.symm.trans hon
  exact ⟨hσ, _, hrun, hreaches, rfl, rfl⟩

end Stencil.Scanner

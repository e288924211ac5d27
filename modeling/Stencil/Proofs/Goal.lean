/-
# Stencil.Proofs.Goal -- the four kinds of parse as one

A template, a condition, a value expression and an assignment list are parsed by the same
steps, and what is proved of limits and of messages is the same for all. This module puts
the four side by side: the tree that each goal has, the parser, the grammar and the
nesting. Value expressions and assignment lists do not nest.
-/
import Stencil.Proofs.Approximation
import Stencil.Proofs.Assignment
import Stencil.Proofs.Sufficiency

namespace Stencil.Parse

namespace Goal

/-! ## Trees, parsers, grammars -/

/-- What a text is parsed into. -/
abbrev Tree : Goal → Type
  | template => Template
  | condition => Condition
  | expression => Expression
  | assignments => List Assignment

/-- Parse a whole text within limits. -/
def parse : (goal : Goal) → String → Limits → Except Failure goal.Tree
  | template => Template.parse
  | condition => Condition.parse
  | expression => Expression.parse
  | assignments => Assignment.parseAll

/-- The parser of a goal, given how deeply the text may nest. -/
def parser : (goal : Goal) → (depth : Nat) → Parser goal.Tree
  | template => Parser.template
  | condition => Parser.condition
  | expression => fun _ => Parser.expression
  | assignments => fun _ => Parser.assignments

/-- The grammar of a goal. -/
def Written : (goal : Goal) → goal.Tree → List Char → Prop
  | template => Template.Written
  | condition => Condition.Written
  | expression => Expression.Written
  | assignments => Assignment.ListWritten

/-- How deeply conditionals and groups nest in a tree. -/
def nesting : (goal : Goal) → goal.Tree → Nat
  | template => Template.nesting
  | condition => Condition.nesting
  | expression => fun _ => 0
  | assignments => fun _ => 0

variable (goal : Goal)

theorem parse_eq (src : String) (limits : Limits) :
    goal.parse src limits = Parse.parse goal goal.parser src limits := by
  cases goal <;> rfl

/-! ## What the parsers have in common -/

/-- More depth changes no answer but that the text nests too deeply. -/
theorem parser_approximates {n m : Nat} (h : n ≤ m) :
    (goal.parser n).Approximates (goal.parser m) := by
  cases goal with
  | template => exact Parser.template_approximates h
  | condition => exact Parser.condition_approximates h
  | expression => exact .refl _
  | assignments => exact .refl _

/-- A depth as great as the text is long is not used up. -/
theorem parser_ne_tooDeep {n : Nat} {c : Cursor} (h : c.rest.length ≤ n) :
    (goal.parser n).outcome c ≠ .tooDeep := by
  cases goal with
  | template => exact (Parser.template_keeps (Nat.le_refl n) c h).1
  | condition => exact (Parser.condition_keeps (Nat.le_refl n) c h).1
  | expression => exact Parser.shallow_iff.mp Parser.shallow_expression c
  | assignments => exact Parser.shallow_iff.mp Parser.shallow_assignments c

/-- Exactly the written trees that nest no deeper than the depth are read from whole texts. -/
theorem whole_eq_ok_iff {n : Nat} {text : List Char} {t : goal.Tree} :
    (goal.parser n).whole n text = .ok t ↔ goal.Written t text ∧ goal.nesting t ≤ n := by
  cases goal with
  | template => exact (Parser.template_reads n).whole_eq_ok_iff (.inl rfl)
  | condition => exact (Parser.condition_reads n).whole_eq_ok_iff (before_nil _)
  | expression =>
    exact (Parser.expression_reads.whole_eq_ok_iff (before_nil _)).trans
      (and_iff_left (Nat.zero_le n)).symm
  | assignments =>
    exact (Parser.assignments_reads.whole_eq_ok_iff rfl).trans
      (and_iff_left (Nat.zero_le n)).symm

variable {goal}

theorem Written.nesting_le_length {t : goal.Tree} {s : List Char} (h : goal.Written t s) :
    goal.nesting t ≤ s.length := by
  cases goal with
  | template => exact Template.Written.nesting_le_length h
  | condition => exact Condition.Written.nesting_le_length h
  | expression => exact Nat.zero_le _
  | assignments => exact Nat.zero_le _

/-! ## Parses within limits -/

variable {src : String} {limits : Limits}

theorem parse_of_lt (h : limits.maxBytes < src.utf8ByteSize) :
    goal.parse src limits =
      .error ⟨goal, src, .inputTooLong src.utf8ByteSize limits.maxBytes⟩ := by
  rw [parse_eq, Parse.parse, if_pos h]
  rfl

theorem parse_of_le (h : src.utf8ByteSize ≤ limits.maxBytes) :
    goal.parse src limits =
      ((goal.parser limits.maxDepth).whole limits.maxDepth src.toList).mapError
        (⟨goal, src, ·⟩) := by
  rw [parse_eq, Parse.parse, if_neg (Nat.not_lt.mpr h)]

/-- Within the bound of bytes, a text fails as its parser fails on the whole of it. -/
theorem parse_eq_error_iff (h : src.utf8ByteSize ≤ limits.maxBytes) {f : Failure} :
    goal.parse src limits = .error f ↔ f.goal = goal ∧ f.text = src ∧
      (goal.parser limits.maxDepth).whole limits.maxDepth src.toList = .error f.cause := by
  rw [parse_of_le h]
  cases (goal.parser limits.maxDepth).whole limits.maxDepth src.toList with
  | ok t => exact ⟨nofun, nofun⟩
  | error cause =>
    show (Except.error ⟨goal, src, cause⟩ : Except Failure goal.Tree) = .error f ↔ _
    constructor
    · rintro ⟨⟩
      exact ⟨rfl, rfl, rfl⟩
    · rintro ⟨rfl, rfl, hcause⟩
      rw [Except.error.inj hcause]

theorem parse_eq_ok_iff {t : goal.Tree} :
    goal.parse src limits = .ok t ↔ src.utf8ByteSize ≤ limits.maxBytes ∧
      goal.Written t src.toList ∧ goal.nesting t ≤ limits.maxDepth := by
  rw [parse_eq, Parse.parse_eq_ok_iff, whole_eq_ok_iff]

end Goal

end Stencil.Parse

/-
# Stencil.Proofs.Scanner.Template -- templates in place

The rule for templates performs the parser for templates at any number of levels. Its loop has
three kinds of rounds, of which only the conditional goes a level deeper; what a chain performs
there is known from the induction on the levels.

A conditional looks for its opener before it goes down and reads it afterwards, where the parser
reads it first. Where no level is left, the opener is never read.
-/
import Stencil.Proofs.Scanner.Expression
import Stencil.Proofs.Template.Literal

namespace Stencil.Scanner

open Parse
open Parse.Parser (atOpener literalChar)

variable {c next : Cursor} {s : List Char} {k n : Nat} {φ : Failing}

/-! ## Literal text -/

/-- Where the loop over characters goes on, so does the parser. -/
theorem literalChar_reply {x : Char} (hs : c.Spans (x :: s) next)
    (hmore : (!atOpener (x :: (s ++ next.rest))) = true) :
    ∃ mid, literalChar.reply c = ⟨.matched x mid, .none⟩ ∧ mid.Spans s next := by
  obtain ⟨hrest, hplace⟩ := hs
  refine ⟨c.advance 1 (s ++ next.rest), ?_, rfl, ?_⟩
  · have hno : atOpener (x :: (s ++ next.rest)) = false := by simpa using hmore
    have hrest' : c.rest = x :: (s ++ next.rest) := hrest
    simp [literalChar, hrest', hno]
  · rw [hplace, List.length_cons, Cursor.advance, Nat.add_right_comm, Nat.add_assoc]

/-- Where it stops, the parser fails without a note. -/
theorem literalChar_reply_of_stops (h : Stops c.rest) : literalChar.reply c = ⟨.failed, .none⟩ := by
  rcases hrest : c.rest with _ | ⟨x, cs⟩
  · simp [literalChar, hrest, Parser.fail]
  · rw [hrest] at h
    have hopener : atOpener (x :: cs) = true := h.resolve_left (List.cons_ne_nil _ _)
    simp [literalChar, hrest, hopener, Parser.fail]

/-- Literal text ends where the loop over characters ends, without a note. -/
theorem literalChars_reply (hs : c.Spans s next)
    (hruns : Runs (fun cs => !atOpener cs) s next.rest) :
    literalChar.many.reply c = ⟨.matched s next, .none⟩ := by
  rw [Parser.many_eq Parser.literalChar_advances]
  induction s generalizing c with
  | nil =>
    have hstops : Stops next.rest := hruns.imp_right (by simp)
    obtain rfl := Cursor.spans_nil_iff.mp hs
    simp [literalChar_reply_of_stops hstops, Reply.after]
  | cons x s ih =>
    obtain ⟨hmore, hruns⟩ := hruns
    obtain ⟨mid, hfirst, hs'⟩ := literalChar_reply hs hmore
    have hothers := ih hs' hruns
    rw [← Parser.many_eq Parser.literalChar_advances] at hothers
    simp [hfirst, hothers, Reply.after]

/-- Empty literals fail, and leave no note either. -/
theorem performs_literal : Performs k 1 .back literal Parser.literal := by
  intro σ c hc _
  obtain ⟨s, next, hs, hruns, hon⟩ := skipWhile_on (fun cs => !atOpener cs) hc
  have hrun : literal.on σ =
      (if s.isEmpty then failure else pure (.literal (String.ofList s)) : Rule Node).on
        (σ.past s) := by
    rw [literal, on_bind_of_some (on_mark σ), on_bind_of_some hon, on_bind_of_some (slice_on hc hs)]
  cases s with
  | nil =>
    obtain rfl := Cursor.spans_nil_iff.mp hs
    have hstops : Stops next.rest := hruns.imp_right (by simp)
    exact performsAt_failed hc hrun (by simp [Parser.literal, literalChar_reply_of_stops hstops])
  | cons x s =>
    obtain ⟨mid, hfirst, hs'⟩ := literalChar_reply hs hruns.1
    refine performsAt_past hc hs hrun (byteLength_pos (by simp)) ?_
    simp [Parser.literal, hfirst, literalChars_reply hs' hruns.2, Reply.after]

/-! ## Directives -/

theorem performs_substitution :
    Performs k 1 .anywhere substitution Parser.substitution :=
  ((performs_eat "\x7b=").bind fun _ =>
    (performs_expression.enclosed (by decide)).map Node.substitution).weaken (by decide) (.inr rfl)

/-- An opener and the test behind it take a byte at least, which is why the loop over further
branches ends. -/
theorem performs_test (opener : String) :
    Performs k 1 .anywhere (test opener)
      (do Parser.token opener; (Parser.condition k).enclosed "\x7d") :=
  ((performs_eat opener).bind fun _ => performs_condition.enclosed (by decide)).weaken
    (by omega) (.inl rfl)

/-- A chain with its first branch taken apart. -/
theorem chain_eq (test : Parser Condition) (body : Parser Template) :
    Parser.chain test body = (do
      let t ← test.enclosed "\x7d"
      let first ← body
      let others ← Parser.many do
        Parser.token "\x7b|"
        Parser.branch test body
      let last ← Parser.optional do
        Parser.token "\x7b|\x7d"
        body
      Parser.token "\x7b.\x7d"
      return .ofBranches ((t, first) :: others) last) := by
  rw [Parser.chain]
  simp only [Parser.branch, Parser.bind_assoc, Parser.pure_bind]

section Chain

-- the bodies of a chain perform their parser
variable {body : Rule Template} {bodyParser : Parser Template}
  (h : Performs k 0 .never body bodyParser)
include h

/-- The body behind a token, or nothing where the token is missing. -/
theorem Performs.last (token : String) :
    Performs k 0 .never (maybe (eat token) (fun _ => some <$> body) none)
      (Parser.optional do Parser.token token; bodyParser) := by
  intro σ c hc hk
  rw [Parser.optional, Parser.map_bind]
  refine (performs_eat token σ c hc hk).maybe hc ?_
  intro _ τ next hreaches _ hnext
  exact (h.map some) τ next hnext (hreaches.levels.trans hk)

/-- The rounds of the loop over further branches are attempts up to the end of the test; what
follows that cannot fail. -/
theorem Performs.otherBranches :
    Performs k 0 .never
      (Scanner.rounds (Scanner.attempt (test "\x7b|")) fun t => do return (t, ← body))
      (Parser.many do
        Parser.token "\x7b|"
        Parser.branch (Parser.condition k) bodyParser) := by
  have hbranch (t : Condition) : Performs k 0 .never (do return (t, ← body))
      (do return (t, ← bodyParser)) := h.bind fun b => performs_pure (t, b)
  have hrounds := (performs_test "\x7b|").attempt.rounds hbranch (by decide)
  rwa [Parser.bind_assoc] at hrounds

/-- A chain is read with its opener. -/
theorem Performs.chain :
    Performs k 1 .anywhere (chain body)
      (do Parser.token "\x7b?"; Parser.chain (Parser.condition k) bodyParser) := by
  rw [chain_eq, ← Parser.bind_assoc]
  exact ((performs_test "\x7b?").bind fun t => h.bind fun first =>
    h.otherBranches.bind fun others => (h.last "\x7b|\x7d").bind fun last =>
      (performs_eat "\x7b.\x7d").bind fun _ =>
        performs_pure (Chain.ofBranches ((t, first) :: others) last)).weaken
    (by omega) (.inr rfl)

end Chain

/-! ## Templates -/

/-- The parser for what follows the opener of a conditional, where `k` levels are left. -/
def chainBody : (k : Nat) → Parser Chain
  | 0 => Parser.tooDeep
  | k + 1 => Parser.chain (Parser.condition k) (Parser.template k)

theorem template_eq (k : Nat) : Parser.template k = (Parser.node (chainBody k)).many := by
  cases k <;> rfl

/-- The rule for conditionals does what it should with `k` levels to go. -/
def PerformsConditional (k : Nat) : Prop :=
  Performs k 1 .anywhere (conditional (chainWithin k))
    (do Parser.token "\x7b?"; .conditional <$> chainBody k)

/-- Where no level is left, the opener is seen, and nothing is read. -/
theorem performsConditional_zero : PerformsConditional 0 := by
  intro σ c hc hk
  refine PerformsAt.ahead hc ?_
  rintro ⟨rest, hrest⟩
  have hreply : (do Parser.token "\x7b?"; .conditional <$> chainBody 0 : Parser Node).reply c =
      ⟨.tooDeep, .none⟩ := by
    rw [Parser.reply_bind, token_reply hrest.symm]
    rfl
  rw [hreply]
  exact ((performs_nested_zero 1 (chainWithin 0)).map Node.conditional σ c hc hk).weaken
    (Nat.le_refl 1) (.inr rfl)

/-- Where there is a level left, the body of a chain performs its parser a level deeper. -/
theorem performsConditional_succ
    (h : Performs k 0 .never (nodes (chainWithin k)) (Parser.template k)) :
    PerformsConditional (k + 1) := by
  have hnested := h.chain.nested.map Node.conditional
  rw [Parser.map_bind] at hnested
  intro σ c hc hk
  exact .ahead hc fun _ => hnested σ c hc hk

/-- Literals restore the position by themselves, directives are attempts. -/
theorem PerformsConditional.node (h : PerformsConditional k) :
    Performs k 1 .back (node (chainWithin k)) (Parser.node (chainBody k)) :=
  performs_literal.orElse (performs_substitution.attempt.orElse (Performs.attempt h))

theorem PerformsConditional.nodes (h : PerformsConditional k) :
    Performs k 0 .never (nodes (chainWithin k)) (Parser.template k) := by
  rw [template_eq]
  exact h.node.repeated Nat.one_pos

/-- Conditionals perform their parser at any number of levels. -/
theorem performs_conditional (k : Nat) : PerformsConditional k := by
  induction k with
  | zero => exact performsConditional_zero
  | succ k ih => exact performsConditional_succ ih.nodes

/-- Templates perform the parser for as many levels as are left where they begin. -/
theorem performs_template : Performs k 0 .never template (Parser.template k) :=
  .levelled _ (performs_conditional k).nodes

end Stencil.Scanner

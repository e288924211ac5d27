/-
# Stencil.Engine.Basic -- variables, limits, and the four operations

An engine holds a store and limits. Each operation takes a text and optionally a
store; such a store replaces the engine's own before anything else happens, so it
stays even if the text cannot be parsed. The text is brought to normal form,
parsed within the limits and evaluated. Only an update changes the store, and it
changes nothing unless the whole text is parsed.

An operation is a function from the engine before to an `Execution`: the answer or
the failure, the engine after, and the events on the way.
-/
import Stencil.Assignment.Parser
import Stencil.Engine.Event
import Stencil.Template.Parser
import Stencil.Template.Rendering
import Stencil.Text.BlankLines

namespace Stencil

/-- A store, and limits on what is parsed. -/
structure Engine where
  vars : Store := .empty
  limits : Limits := {}

/-- What carrying out an operation leads to. -/
structure Execution (α : Type) where
  answer : Except Parse.Failure α
  engine : Engine
  events : List Event

namespace Engine

/-! ## What the operations share -/

/-- The engine with another store, if there is one. -/
def install (e : Engine) : Option Store → Engine
  | some vars => { e with vars }
  | none => e

/-- Begin an operation on a text, parse it, and act on the tree. The action is given
the variables and answers with them, and with further events. -/
def evaluate {τ α : Type} (e : Engine) (op : Operation)
    (parse : String → Limits → Except Parse.Failure τ)
    (act : τ → Store → α × Store × List Event)
    (src : String) (replacement : Option Store) : Execution α :=
  let e := e.install replacement
  let begun := Event.evaluate op src.utf8ByteSize e.vars.size
  match parse (Text.normalize src) e.limits with
  | .error failure => ⟨.error failure, e, [begun, .parseFailed failure.goal failure.cause]⟩
  | .ok tree =>
    let (answer, vars, events) := act tree e.vars
    ⟨.ok answer, { e with vars }, begun :: events⟩

/-- An action that only looks at the variables. -/
def reading {τ α : Type} (look : Valuation → τ → Traced α) (tree : τ) (vars : Store) :
    α × Store × List Event :=
  ((look vars.lookup tree).value, vars, [])

/-- The event of an access; reads are not reported. -/
def eventOf? : Access → Option Event
  | .get _ => none
  | .set name value => some (.assign name value)

/-- The action that carries out assignments. -/
def updating (list : List Assignment) (vars : Store) : Store × Store × List Event :=
  let (after, accesses) := Assignment.applyAll list vars
  (after, after, accesses.filterMap eventOf?)

/-! ## The operations -/

/-- Render a template, with at most one blank line in a row. -/
def transform (e : Engine) (src : String) (vars : Option Store) : Execution String :=
  e.evaluate .transform Template.parse
    (reading fun vars t => Text.collapse <$> Template.render vars t) src vars

/-- Decide a condition. -/
def conditional (e : Engine) (src : String) (vars : Option Store) : Execution Bool :=
  e.evaluate .conditional Condition.parse (reading Condition.eval) src vars

/-- Carry out a list of assignments; the answer is the store afterwards. -/
def update (e : Engine) (src : String) (vars : Option Store) : Execution Store :=
  e.evaluate .updateVariables Assignment.parseAll updating src vars

/-- Compute a value expression. -/
def calculate (e : Engine) (src : String) (vars : Option Store) : Execution Value :=
  e.evaluate .calculate Expression.parse (reading Expression.eval) src vars

end Engine

end Stencil

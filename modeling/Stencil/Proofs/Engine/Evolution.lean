/-
# Stencil.Proofs.Engine.Evolution -- the store over whole runs

Each step of a run leaves a store that is decided by the step, the limits and the store
before it (`Leaves`), and it fails, if it does, in a way that its text and the limits
decide alone (`Request.failure?`). Both are laws of a single step (`Answers`), and they hold
throughout a run, where the store before a step is the one shown with the answer before.

A supplied store is put in place whether the text can be parsed or not. An update whose
text cannot be parsed does nothing more than that, wherever in the text the mistake is.
-/
import Stencil.Proofs.Assignment.Effect
import Stencil.Proofs.Engine.Operation
import Stencil.Proofs.Goal

namespace Stencil

open Parse

/-! ## What a step asks for -/

/-- The failure of a result, if it is one. -/
def failureOf {α : Type} : Except Failure α → Option Failure
  | .error f => some f
  | .ok _ => none

/-- A text to be evaluated, and what as. -/
structure Request where
  goal : Goal
  src : String

/-- The failure of a request, if it fails: that of parsing its text in normal form. -/
def Request.failure? (r : Request) (limits : Limits) : Option Failure :=
  failureOf (r.goal.parse (Text.normalize r.src) limits)

/-- What a step asks to be evaluated, if anything. -/
def Step.request? : Step → Option Request
  | .transform src _ => some ⟨.template, src⟩
  | .conditional src _ => some ⟨.condition, src⟩
  | .update src _ => some ⟨.assignments, src⟩
  | .calculate src _ => some ⟨.expression, src⟩
  | _ => none

/-- The limits that hold after a step. -/
def Step.limitsAfter (limits : Limits) : Step → Limits
  | .withLimits new => new
  | _ => limits

/-- How an answer fails, if it does. -/
def Answer.failure? : Answer → Option Failure
  | .rendered result => failureOf result
  | .decided result => failureOf result
  | .updated result => failureOf result
  | .calculated result => failureOf result
  | _ => none

/-! ## What a step leaves -/

/-- Under some limits, a step leads from one store to the other. -/
def Step.Leaves (limits : Limits) (before after : Store) : Step → Prop
  | .transform _ vars => after = vars.getD before
  | .conditional _ vars => after = vars.getD before
  | .calculate _ vars => after = vars.getD before
  | .update src vars =>
    (∃ f, Assignment.parseAll (Text.normalize src) limits = .error f ∧ after = vars.getD before) ∨
      ∃ list, Assignment.parseAll (Text.normalize src) limits = .ok list ∧
        Assignment.Performed list (vars.getD before) after
  | .set name value => after = before.set name value
  | .unset name => after = before.unset name
  | .extend list => after = before.extend list
  | .setVars vars => after = vars
  | .get _ | .lookup _ | .contains _ | .size | .limits | .withLimits _ => after = before

namespace Engine

/-- A step is answered according to the laws, on an engine before it. -/
structure Answers (e : Engine) (s : Step) (x : Answered) : Prop where
  leaves : s.Leaves e.limits e.vars x.engine.vars
  limits : x.engine.limits = s.limitsAfter e.limits
  failure : x.answer.failure? = s.request?.bind (·.failure? e.limits)
  /-- A successful update answers with the store that it leaves. -/
  updated : ∀ after, x.answer = .updated (.ok after) → after = x.engine.vars

variable {e : Engine}

/-! ## Steps -/

theorem failureOf_map {α β : Type} (f : α → β) (r : Except Failure α) :
    failureOf (r.map f) = failureOf r := by
  cases r <;> rfl

theorem transform_failure {src : String} {vars : Option Store} :
    (Answer.rendered (e.transform src vars).answer).failure? =
      Request.failure? ⟨.template, src⟩ e.limits := by
  rw [Answer.failure?, transform_answer, failureOf_map, Request.failure?, Goal.parse]

theorem conditional_failure {src : String} {vars : Option Store} :
    (Answer.decided (e.conditional src vars).answer).failure? =
      Request.failure? ⟨.condition, src⟩ e.limits := by
  rw [Answer.failure?, conditional_answer, failureOf_map, Request.failure?, Goal.parse]

theorem calculate_failure {src : String} {vars : Option Store} :
    (Answer.calculated (e.calculate src vars).answer).failure? =
      Request.failure? ⟨.expression, src⟩ e.limits := by
  rw [Answer.failure?, calculate_answer, failureOf_map, Request.failure?, Goal.parse]

theorem update_failure {src : String} {vars : Option Store} :
    (Answer.updated (e.update src vars).answer).failure? =
      Request.failure? ⟨.assignments, src⟩ e.limits := by
  rw [Answer.failure?, update_answer, failureOf_map, Request.failure?, Goal.parse]

/-- A successful update answers with the store that it leaves. -/
theorem update_vars_of_ok {src : String} {vars : Option Store} {after : Store}
    (h : (e.update src vars).answer = .ok after) : after = (e.update src vars).engine.vars := by
  rw [update_vars, h]

theorem update_leaves (src : String) (vars : Option Store) :
    (Step.update src vars).Leaves e.limits e.vars (e.update src vars).engine.vars := by
  rw [update_vars, update_answer, Step.Leaves]
  cases Assignment.parseAll (Text.normalize src) e.limits with
  | error f => exact .inl ⟨f, rfl, rfl⟩
  | ok list => exact .inr ⟨list, rfl, Assignment.performed_applyAll list _⟩

/-- The laws of a step that carries out an operation, said of the operation. -/
theorem answers_of_execution {α : Type} {s : Step} {r : Request} {x : Execution α}
    {answer : Answer} (hr : s.request? = some r)
    (hleaves : s.Leaves e.limits e.vars x.engine.vars)
    (hlimits : x.engine.limits = s.limitsAfter e.limits)
    (hfailure : answer.failure? = r.failure? e.limits)
    (hupdated : ∀ after, answer = .updated (.ok after) → after = x.engine.vars) :
    Answers e s ⟨answer, x.engine, x.events⟩ where
  leaves := hleaves
  limits := hlimits
  failure := by rw [hr, Option.bind_some, hfailure]
  updated := hupdated

theorem step_answers (e : Engine) (s : Step) : Answers e s (e.step s) := by
  cases s with
  | transform =>
    exact answers_of_execution rfl transform_vars transform_limits transform_failure nofun
  | conditional =>
    exact answers_of_execution rfl conditional_vars conditional_limits conditional_failure nofun
  | calculate =>
    exact answers_of_execution rfl calculate_vars calculate_limits calculate_failure nofun
  | update src vars =>
    refine answers_of_execution rfl (update_leaves src vars) update_limits update_failure ?_
    intro after h
    exact update_vars_of_ok (Answer.updated.inj h)
  | set => exact ⟨rfl, rfl, rfl, nofun⟩
  | unset => exact ⟨rfl, rfl, rfl, nofun⟩
  | extend => exact ⟨rfl, rfl, rfl, nofun⟩
  | setVars => exact ⟨rfl, rfl, rfl, nofun⟩
  | withLimits => exact ⟨rfl, rfl, rfl, nofun⟩
  | get => exact ⟨rfl, rfl, rfl, nofun⟩
  | lookup => exact ⟨rfl, rfl, rfl, nofun⟩
  | contains => exact ⟨rfl, rfl, rfl, nofun⟩
  | size => exact ⟨rfl, rfl, rfl, nofun⟩
  | limits => exact ⟨rfl, rfl, rfl, nofun⟩

end Engine

/-- The store over a run. Every step is answered according to the laws, on the store and the
limits that the step before has left. What only looks at the variables leaves the supplied
store, or the one before, whether it fails or not. So does an update that fails; one that
succeeds performs its assignments in order, which changes no name but the assigned ones and
binds all of these. The limits change by no step but that which sets them, and whether an
operation fails, and how, is decided by its text and the limits. -/
theorem store_over_runs (e : Engine) (steps : List Step) :
    e.Throughout Engine.Answers steps (e.run steps) ∧
    ∀ list before after, Assignment.Performed list before after →
      (∀ name, (∀ a ∈ list, a.name ≠ name) → after.get? name = before.get? name) ∧
      ∀ name, after.contains name = true ↔
        before.contains name = true ∨ ∃ a ∈ list, a.name = name := by
  refine ⟨Engine.run_throughout Engine.step_answers e steps, ?_⟩
  intro list before after h
  exact ⟨fun _ => h.get?_eq, fun _ => h.contains_iff⟩

/-- A mistake in a later line keeps the earlier ones from being carried out; a supplied store stays. -/
example :
    let e : Engine := { vars := Store.empty.set "a" (.int 1) }
    let supplied := Store.empty.set "a" (.int 3)
    (e.run [.update "a: 2\nb c" none, .update "a: 2\nb c" (some supplied)]).map
      (·.engine.vars.lookup "a") = [.int 1, .int 3] := by
  decide +kernel

end Stencil

/-
# Stencil.Proofs.Engine.Operation -- what an operation answers and leaves

The four operations share one course: the supplied store is put in place, the text is
brought to normal form and parsed, and the tree is acted on. Here this course is split
into what it answers and which store it leaves, and for the operations that only look at
the variables, which variables they read.
-/
import Stencil.Engine.Run
import Stencil.Proofs.Whole

namespace Stencil

/-! ## Reported assignments -/

/-- The names that are assigned among some events, and their values, in order. -/
def Event.assigned (events : List Event) : List (String × Value) :=
  events.filterMap fun
    | .assign name value => some (name, value)
    | _ => none

/-- Reads are not reported. -/
theorem Event.filterMap_reads (names : List String) :
    (names.map Access.get).filterMap Engine.eventOf? = [] := by
  induction names with
  | nil => rfl
  | cons name names ih => exact ih

/-- Of a list that is carried out, the assignments are reported one after the other. -/
theorem Event.filterMap_applyAll_cons (a : Assignment) (list : List Assignment) (s : Store) :
    (Assignment.applyAll (a :: list) s).2.filterMap Engine.eventOf? =
      .assign a.name (a.value.eval s.lookup).value ::
        (Assignment.applyAll list (s.set a.name (a.value.eval s.lookup).value)).2.filterMap
          Engine.eventOf? := by
  rw [Assignment.applyAll, List.filterMap_append, filterMap_reads, List.nil_append]
  rfl

namespace Engine

/-! ## One course for all -/

variable {τ α : Type} {e : Engine} {op : Operation} {src : String} {vars : Option Store}
  {parse : String → Limits → Except Parse.Failure τ}

/-- An engine is its store and its limits. -/
@[ext] theorem ext {e e' : Engine} (hvars : e.vars = e'.vars) (hlimits : e.limits = e'.limits) :
    e = e' := by
  cases e
  cases e'
  cases hvars
  cases hlimits
  rfl

@[simp] theorem install_vars : (e.install vars).vars = vars.getD e.vars := by
  cases vars <;> rfl

@[simp] theorem install_limits : (e.install vars).limits = e.limits := by
  cases vars <;> rfl

section Evaluate

variable {act : τ → Store → α × Store × List Event}

/-- The tree is acted on with the supplied store, or else with the one in place. -/
theorem evaluate_answer : (e.evaluate op parse act src vars).answer =
    (parse (Text.normalize src) e.limits).map fun tree => (act tree (vars.getD e.vars)).1 := by
  simp only [evaluate, install_limits, install_vars]
  cases parse (Text.normalize src) e.limits <;> rfl

/-- The operation is reported first, and then either the failure or what was done. -/
theorem evaluate_events : (e.evaluate op parse act src vars).events =
    .evaluate op src.utf8ByteSize (vars.getD e.vars).size ::
      match parse (Text.normalize src) e.limits with
      | .error f => [.parseFailed f.goal f.cause]
      | .ok tree => (act tree (vars.getD e.vars)).2.2 := by
  simp only [evaluate, install_limits, install_vars]
  cases parse (Text.normalize src) e.limits <;> rfl

theorem evaluate_limits : (e.evaluate op parse act src vars).engine.limits = e.limits := by
  simp only [evaluate, install_limits]
  cases parse (Text.normalize src) e.limits with
  | error => exact install_limits
  | ok => rfl

/-- A failure leaves the store that was put in place, and only success can change it. -/
theorem evaluate_vars : (e.evaluate op parse act src vars).engine.vars =
    match parse (Text.normalize src) e.limits with
    | .error _ => vars.getD e.vars
    | .ok tree => (act tree (vars.getD e.vars)).2.1 := by
  simp only [evaluate, install_limits, install_vars]
  cases parse (Text.normalize src) e.limits with
  | error => exact install_vars
  | ok => rfl

end Evaluate

section Reading

variable {look : Valuation → τ → Traced α}

/-- What is found when a text is parsed and looked at: a value, and the names read for it. -/
def looked (e : Engine) (parse : String → Limits → Except Parse.Failure τ)
    (look : Valuation → τ → Traced α) (src : String) (vars : Option Store) :
    Except Parse.Failure (Traced α) :=
  (parse (Text.normalize src) e.limits).map (look (vars.getD e.vars).lookup)

/-- The names that were read; none if the text could not be parsed. -/
def readsOf : Except Parse.Failure (Traced α) → List String
  | .ok x => x.reads
  | .error _ => []

/-- The answer is the value that is found. -/
theorem reading_answer : (e.evaluate op parse (reading look) src vars).answer =
    (e.looked parse look src vars).map (·.value) := by
  rw [evaluate_answer, looked]
  cases parse (Text.normalize src) e.limits <;> rfl

/-- What only looks at the variables leaves them as they are, whether it fails or not. -/
theorem reading_vars :
    (e.evaluate op parse (reading look) src vars).engine.vars = vars.getD e.vars := by
  rw [evaluate_vars]
  cases parse (Text.normalize src) e.limits <;> rfl

/-- It leaves the engine with the supplied store in place. -/
theorem reading_engine :
    (e.evaluate op parse (reading look) src vars).engine = e.install vars := by
  apply Engine.ext
  · rw [reading_vars, install_vars]
  · rw [evaluate_limits, install_limits]

end Reading

/-! ## The four operations -/

/-- What each operation answers is what its tree says, the tree being that of the normalised
text. -/
theorem transform_answer : (e.transform src vars).answer =
    (Template.parse (Text.normalize src) e.limits).map fun t =>
      Text.collapse (Template.render (vars.getD e.vars).lookup t).value := by
  rw [transform, reading_answer, looked]
  cases Template.parse (Text.normalize src) e.limits <;> rfl

theorem conditional_answer : (e.conditional src vars).answer =
    (Condition.parse (Text.normalize src) e.limits).map fun t =>
      (Condition.eval (vars.getD e.vars).lookup t).value := by
  rw [conditional, reading_answer, looked]
  cases Condition.parse (Text.normalize src) e.limits <;> rfl

theorem calculate_answer : (e.calculate src vars).answer =
    (Expression.parse (Text.normalize src) e.limits).map fun t =>
      (Expression.eval (vars.getD e.vars).lookup t).value := by
  rw [calculate, reading_answer, looked]
  cases Expression.parse (Text.normalize src) e.limits <;> rfl

/-- A text is computed as the value of the expression that it is parsed into. -/
theorem calculate_eq_ok_iff {v : Value} : (e.calculate src vars).answer = .ok v ↔
    ∃ t, Expression.parse (Text.normalize src) e.limits = .ok t ∧
      (t.eval (vars.getD e.vars).lookup).value = v := by
  rw [calculate_answer, Parse.map_eq_ok_iff]

/-- An update answers with the store that its assignments make. -/
theorem update_answer : (e.update src vars).answer =
    (Assignment.parseAll (Text.normalize src) e.limits).map fun list =>
      (Assignment.applyAll list (vars.getD e.vars)).1 := by
  rw [update, evaluate_answer]
  rfl

/-- An update reports what it assigns, in the order in which that is done. -/
theorem update_events {list : List Assignment}
    (h : Assignment.parseAll (Text.normalize src) e.limits = .ok list) :
    (e.update src vars).events = .evaluate .updateVariables src.utf8ByteSize (vars.getD e.vars).size ::
      (Assignment.applyAll list (vars.getD e.vars)).2.filterMap eventOf? := by
  simp only [update, evaluate, install_limits, install_vars, h]
  rfl

theorem transform_vars : (e.transform src vars).engine.vars = vars.getD e.vars := by
  rw [transform, reading_vars]

theorem conditional_vars : (e.conditional src vars).engine.vars = vars.getD e.vars := by
  rw [conditional, reading_vars]

theorem calculate_vars : (e.calculate src vars).engine.vars = vars.getD e.vars := by
  rw [calculate, reading_vars]

/-- A failing update leaves the store as it was, and a successful one answers with the store
that it leaves. -/
theorem update_vars : (e.update src vars).engine.vars =
    match (e.update src vars).answer with
    | .error _ => vars.getD e.vars
    | .ok after => after := by
  rw [update_answer, update, evaluate_vars]
  cases Assignment.parseAll (Text.normalize src) e.limits <;> rfl

theorem transform_engine : (e.transform src vars).engine = e.install vars := by
  rw [transform, reading_engine]

theorem conditional_engine : (e.conditional src vars).engine = e.install vars := by
  rw [conditional, reading_engine]

theorem calculate_engine : (e.calculate src vars).engine = e.install vars := by
  rw [calculate, reading_engine]

theorem transform_limits : (e.transform src vars).engine.limits = e.limits := by
  rw [transform, evaluate_limits]

theorem conditional_limits : (e.conditional src vars).engine.limits = e.limits := by
  rw [conditional, evaluate_limits]

theorem calculate_limits : (e.calculate src vars).engine.limits = e.limits := by
  rw [calculate, evaluate_limits]

theorem update_limits : (e.update src vars).engine.limits = e.limits := by
  rw [update, evaluate_limits]

/-- An update whose text is parsed answers with, and leaves, what its assignments make. -/
theorem update_of_parse {list : List Assignment} (vars : Option Store)
    (h : Assignment.parseAll (Text.normalize src) e.limits = .ok list) :
    (e.update src vars).answer = .ok (Assignment.applyAll list (vars.getD e.vars)).1 ∧
      (e.update src vars).engine = ⟨(Assignment.applyAll list (vars.getD e.vars)).1, e.limits⟩ := by
  have hanswer : (e.update src vars).answer =
      .ok (Assignment.applyAll list (vars.getD e.vars)).1 := by
    rw [update_answer, h]
    rfl
  refine ⟨hanswer, Engine.ext ?_ update_limits⟩
  rw [update_vars, hanswer]

/-- It reports the assignments that are carried out. -/
theorem update_assigned {list : List Assignment} (vars : Option Store)
    (h : Assignment.parseAll (Text.normalize src) e.limits = .ok list) :
    Event.assigned (e.update src vars).events =
      Event.assigned ((Assignment.applyAll list (vars.getD e.vars)).2.filterMap eventOf?) := by
  rw [update_events h]
  rfl

/-! ## As steps -/

theorem step_transform : e.step (.transform src vars) =
    ⟨.rendered (e.transform src vars).answer, (e.transform src vars).engine,
      (e.transform src vars).events⟩ := rfl

theorem step_conditional : e.step (.conditional src vars) =
    ⟨.decided (e.conditional src vars).answer, (e.conditional src vars).engine,
      (e.conditional src vars).events⟩ := rfl

theorem step_update : e.step (.update src vars) =
    ⟨.updated (e.update src vars).answer, (e.update src vars).engine,
      (e.update src vars).events⟩ := rfl

theorem step_calculate : e.step (.calculate src vars) =
    ⟨.calculated (e.calculate src vars).answer, (e.calculate src vars).engine,
      (e.calculate src vars).events⟩ := rfl

/-- Every step of a run is answered as `P` says, on the engine that the one before has left. -/
inductive Throughout (P : Engine → Step → Answered → Prop) :
    Engine → List Step → List Answered → Prop
  | nil (e : Engine) : Throughout P e [] []
  | cons {e : Engine} {s : Step} {steps : List Step} {x : Answered} {xs : List Answered} :
      P e s x → Throughout P x.engine steps xs → Throughout P e (s :: steps) (x :: xs)

/-- What holds of the answer to every single step holds throughout every run. -/
theorem run_throughout {P : Engine → Step → Answered → Prop} (h : ∀ e s, P e s (e.step s))
    (e : Engine) (steps : List Step) : Throughout P e steps (e.run steps) := by
  induction steps generalizing e with
  | nil => exact .nil e
  | cons s steps ih => exact .cons (h e s) (ih _)

/-! ## What is read -/

/-- The names that are read to render a template, in order. -/
def transformReads (e : Engine) (src : String) (vars : Option Store) : List String :=
  readsOf (e.looked Template.parse (fun vars t => Text.collapse <$> Template.render vars t) src
    vars)

/-- The names that are read to decide a condition, in order. -/
def conditionalReads (e : Engine) (src : String) (vars : Option Store) : List String :=
  readsOf (e.looked Condition.parse Condition.eval src vars)

/-- Whether a text is a condition that holds. -/
def holds (e : Engine) (src : String) (vars : Option Store) : Bool :=
  match (e.conditional src vars).answer with
  | .ok b => b
  | .error _ => false

end Engine

end Stencil

/-
# Stencil.Proofs.Engine.Dependence -- engines that cannot be told apart

A name that is bound to `absent` and one that is not bound stand for the same. Two stores in
which all names stand for the same may still hold different bindings, but nothing that is
evaluated can tell them apart, since evaluation looks names up and does nothing else with a
store. Only the steps that ask for the bindings themselves can (`Step.asksBindings`).

So two engines with such stores and the same limits answer alike, step by step, and stay alike.
An update answers with a store; the two stores may differ in just the way those before differed.
-/
import Mathlib.Data.List.Forall2
import Stencil.Proofs.Dependence
import Stencil.Proofs.Engine.Operation

namespace Stencil

/-! ## Stores, engines and answers that are alike -/

/-- All names stand for the same. -/
def Store.Alike (s t : Store) : Prop := ∀ name, s.lookup name = t.lookup name

/-- The same limits, and stores that are alike. -/
structure Engine.Alike (e e' : Engine) : Prop where
  limits : e.limits = e'.limits
  vars : e.vars.Alike e'.vars

/-- Equal answers, or the stores that updates leave if these are alike. -/
inductive Answer.Alike : Answer → Answer → Prop
  | same (x : Answer) : Alike x x
  | updated {s t : Store} : s.Alike t → Alike (.updated (.ok s)) (.updated (.ok t))

/-- Whether a step asks which names are bound, or how many. -/
def Step.asksBindings : Step → Bool
  | .get _ | .contains _ | .unset _ | .size => true
  | _ => false

namespace Store

variable {s t : Store}

theorem Alike.refl (s : Store) : s.Alike s := fun _ => rfl

theorem Alike.lookup_eq (h : s.Alike t) : s.lookup = t.lookup := funext h

theorem Alike.set (h : s.Alike t) (name : String) (value : Value) :
    (s.set name value).Alike (t.set name value) := by
  intro other
  rw [lookup_set, lookup_set, h other]

theorem Alike.extend (h : s.Alike t) (list : List (String × Value)) :
    (s.extend list).Alike (t.extend list) := by
  induction list generalizing s t with
  | nil => exact h
  | cons b list ih => exact ih (h.set b.1 b.2)

theorem Alike.getD (h : s.Alike t) (vars : Option Store) : (vars.getD s).Alike (vars.getD t) := by
  cases vars with
  | none => exact h
  | some u => exact .refl u

/-- Assignments leave stores alike. -/
theorem Alike.applyAll (h : s.Alike t) (list : List Assignment) :
    (Assignment.applyAll list s).1.Alike (Assignment.applyAll list t).1 := by
  have hagree : ∀ name, AgreeAt s t name := fun name => (h name).symm
  have hafter := (Assignment.applyAll_of_agree list fun name _ => hagree name).2
  exact fun name => (hafter name (.inr (hagree name))).symm

end Store

namespace Engine

variable {e e' : Engine} {src : String} {vars : Option Store}

/-! ## Steps -/

theorem Alike.transform_eq (h : e.Alike e') :
    (e.transform src vars).answer = (e'.transform src vars).answer := by
  rw [transform_answer, transform_answer, h.limits, (h.vars.getD vars).lookup_eq]

theorem Alike.conditional_eq (h : e.Alike e') :
    (e.conditional src vars).answer = (e'.conditional src vars).answer := by
  rw [conditional_answer, conditional_answer, h.limits, (h.vars.getD vars).lookup_eq]

theorem Alike.calculate_eq (h : e.Alike e') :
    (e.calculate src vars).answer = (e'.calculate src vars).answer := by
  rw [calculate_answer, calculate_answer, h.limits, (h.vars.getD vars).lookup_eq]

/-- An update fails with one failure on both sides, or leaves stores that are alike. -/
theorem Alike.update (h : e.Alike e') (src : String) (vars : Option Store) :
    (Answer.updated (e.update src vars).answer).Alike (.updated (e'.update src vars).answer) ∧
      (e.update src vars).engine.vars.Alike (e'.update src vars).engine.vars := by
  rw [update_vars, update_vars, update_answer, update_answer, h.limits]
  have hvars := h.vars.getD vars
  cases Assignment.parseAll (Text.normalize src) e'.limits with
  | error f => exact ⟨.same _, hvars⟩
  | ok list => exact ⟨.updated (hvars.applyAll list), hvars.applyAll list⟩

/-- What is put in place on both sides leaves engines alike. -/
theorem Alike.install (h : e.Alike e') (vars : Option Store) :
    (e.install vars).Alike (e'.install vars) where
  limits := by rw [install_limits, install_limits, h.limits]
  vars := by
    rw [install_vars, install_vars]
    exact h.vars.getD vars

/-- A step that does not ask for bindings is answered alike and leaves engines alike. -/
theorem Alike.step (h : e.Alike e') {s : Step} (hs : s.asksBindings = false) :
    (e.step s).answer.Alike (e'.step s).answer ∧ (e.step s).engine.Alike (e'.step s).engine := by
  cases s with
  | transform src vars =>
    rw [step_transform, step_transform, h.transform_eq, transform_engine, transform_engine]
    exact ⟨.same _, h.install vars⟩
  | conditional src vars =>
    rw [step_conditional, step_conditional, h.conditional_eq, conditional_engine,
      conditional_engine]
    exact ⟨.same _, h.install vars⟩
  | calculate src vars =>
    rw [step_calculate, step_calculate, h.calculate_eq, calculate_engine, calculate_engine]
    exact ⟨.same _, h.install vars⟩
  | update src vars =>
    rw [step_update, step_update]
    dsimp only
    obtain ⟨hanswer, hvars⟩ := h.update src vars
    have hlimits : (e.update src vars).engine.limits = (e'.update src vars).engine.limits := by
      rw [update_limits, update_limits, h.limits]
    exact ⟨hanswer, hlimits, hvars⟩
  | lookup name =>
    refine ⟨?_, h⟩
    rw [Engine.step, Engine.step, h.vars name]
    exact .same _
  | set name value => exact ⟨.same _, h.limits, h.vars.set name value⟩
  | extend list => exact ⟨.same _, h.limits, h.vars.extend list⟩
  | setVars vars => exact ⟨.same _, h.limits, .refl vars⟩
  | limits =>
    refine ⟨?_, h⟩
    rw [Engine.step, Engine.step, h.limits]
    exact .same _
  | withLimits limits => exact ⟨.same _, rfl, h.vars⟩
  | get => cases hs
  | contains => cases hs
  | unset => cases hs
  | size => cases hs

/-! ## Runs -/

/-- Step by step, two runs are answered alike and leave engines alike. -/
theorem Alike.run (h : e.Alike e') {steps : List Step}
    (hsteps : ∀ s ∈ steps, s.asksBindings = false) :
    List.Forall₂ (fun x y => x.answer.Alike y.answer ∧ x.engine.Alike y.engine)
      (e.run steps) (e'.run steps) := by
  induction steps generalizing e e' with
  | nil => exact .nil
  | cons s steps ih =>
    obtain ⟨hs, hsteps⟩ := List.forall_mem_cons.mp hsteps
    have hstep := h.step hs
    exact .cons hstep (ih hstep.2 hsteps)

end Engine

/-- Evaluation is decided by what it reads. Variables that agree at the names that are read for a
template, a condition or an expression lead to the same result, with the same reads in the same
order. Environments that agree at the names that a list of assignments reads before it binds them
are accessed alike, down to the values that are bound, and afterwards agree at the bound names and
wherever they agreed before. So two engines with the same limits, whose stores give each name one
value, answer every step of a run alike and stay alike, unless a step asks for the bindings. -/
theorem reads_decide_evaluation :
    (∀ (t : Template) (vars vars' : Valuation),
      (∀ name ∈ (Template.render vars t).reads, vars' name = vars name) →
        Template.render vars' t = Template.render vars t) ∧
    (∀ (c : Condition) (vars vars' : Valuation),
      (∀ name ∈ (Condition.eval vars c).reads, vars' name = vars name) →
        Condition.eval vars' c = Condition.eval vars c) ∧
    (∀ (x : Expression) (vars vars' : Valuation),
      (∀ name ∈ (x.eval vars).reads, vars' name = vars name) → x.eval vars' = x.eval vars) ∧
    (∀ (σ τ : Type) [Environment σ] [Environment τ] [LawfulEnvironment σ] [LawfulEnvironment τ]
      (list : List Assignment) (env : σ) (env' : τ),
      (∀ name ∈ Access.readFirst (Assignment.applyAll list env).2, AgreeAt env env' name) →
        (Assignment.applyAll list env').2 = (Assignment.applyAll list env).2 ∧
        ∀ name, (∃ a ∈ list, a.name = name) ∨ AgreeAt env env' name →
          AgreeAt (Assignment.applyAll list env).1 (Assignment.applyAll list env').1 name) ∧
    ∀ (e e' : Engine) (steps : List Step), e.Alike e' → (∀ s ∈ steps, s.asksBindings = false) →
      List.Forall₂ (fun x y => x.answer.Alike y.answer ∧ x.engine.Alike y.engine)
        (e.run steps) (e'.run steps) := by
  refine ⟨?_, ?_, ?_, ?_, ?_⟩
  · intro t vars vars' h
    exact Template.render_decidedByReads t vars vars' h
  · intro c vars vars' h
    exact Condition.eval_decidedByReads c vars vars' h
  · intro x vars vars' h
    exact x.eval_decidedByReads vars vars' h
  · intro σ τ _ _ _ _ list env env' h
    exact Assignment.applyAll_of_agree list h
  · intro e e' steps h hsteps
    exact h.run hsteps

/-- A condition that holds by its first part does not read what the second asks for, a name may
stand for anything before it is bound, and a name bound to nothing is as good as unbound. -/
theorem reads_decide_evaluation_early :
    let s := Store.empty.set "a" (.int 1)
    let t := s.set "b" (.int 2)
    let u := s.set "b" .absent
    let test : Condition := [[.present false "a"], [.present false "b"]]
    let chain : Template := [.conditional (.branch test [.literal "x"] .done)]
    let twice : Expression := .arithmetic (.lookup "a") .plus (.lookup "a")
    let list : List Assignment := [⟨"b", twice⟩, ⟨"c", .operand (.lookup "b")⟩]
    let steps : List Step := [.update "c: b" none, .transform "[{=c}]" none]
    ((∀ name ∈ (Template.render s.lookup chain).reads, t.lookup name = s.lookup name) ∧
      Template.render t.lookup chain = Template.render s.lookup chain) ∧
    ((∀ name ∈ (Condition.eval s.lookup test).reads, t.lookup name = s.lookup name) ∧
      Condition.eval t.lookup test = Condition.eval s.lookup test) ∧
    ((∀ name ∈ (twice.eval s.lookup).reads, t.lookup name = s.lookup name) ∧
      twice.eval t.lookup = twice.eval s.lookup) ∧
    ((∀ name ∈ Access.readFirst (Assignment.applyAll list s).2, AgreeAt s t name) ∧
      (Assignment.applyAll list t).2 = (Assignment.applyAll list s).2) ∧
    (Engine.Alike { vars := s } { vars := u } ∧ (∀ x ∈ steps, x.asksBindings = false) ∧
      List.Forall₂ (fun x y => x.answer.Alike y.answer ∧ x.engine.Alike y.engine)
        (Engine.run { vars := s } steps) (Engine.run { vars := u } steps)) := by
  intro s t u test chain twice list steps
  obtain ⟨htemplate, hcondition, hexpression, hlist, hrun⟩ := reads_decide_evaluation
  have hchain : ∀ name ∈ (Template.render s.lookup chain).reads,
      t.lookup name = s.lookup name := by decide +kernel
  have htest : ∀ name ∈ (Condition.eval s.lookup test).reads,
      t.lookup name = s.lookup name := by decide +kernel
  have htwice : ∀ name ∈ (twice.eval s.lookup).reads, t.lookup name = s.lookup name := by
    decide +kernel
  have hfirst : ∀ name ∈ Access.readFirst (Assignment.applyAll list s).2,
      t.lookup name = s.lookup name := by decide +kernel
  have hu : s.Alike u := by
    intro name
    rw [Store.lookup_set s]
    by_cases hname : "b" = name
    · rw [if_pos hname, ← hname]
      decide +kernel
    · rw [if_neg hname]
  have halike : Engine.Alike { vars := s } { vars := u } := ⟨rfl, hu⟩
  have hsteps : ∀ x ∈ steps, x.asksBindings = false := by simp [steps, Step.asksBindings]
  exact ⟨⟨hchain, htemplate _ _ _ hchain⟩, ⟨htest, hcondition _ _ _ htest⟩,
    ⟨htwice, hexpression _ _ _ htwice⟩, ⟨hfirst, (hlist _ _ list s t hfirst).1⟩,
    halike, hsteps, hrun _ _ steps halike hsteps⟩

end Stencil

/-
# Stencil.Proofs.Engine.Normal -- numbers stay normal over whole runs

If an engine starts with normal values and is supplied with normal values only, then it holds
and answers with normal values only, whatever texts it is given. A store grows by what is
supplied, which is normal, and by the values of expressions. Such a value is a number that
stands in the tree, which a numeral wrote, or the result of an operation, which is normal by
itself, or the copy of a value that was normal before.
-/
import Stencil.Proofs.Engine.Evolution
import Stencil.Proofs.Numbers
import Stencil.Proofs.Value.Normal

namespace Stencil

open Parse

/-! ## Stores -/

namespace Store

/-- A store of normal values. -/
def IsNormal (s : Store) : Prop := ∀ name v, s.get? name = some v → v.IsNormal

variable {s : Store}

theorem isNormal_empty : empty.IsNormal := by
  intro name v h
  rw [get?_empty] at h
  cases h

theorem IsNormal.lookup (h : s.IsNormal) (name : String) : (s.lookup name).IsNormal := by
  unfold Store.lookup
  cases hget : s.get? name with
  | none => trivial
  | some v => exact h name v hget

theorem IsNormal.set (h : s.IsNormal) {v : Value} (hv : v.IsNormal) (name : String) :
    (s.set name v).IsNormal := by
  intro other w hw
  rw [get?_set] at hw
  split at hw
  · rwa [← Option.some.inj hw]
  · exact h other w hw

theorem IsNormal.unset (h : s.IsNormal) (name : String) : (s.unset name).IsNormal := by
  intro other w hw
  rw [get?_unset] at hw
  split at hw
  · cases hw
  · exact h other w hw

theorem IsNormal.extend {list : List (String × Value)} (h : s.IsNormal)
    (hlist : ∀ b ∈ list, b.2.IsNormal) : (s.extend list).IsNormal := by
  induction list generalizing s with
  | nil => exact h
  | cons b list ih =>
    obtain ⟨hb, hlist⟩ := List.forall_mem_cons.mp hlist
    exact ih (h.set hb b.1) hlist

end Store

/-! ## Evaluation -/

section Evaluation

variable {vars : Valuation}

theorem Operand.isNormal_eval {a : Operand} (hvars : ∀ name, (vars name).IsNormal)
    (ha : ∀ v ∈ a.numbers, v.IsNormal) : (a.eval vars).value.IsNormal := by
  cases a with
  | lookup name => exact hvars name
  | number v => exact ha v (List.mem_singleton.mpr rfl)
  | text => trivial

/-- An expression makes normal values from normal ones. -/
theorem Expression.isNormal_eval {e : Expression} (hvars : ∀ name, (vars name).IsNormal)
    (he : ∀ v ∈ e.numbers, v.IsNormal) : (e.eval vars).value.IsNormal := by
  cases e with
  | truth => trivial
  | arithmetic => exact Value.isNormal_combine ..
  | operand a => exact Operand.isNormal_eval hvars he

theorem Assignment.Performed.isNormal {list : List Assignment} {s t : Store}
    (h : Performed list s t) (hs : s.IsNormal)
    (hlist : ∀ v ∈ Assignment.numbers list, v.IsNormal) : t.IsNormal := by
  induction h with
  | nil => exact hs
  | cons _ ih =>
    obtain ⟨hfirst, hrest⟩ := List.forall_mem_append.mp hlist
    exact ih (hs.set (Expression.isNormal_eval hs.lookup hfirst) _) hrest

end Evaluation

/-! ## Trees -/

/-- The numbers in a parsed tree are normal. -/
theorem Parse.Goal.isNormal_of_parse (goal : Goal) {src : String} {limits : Limits}
    {tree : goal.Tree} (h : goal.parse src limits = .ok tree) :
    ∀ v ∈ goal.numbers tree, v.IsNormal := by
  obtain ⟨-, hwritten, -⟩ := Goal.parse_eq_ok_iff.mp h
  intro v hv
  obtain ⟨u, -, hnumeral⟩ := hwritten.isNumber hv
  exact Value.isNormal_of_ofNumeral? hnumeral

/-! ## Steps -/

/-- The values that a step supplies are normal. -/
def Step.SuppliesNormal : Step → Prop
  | .transform _ vars | .conditional _ vars | .update _ vars | .calculate _ vars =>
    ∀ s, vars = some s → s.IsNormal
  | .set _ value => value.IsNormal
  | .extend list => ∀ b ∈ list, b.2.IsNormal
  | .setVars vars => vars.IsNormal
  | .get _ | .lookup _ | .contains _ | .unset _ | .size | .limits | .withLimits _ => True

/-- The values that an answer shows are normal. -/
def Answer.IsNormal : Answer → Prop
  | .updated result => ∀ s, result = .ok s → s.IsNormal
  | .calculated result => ∀ v, result = .ok v → v.IsNormal
  | .binding bound => ∀ v, bound = some v → v.IsNormal
  | .value v => v.IsNormal
  | .rendered _ | .decided _ | .flag _ | .size _ _ | .limits _ | .done => True

namespace Engine

variable {e : Engine} {s : Step}

theorem isNormal_getD {vars : Option Store} (he : e.vars.IsNormal)
    (hvars : ∀ s, vars = some s → s.IsNormal) : (vars.getD e.vars).IsNormal := by
  cases vars with
  | none => exact he
  | some s => exact hvars s rfl

/-- Every way in which a step leads from one store to another keeps the values normal. -/
theorem isNormal_of_leaves {limits : Limits} {after : Store}
    (h : s.Leaves limits e.vars after) (he : e.vars.IsNormal) (hs : s.SuppliesNormal) :
    after.IsNormal := by
  cases s with
  | transform _ vars => exact h ▸ isNormal_getD he hs
  | conditional _ vars => exact h ▸ isNormal_getD he hs
  | calculate _ vars => exact h ▸ isNormal_getD he hs
  | update src vars =>
    obtain ⟨_, -, rfl⟩ | ⟨list, hlist, hperformed⟩ := h
    · -- the text is no list, and the supplied store stays
      exact isNormal_getD he hs
    · exact hperformed.isNormal (isNormal_getD he hs)
        (Goal.isNormal_of_parse .assignments hlist)
  | set name value => exact h ▸ he.set hs name
  | unset name => exact h ▸ he.unset name
  | extend list => exact h ▸ he.extend hs
  | setVars vars => exact h ▸ hs
  | get => exact h ▸ he
  | lookup => exact h ▸ he
  | contains => exact h ▸ he
  | size => exact h ▸ he
  | limits => exact h ▸ he
  | withLimits => exact h ▸ he

theorem isNormal_calculate {src : String} {vars : Option Store} {v : Value}
    (hvars : (vars.getD e.vars).IsNormal) (h : (e.calculate src vars).answer = .ok v) :
    v.IsNormal := by
  obtain ⟨t, ht, rfl⟩ := calculate_eq_ok_iff.mp h
  exact Expression.isNormal_eval hvars.lookup (Goal.isNormal_of_parse .expression ht)

/-- A step on normal values leaves normal values and answers with normal values. -/
theorem step_isNormal (he : e.vars.IsNormal) (hs : s.SuppliesNormal) :
    (e.step s).engine.vars.IsNormal ∧ (e.step s).answer.IsNormal := by
  have hafter := isNormal_of_leaves (step_answers e s).leaves he hs
  refine ⟨hafter, ?_⟩
  -- four kinds of steps show values
  cases s with
  | update src vars =>
    intro after h
    rw [(step_answers e (.update src vars)).updated after (congrArg Answer.updated h)]
    exact hafter
  | calculate src vars => exact fun v h => isNormal_calculate (isNormal_getD he hs) h
  | get name => exact he name
  | lookup name => exact he.lookup name
  | transform => trivial
  | conditional => trivial
  | contains => trivial
  | set => trivial
  | unset => trivial
  | extend => trivial
  | setVars => trivial
  | size => trivial
  | limits => trivial
  | withLimits => trivial

/-! ## Runs -/

theorem run_isNormal {steps : List Step} (he : e.vars.IsNormal)
    (hsteps : ∀ s ∈ steps, s.SuppliesNormal) :
    ∀ x ∈ e.run steps, x.engine.vars.IsNormal ∧ x.answer.IsNormal := by
  induction steps generalizing e with
  | nil =>
    intro x hx
    cases hx
  | cons s steps ih =>
    obtain ⟨hs, hsteps⟩ := List.forall_mem_cons.mp hsteps
    have hstep := step_isNormal he hs
    exact List.forall_mem_cons.mpr ⟨hstep, ih hstep.1 hsteps⟩

end Engine

/-- Numbers over a run. If the store and everything that is supplied is normal, then every store
that a run reaches and every value that it answers with is normal; so are the numbers in every
tree that is parsed, and every value that is converted from a binary64 number. A normal
binary64 number is finite and no integer of 64 bits, and no number has two normal values. -/
theorem numbers_normal_over_runs (e : Engine) (steps : List Step) (he : e.vars.IsNormal)
    (hsteps : ∀ s ∈ steps, s.SuppliesNormal) :
    (∀ x ∈ e.run steps, x.engine.vars.IsNormal ∧ x.answer.IsNormal) ∧
    (∀ (goal : Goal) (src : String) (limits : Limits) (tree : goal.Tree),
      goal.parse src limits = .ok tree → ∀ v ∈ goal.numbers tree, v.IsNormal) ∧
    (∀ x, (Value.ofDouble x).IsNormal) ∧
    (∀ v : Value, v.IsNormal ↔ ∀ x, v = .float x →
      x.isFinite = true ∧ ∀ n, x.toInt? = some n → ¬ (-2 ^ 63 ≤ n ∧ n < 2 ^ 63)) ∧
    ∀ (v w : Value) (k : Int), v.IsNormal → w.IsNormal → v.units? = some k →
      w.units? = some k → v = w :=
  ⟨Engine.run_isNormal he hsteps, fun goal _ _ _ => goal.isNormal_of_parse,
    Value.isNormal_ofDouble, fun _ => Value.isNormal_iff, fun _ _ _ => Value.eq_of_units?_eq⟩

/-- A sum past the range of integers is a normal binary64 number, and a sum of binary64 numbers
comes back into this range as an integer. -/
theorem numbers_normal_over_runs_overflow :
    let e : Engine := { vars := Store.empty.set "a" (.int Int64.maxValue) }
    let steps : List Step := [.update "b: a + 1\nc: 1.5" none, .update "d: c + c" none]
    e.vars.IsNormal ∧ (∀ s ∈ steps, s.SuppliesNormal) ∧
      (∀ x ∈ e.run steps, x.engine.vars.IsNormal ∧ x.answer.IsNormal) ∧
      (e.run steps).map (fun x => (x.engine.vars.lookup "b", x.engine.vars.lookup "d")) =
        [(.float (.ofInt (2 ^ 63)), .absent), (.float (.ofInt (2 ^ 63)), .int 3)] := by
  intro e steps
  have he : e.vars.IsNormal := Store.isNormal_empty.set (v := .int _) trivial "a"
  have hsteps : ∀ s ∈ steps, s.SuppliesNormal := by simp [steps, Step.SuppliesNormal]
  exact ⟨he, hsteps, (numbers_normal_over_runs e steps he hsteps).1, by decide +kernel⟩

end Stencil

/-
# Stencil.Engine.Run -- sequences of steps

Everything that can be asked of an engine is a `Step`: one of the four operations,
a look at its store or limits, or a change of them. `Engine.step` carries one out
and `Engine.run` a sequence of them, each on the engine that the one before left.
-/
import Stencil.Engine.Basic

namespace Stencil

/-- Something asked of an engine. -/
inductive Step where
  | transform (src : String) (vars : Option Store)
  | conditional (src : String) (vars : Option Store)
  | update (src : String) (vars : Option Store)
  | calculate (src : String) (vars : Option Store)
  | get (name : String)
  | lookup (name : String)
  | contains (name : String)
  | set (name : String) (value : Value)
  | unset (name : String)
  | extend (list : List (String × Value))
  | setVars (vars : Store)
  | size
  | limits
  | withLimits (limits : Limits)

/-- The answer to a step. -/
inductive Answer where
  | rendered (result : Except Parse.Failure String)
  | decided (result : Except Parse.Failure Bool)
  | updated (result : Except Parse.Failure Store)
  | calculated (result : Except Parse.Failure Value)
  | binding (value : Option Value)
  | value (v : Value)
  | flag (b : Bool)
  | size (n : Nat) (isEmpty : Bool)
  | limits (limits : Limits)
  | done

/-- An answered step: the answer, the engine after it, and the events of it. -/
structure Answered where
  answer : Answer
  engine : Engine
  events : List Event

namespace Engine

/-- Carry out one step. -/
def step (e : Engine) : Step → Answered
  | .transform src vars =>
    let x := e.transform src vars
    ⟨.rendered x.answer, x.engine, x.events⟩
  | .conditional src vars =>
    let x := e.conditional src vars
    ⟨.decided x.answer, x.engine, x.events⟩
  | .update src vars =>
    let x := e.update src vars
    ⟨.updated x.answer, x.engine, x.events⟩
  | .calculate src vars =>
    let x := e.calculate src vars
    ⟨.calculated x.answer, x.engine, x.events⟩
  | .get name => ⟨.binding (e.vars.get? name), e, []⟩
  | .lookup name => ⟨.value (e.vars.lookup name), e, []⟩
  | .contains name => ⟨.flag (e.vars.contains name), e, []⟩
  | .set name value => ⟨.done, { e with vars := e.vars.set name value }, []⟩
  | .unset name =>
    ⟨.flag (e.vars.contains name), { e with vars := e.vars.unset name }, []⟩
  | .extend list => ⟨.done, { e with vars := e.vars.extend list }, []⟩
  | .setVars vars => ⟨.done, { e with vars }, []⟩
  | .size => ⟨.size e.vars.size e.vars.isEmpty, e, []⟩
  | .limits => ⟨.limits e.limits, e, []⟩
  | .withLimits limits => ⟨.done, { e with limits }, []⟩

/-- Carry out steps in order, each answered on the engine that the last one left. -/
def run (e : Engine) : List Step → List Answered
  | [] => []
  | s :: steps =>
    let answered := e.step s
    answered :: run answered.engine steps

end Engine

end Stencil

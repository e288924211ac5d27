/-
# Stencil.Engine.Event -- what an engine reports while it works

Three kinds of event are reported: an operation was begun, a text could not be
parsed, a variable was assigned. An event is data; `level`, `message` and `fields`
are its form in a log.
-/
import Stencil.Parse.Failure
import Stencil.Value.Basic

namespace Stencil

/-- The four operations that evaluate a text. -/
inductive Operation where
  | transform
  | conditional
  | updateVariables
  | calculate
deriving DecidableEq

/-- An operation's name in a log. -/
def Operation.describe : Operation → String
  | transform => "transform"
  | conditional => "conditional"
  | updateVariables => "update_variables"
  | calculate => "calculate"

/-- Something that happened while an operation was carried out. -/
inductive Event where
  /-- An operation was begun on a text of so many bytes, with so many variables. -/
  | evaluate (op : Operation) (length vars : Nat)
  | parseFailed (goal : Parse.Goal) (cause : Parse.Cause)
  | assign (name : String) (value : Value)
deriving DecidableEq

namespace Event

/-- The level of an event in a log. -/
def level : Event → String
  | parseFailed _ _ => "DEBUG"
  | _ => "TRACE"

/-- The message of an event in a log. -/
def message : Event → String
  | evaluate _ _ _ => "evaluate"
  | parseFailed _ _ => "parse failed"
  | assign _ _ => "assign"

/-- The named fields of an event in a log. -/
def fields : Event → List (String × String)
  | evaluate op length vars =>
    [("op", op.describe), ("len", toString length), ("vars", toString vars)]
  | parseFailed goal cause => [("rule", goal.describe), ("cause", cause.message)]
  | assign name value => [("name", name), ("value", value.text), ("ty", value.typeName)]

end Event

end Stencil

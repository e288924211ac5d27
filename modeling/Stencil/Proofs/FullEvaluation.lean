/-
# Stencil.Proofs.FullEvaluation -- deciding early changes nothing but what is read

Evaluation ends as early as it can, at three places: a conjunction at an atom that does not hold,
a disjunction at a conjunction that does, and a chain at a test that does. This module evaluates
everything first, and then decides from what was found: a condition has a truth value for every
one of its atoms (`Condition.verdicts`), a chain one for each of its tests and a text for each of
its bodies. It is shown that the outcome is the same, and that what is read on the short way is
read on the long one in the same order (`Traced.Refines`).

The long way is long indeed: a condition reads every name that stands in it, and so does a
template, though a chain reads for all its tests before it reads for any of its bodies.
-/
import Stencil.Proofs.Operands
import Stencil.Template.Rendering

namespace Stencil

/-! ## The same with fewer reads -/

namespace Traced

variable {α β γ : Type} {x y : Traced α}

theorem bind_bind (x : Traced α) (f : α → Traced β) (g : β → Traced γ) :
    x >>= f >>= g = x >>= fun a => f a >>= g :=
  congrArg (Traced.mk _) (List.append_assoc _ _ _)

/-- The results are the same, and the names that are read for the first are some of those for the
second, in the same order. -/
structure Refines (x y : Traced α) : Prop where
  value : x.value = y.value
  reads : x.reads.Sublist y.reads

theorem Refines.refl (x : Traced α) : x.Refines x := ⟨rfl, List.Sublist.refl _⟩

theorem Refines.map (h : x.Refines y) (f : α → β) : (f <$> x).Refines (f <$> y) :=
  ⟨congrArg f h.value, h.reads⟩

theorem Refines.bind {f g : α → Traced β} (h : x.Refines y) (hfg : ∀ a, (f a).Refines (g a)) :
    (x >>= f).Refines (y >>= g) where
  value := by
    rw [value_bind, value_bind, h.value]
    exact (hfg _).value
  reads := by
    rw [reads_bind, reads_bind, h.value]
    exact h.reads.append (hfg _).reads

/-- What is skipped does not matter to a result that is settled without it. -/
theorem refines_skip (b : β) (y : Traced α) : (pure b : Traced β).Refines ((fun _ => b) <$> y) :=
  ⟨rfl, List.nil_sublist _⟩

end Traced

open Traced

/-! ## Evaluating everything -/

/-- Whether the truth values of some conjunctions make the disjunction of them hold. -/
def decided (verdicts : List (List Bool)) : Bool := verdicts.any (·.all id)

mutual

/-- Whether an atom holds; a group is decided when all that is in it has been evaluated. -/
def Atom.evalFully (vars : Valuation) : Atom → Traced Bool
  | .compare a op b => do
    let v ← a.eval vars
    let w ← b.eval vars
    return v.satisfies op w
  | .present inverted name => (·.isTruthy != inverted) <$> Traced.read vars name
  | .group inverted inner => (decided · != inverted) <$> Condition.verdicts vars inner

/-- Which atoms of a conjunction hold. -/
def Conjunction.verdicts (vars : Valuation) : List Atom → Traced (List Bool)
  | [] => pure []
  | atom :: atoms => do
    let holds ← Atom.evalFully vars atom
    (holds :: ·) <$> Conjunction.verdicts vars atoms

/-- Which atoms of the conjunctions of a condition hold. -/
def Condition.verdicts (vars : Valuation) : List (List Atom) → Traced (List (List Bool))
  | [] => pure []
  | term :: terms => do
    let first ← Conjunction.verdicts vars term
    (first :: ·) <$> Condition.verdicts vars terms

end

/-- Whether a condition holds, decided when all of it has been evaluated. -/
def Condition.evalFully (vars : Valuation) (terms : Condition) : Traced Bool :=
  decided <$> Condition.verdicts vars terms

namespace Chain

/-- Which tests of a chain hold. -/
def verdicts (vars : Valuation) : Chain → Traced (List Bool)
  | .branch test _ rest => do
    let holds ← Condition.evalFully vars test
    (holds :: ·) <$> rest.verdicts vars
  | .otherwise _ => pure []
  | .done => pure []

/-- Of what belongs to the branches with tests, and perhaps to one without: that of the first
branch whose test holds, else that of the branch without a test, if there is one. -/
def pick {α : Type} (verdicts : List Bool) (choices : List α × Option α) : Option α :=
  (((verdicts.zip choices.1).find? (·.1)).map (·.2)).or choices.2

/-- The bodies of the branches with tests, and that of the branch without. -/
def bodies : Chain → List Template × Option Template
  | .branch _ body rest => (body :: rest.bodies.1, rest.bodies.2)
  | .otherwise body => ([], some body)
  | .done => ([], none)

/-- The branch that is taken, picked when all tests have been evaluated. -/
def selectFully (vars : Valuation) (chain : Chain) : Traced (Option Template) :=
  (pick · chain.bodies) <$> chain.verdicts vars

end Chain

mutual

/-- The text of a node, when everything in it has been rendered. -/
def Node.renderFully (vars : Valuation) : Node → Traced String
  | .literal text => pure text
  | .substitution e => Value.text <$> e.eval vars
  | .conditional chain => do
    let verdicts ← chain.verdicts vars
    (fun texts => (Chain.pick verdicts texts).getD "") <$> Chain.texts vars chain

/-- The text of a template, when everything in it has been rendered. -/
def Template.renderFully (vars : Valuation) : List Node → Traced String
  | [] => pure ""
  | node :: nodes => do
    let first ← Node.renderFully vars node
    (first ++ ·) <$> Template.renderFully vars nodes

/-- The texts of the bodies of the branches with tests, and that of the branch without. -/
def Chain.texts (vars : Valuation) : Chain → Traced (List String × Option String)
  | .branch _ body rest => do
    let text ← Template.renderFully vars body
    (fun texts => (text :: texts.1, texts.2)) <$> Chain.texts vars rest
  | .otherwise body => (fun text => ([], some text)) <$> Template.renderFully vars body
  | .done => pure ([], none)

end

variable {vars : Valuation}

/-! ### Nothing is left out -/

/-- The names that stand in some operands. -/
def namesOf (operands : List Operand) : List String := operands.flatMap Operand.names

theorem namesOf_append (a b : List Operand) : namesOf (a ++ b) = namesOf a ++ namesOf b :=
  List.flatMap_append

theorem Operand.reads_eval (a : Operand) : (a.eval vars).reads = a.names := by
  cases a <;> rfl

theorem reads_eval_eval {β : Type} (a b : Operand) (f : Value → Value → β) :
    (do let v ← a.eval vars; let w ← b.eval vars; return f v w : Traced β).reads =
      namesOf [a, b] := by
  show (a.eval vars).reads ++ ((b.eval vars).reads ++ []) = a.names ++ (b.names ++ [])
  rw [a.reads_eval, b.reads_eval]

theorem Expression.reads_eval (e : Expression) : (e.eval vars).reads = namesOf e.operands := by
  cases e with
  | truth b => rfl
  | arithmetic a op b => exact reads_eval_eval a b _
  | operand a => rw [eval, a.reads_eval, operands, namesOf, List.flatMap_singleton]

mutual

theorem Atom.reads_evalFully : (atom : Atom) →
    (Atom.evalFully vars atom).reads = namesOf atom.operands
  | .compare a op b => reads_eval_eval a b _
  | .present _ _ => rfl
  | .group _ inner => by
    unfold Atom.evalFully Atom.operands
    exact Condition.reads_verdicts inner

theorem Conjunction.reads_verdicts : (atoms : List Atom) →
    (Conjunction.verdicts vars atoms).reads = namesOf (Conjunction.operands atoms)
  | [] => rfl
  | atom :: atoms => by
    rw [Conjunction.verdicts, Conjunction.operands, reads_bind, reads_map,
      Atom.reads_evalFully atom, Conjunction.reads_verdicts atoms, namesOf_append]

theorem Condition.reads_verdicts : (terms : List (List Atom)) →
    (Condition.verdicts vars terms).reads = namesOf (Condition.operands terms)
  | [] => rfl
  | term :: terms => by
    rw [Condition.verdicts, Condition.operands, reads_bind, reads_map,
      Conjunction.reads_verdicts term, Condition.reads_verdicts terms, namesOf_append]

end

/-- Every name in a condition is read, in the order of the text. -/
theorem Condition.reads_evalFully (terms : Condition) :
    (Condition.evalFully vars terms).reads = namesOf (Condition.operands terms) :=
  Condition.reads_verdicts terms

mutual

theorem Node.reads_renderFully : (node : Node) →
    (Node.renderFully vars node).reads.Perm (namesOf node.operands)
  | .literal _ => .refl _
  | .substitution e => by
    rw [Node.renderFully, reads_map, e.reads_eval, Node.operands]
  | .conditional chain => by
    rw [Node.renderFully, Node.operands, reads_bind, reads_map]
    exact Chain.reads_texts chain

/-- Every name in a template is read as often as it stands there. -/
theorem Template.reads_renderFully : (nodes : List Node) →
    (Template.renderFully vars nodes).reads.Perm (namesOf (Template.operands nodes))
  | [] => .refl _
  | node :: nodes => by
    rw [Template.renderFully, Template.operands, reads_bind, reads_map, namesOf_append]
    exact (Node.reads_renderFully node).append (Template.reads_renderFully nodes)

theorem Chain.reads_texts : (chain : Chain) →
    ((chain.verdicts vars).reads ++ (Chain.texts vars chain).reads).Perm (namesOf chain.operands)
  | .branch test body rest => by
    rw [Chain.verdicts, Chain.texts, Chain.operands, reads_bind, reads_map, reads_bind, reads_map,
      Condition.reads_evalFully, namesOf_append, namesOf_append, List.append_assoc]
    -- the tests behind are read before the body
    refine List.Perm.append_left _ ((List.perm_append_comm_assoc _ _ _).trans ?_)
    exact (Template.reads_renderFully body).append (Chain.reads_texts rest)
  | .otherwise body => by
    rw [Chain.verdicts, Chain.texts, Chain.operands]
    exact Template.reads_renderFully body
  | .done => .refl _

end

/-! ## Conditions -/

mutual

theorem Atom.eval_refines : (atom : Atom) →
    (Atom.eval vars atom).Refines (Atom.evalFully vars atom)
  | .compare .. => by
    rw [Atom.eval, Atom.evalFully]
    exact .refl _
  | .present .. => by
    rw [Atom.eval, Atom.evalFully]
    exact .refl _
  | .group inverted inner => by
    rw [Atom.eval, Atom.evalFully]
    exact (Condition.eval_refines inner).map (· != inverted)

theorem Conjunction.eval_refines : (atoms : List Atom) →
    (Conjunction.eval vars atoms).Refines ((·.all id) <$> Conjunction.verdicts vars atoms)
  | [] => by
    rw [Conjunction.eval, Conjunction.verdicts]
    exact .refl _
  | atom :: atoms => by
    rw [Conjunction.eval, Conjunction.verdicts]
    -- the first verdict is known when the others are asked for
    refine (Atom.eval_refines atom).bind
      (g := fun holds => (holds && ·) <$> (·.all id) <$> Conjunction.verdicts vars atoms)
      fun holds => ?_
    cases holds with
    | true => exact Conjunction.eval_refines atoms
    | false => exact refines_skip false _

theorem Condition.eval_refines : (terms : List (List Atom)) →
    (Condition.eval vars terms).Refines (Condition.evalFully vars terms)
  | [] => by
    rw [Condition.eval, Condition.evalFully, Condition.verdicts]
    exact .refl _
  | term :: terms => by
    rw [Condition.eval, Condition.evalFully, Condition.verdicts]
    refine (Conjunction.eval_refines term).bind
      (g := fun holds => (holds || ·) <$> Condition.evalFully vars terms)
      fun holds => ?_
    cases holds with
    | true => exact refines_skip true _
    | false => exact Condition.eval_refines terms

end

/-! ## Chains and templates -/

namespace Chain

theorem pick_cons {α : Type} (holds : Bool) (verdicts : List Bool) (choice : α)
    (choices : List α × Option α) : pick (holds :: verdicts) (choice :: choices.1, choices.2) =
      if holds then some choice else pick verdicts choices := by
  cases holds <;> rfl

theorem select_refines : (chain : Chain) → (chain.select vars).Refines (chain.selectFully vars)
  | .branch test body rest => by
    rw [select, selectFully, verdicts, bodies]
    refine (Condition.eval_refines test).bind
      (g := fun holds => (fun verdicts =>
        pick (holds :: verdicts) (body :: rest.bodies.1, rest.bodies.2)) <$> rest.verdicts vars)
      fun holds => ?_
    cases holds with
    | true => exact refines_skip (some body) _
    | false => exact select_refines rest
  | .otherwise _ => .refl _
  | .done => .refl _

/-- What is rendered of a chain is the branch that is taken. -/
theorem render_eq_select : (chain : Chain) → Chain.render vars chain = (do
    match ← chain.select vars with
    | some body => Template.render vars body
    | none => pure "")
  | .branch test body rest => by
    rw [render, select, bind_bind]
    refine congrArg (Condition.eval vars test >>= ·) (funext fun holds => ?_)
    cases holds with
    | true => rfl
    | false => exact render_eq_select rest
  | .otherwise _ => by
    rw [render]
    rfl
  | .done => by
    rw [render]
    rfl

end Chain

mutual

theorem Node.render_refines : (node : Node) →
    (Node.render vars node).Refines (Node.renderFully vars node)
  | .literal _ => by
    rw [Node.render, Node.renderFully]
    exact .refl _
  | .substitution _ => by
    rw [Node.render, Node.renderFully]
    exact .refl _
  | .conditional chain => by
    rw [Node.render, Node.renderFully]
    exact Chain.render_refines chain

theorem Template.render_refines : (nodes : List Node) →
    (Template.render vars nodes).Refines (Template.renderFully vars nodes)
  | [] => by
    rw [Template.render, Template.renderFully]
    exact .refl _
  | node :: nodes => by
    rw [Template.render, Template.renderFully]
    exact (Node.render_refines node).bind fun first =>
      (Template.render_refines nodes).map (first ++ ·)

theorem Chain.render_refines : (chain : Chain) → (Chain.render vars chain).Refines (do
    let verdicts ← chain.verdicts vars
    (fun texts => (Chain.pick verdicts texts).getD "") <$> Chain.texts vars chain)
  | .branch test body rest => by
    obtain ⟨hvalue, hreads⟩ : (Condition.eval vars test).Refines (Condition.evalFully vars test) :=
      Condition.eval_refines test
    have hbody := Template.render_refines body
    have hrest := Chain.render_refines rest
    rw [Chain.render, Chain.verdicts, Chain.texts]
    -- all tests are read in front of all bodies, so this is not one step after another
    constructor
    · show (if (Condition.eval vars test).value then _ else _ : Traced String).value =
        (Chain.pick ((Condition.evalFully vars test).value :: _) (_ :: _, _)).getD ""
      rw [Chain.pick_cons, ← hvalue]
      cases (Condition.eval vars test).value with
      | true => exact hbody.value
      | false => exact hrest.value
    · show ((Condition.eval vars test).reads ++ (if _ then _ else _ : Traced String).reads).Sublist
        (((Condition.evalFully vars test).reads ++ _) ++ (_ ++ _))
      rw [List.append_assoc]
      refine hreads.append ?_
      cases (Condition.eval vars test).value with
      | true =>
        exact (hbody.reads.trans (List.sublist_append_left _ _)).trans
          (List.sublist_append_right _ _)
      | false => exact hrest.reads.trans ((List.sublist_append_right _ _).append_left _)
  | .otherwise body => by
    rw [Chain.render, Chain.verdicts, Chain.texts]
    exact Template.render_refines body
  | .done => by
    rw [Chain.render, Chain.verdicts, Chain.texts]
    exact .refl _

end

/-! ## Both ways -/

/-- Deciding as early as possible comes to the same as evaluating everything first, for every
condition, for the choice of a branch and for every template; the names that are read are some of
those that are read otherwise, in the same order. -/
theorem early_refines_full (vars : Valuation) :
    (∀ c : Condition, (Condition.eval vars c).Refines (Condition.evalFully vars c)) ∧
      (∀ chain : Chain, (chain.select vars).Refines (chain.selectFully vars)) ∧
      ∀ t : Template, (Template.render vars t).Refines (Template.renderFully vars t) :=
  ⟨Condition.eval_refines, Chain.select_refines, Template.render_refines⟩

/-- Where `a` holds, nothing else is read; otherwise the test behind is read before the body. -/
example :
    let branch := fun name inserted rest => Chain.branch [[.present false name]]
      [.substitution (.operand (.lookup inserted))] rest
    let t : Template := [.conditional (branch "a" "x" (branch "b" "y" .done))]
    let vars : Valuation := fun name => .bool (name = "a")
    Template.render vars t = ⟨"false", ["a", "x"]⟩ ∧
      Template.renderFully vars t = ⟨"false", ["a", "b", "x", "y"]⟩ := by
  decide +kernel

end Stencil

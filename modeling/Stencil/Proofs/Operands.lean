/-
# Stencil.Proofs.Operands -- the operands that stand in a tree, and the names

Names and numbers stand in a tree as operands, or as the variable that a condition asks for, which
is listed as an operand too; only assignments have a name of their own besides. The operands are
listed in the order of the text, in conditions through all groups and in templates through all
branches. A tree may hold any operand; in one that is parsed each is written somewhere in the text,
as is shown along the grammar (`Goal.Written.operand_written`). So the names of such a tree are
identifiers.
-/
import Stencil.Proofs.Goal

namespace Stencil

open Parse

/-! ## The operands of a tree -/

/-- The operands in a value expression. -/
def Expression.operands : Expression → List Operand
  | .truth _ => []
  | .arithmetic a _ b => [a, b]
  | .operand a => [a]

mutual

/-- The operands in an atom. -/
def Atom.operands : Atom → List Operand
  | .compare a _ b => [a, b]
  | .present _ name => [.lookup name]
  | .group _ inner => Condition.operands inner

/-- The operands in a conjunction. -/
def Conjunction.operands : List Atom → List Operand
  | [] => []
  | atom :: atoms => Atom.operands atom ++ Conjunction.operands atoms

/-- The operands in a condition. -/
def Condition.operands : List (List Atom) → List Operand
  | [] => []
  | term :: terms => Conjunction.operands term ++ Condition.operands terms

end

mutual

/-- The operands in a node. -/
def Node.operands : Node → List Operand
  | .literal _ => []
  | .substitution e => e.operands
  | .conditional chain => Chain.operands chain

/-- The operands in a template. -/
def Template.operands : List Node → List Operand
  | [] => []
  | node :: nodes => Node.operands node ++ Template.operands nodes

/-- The operands in the tests and bodies of a chain. -/
def Chain.operands : Chain → List Operand
  | .branch test body rest =>
    Condition.operands test ++ (Template.operands body ++ Chain.operands rest)
  | .otherwise body => Template.operands body
  | .done => []

end

/-- The operands in a list of assignments. -/
def Assignment.operands (list : List Assignment) : List Operand :=
  list.flatMap (·.value.operands)

/-- The operands in a tree. -/
def Parse.Goal.operands : (goal : Goal) → goal.Tree → List Operand
  | .template => Template.operands
  | .condition => Condition.operands
  | .expression => Expression.operands
  | .assignments => Assignment.operands

/-! ## The names in a tree -/

/-- The name in an operand, if there is one. -/
def Operand.names : Operand → List String
  | .lookup name => [name]
  | .number _ => []
  | .text _ => []

/-- The names that are assigned in a tree. -/
def Parse.Goal.assigned : (goal : Goal) → goal.Tree → List String
  | .assignments => List.map Assignment.name
  | .template | .condition | .expression => fun _ => []

/-- The names in a tree: those that are assigned, and those that stand as operands. -/
def Parse.Goal.names (goal : Goal) (t : goal.Tree) : List String :=
  goal.assigned t ++ (goal.operands t).flatMap Operand.names

/-! ## Each operand is written -/

section Written

variable {s : List Char} {a : Operand}

theorem Expression.Written.operand_written {e : Expression} (h : e.Written s)
    (ha : a ∈ e.operands) : ∃ u, a.Written u := by
  cases h with
  | truth => cases ha
  | arithmetic hleft _ _ _ _ hright =>
    obtain rfl | ha := List.mem_cons.mp ha
    · exact ⟨_, .term hleft⟩
    · obtain rfl := List.mem_singleton.mp ha
      exact ⟨_, .term hright⟩
  | number h =>
    obtain rfl := List.mem_singleton.mp ha
    exact ⟨_, .term (.number h)⟩
  | text h =>
    obtain rfl := List.mem_singleton.mp ha
    exact ⟨_, .text h⟩
  | lookup h =>
    obtain rfl := List.mem_singleton.mp ha
    exact ⟨_, .term (.lookup h)⟩

mutual

theorem Atom.Written.operand_written {a : Operand} : {atom : Atom} → {s : List Char} →
    atom.Written s → a ∈ atom.operands → ∃ u, a.Written u
  | .compare .., _, .compare hleft _ _ _ hright, ha => by
    obtain rfl | ha := List.mem_cons.mp ha
    · exact ⟨_, hleft⟩
    · obtain rfl := List.mem_singleton.mp ha
      exact ⟨_, hright⟩
  | .present .., _, .present _ hname _, ha => by
    obtain rfl := List.mem_singleton.mp ha
    exact ⟨_, .term (.lookup hname)⟩
  | .group _ inner, _, .group _ _ hinner _, ha => Condition.Written.operand_written hinner ha

theorem Conjunction.Written.operand_written {a : Operand} : {t : List Atom} → {s : List Char} →
    Conjunction.Written t s → a ∈ Conjunction.operands t → ∃ u, a.Written u
  | [_], _, .one hatom, ha => by
    obtain ha | ha := List.mem_append.mp ha
    · exact Atom.Written.operand_written hatom ha
    · cases ha
  | _ :: _, _, .more hatom _ _ _ hatoms, ha => by
    obtain ha | ha := List.mem_append.mp ha
    · exact Atom.Written.operand_written hatom ha
    · exact Conjunction.Written.operand_written hatoms ha

theorem Condition.Written.operand_written {a : Operand} : {t : List (List Atom)} →
    {s : List Char} → Condition.Written t s → a ∈ Condition.operands t → ∃ u, a.Written u
  | [_], _, .one hterm, ha => by
    obtain ha | ha := List.mem_append.mp ha
    · exact Conjunction.Written.operand_written hterm ha
    · cases ha
  | _ :: _, _, .more hterm _ _ _ hterms, ha => by
    obtain ha | ha := List.mem_append.mp ha
    · exact Conjunction.Written.operand_written hterm ha
    · exact Condition.Written.operand_written hterms ha

end

mutual

theorem Node.Written.operand_written {a : Operand} {node : Node} {s : List Char} :
    node.Written s → a ∈ node.operands → ∃ u, a.Written u
  | .literal _, ha => by cases ha
  | .substitution ⟨_, _, _, _, h, _⟩, ha => h.operand_written ha
  | .conditional h, ha => Chain.Written.operand_written h ha

theorem Chain.Written.operand_written {a : Operand} {chain : Chain} {s : List Char} :
    Chain.Written chain s → a ∈ chain.operands → ∃ u, a.Written u
  | .branch ⟨_, _, _, _, htest, _⟩ hbody hrest, ha => by
    obtain ha | ha := List.mem_append.mp ha
    · exact Condition.Written.operand_written htest ha
    obtain ha | ha := List.mem_append.mp ha
    · exact Template.Written.operand_written hbody ha
    · exact Chain.Rest.operand_written hrest ha

theorem Chain.Rest.operand_written {a : Operand} {rest : Chain} {s : List Char} :
    Chain.Rest rest s → a ∈ rest.operands → ∃ u, a.Written u
  | .further h, ha => Chain.Written.operand_written h ha
  | .otherwise h, ha => Template.Written.operand_written h ha
  | .done, ha => by cases ha

theorem Template.Written.operand_written {a : Operand} {t : Template} {s : List Char} :
    Template.Written t s → a ∈ Template.operands t → ∃ u, a.Written u
  | .nil, ha => by cases ha
  | .cons hnode hnodes _, ha => by
    obtain ha | ha := List.mem_append.mp ha
    · exact Node.Written.operand_written hnode ha
    · exact Template.Written.operand_written hnodes ha

end

theorem Assignment.Lines.exists_written {list : List Assignment} (h : Assignment.Lines list s) :
    ∀ b ∈ list, ∃ u, b.Written u := by
  induction h with
  | nil => exact List.forall_mem_nil _
  | empty _ ih => exact ih
  | line hb _ ih => exact List.forall_mem_cons.mpr ⟨⟨_, hb⟩, ih⟩

theorem Assignment.ListWritten.exists_written {list : List Assignment}
    (h : Assignment.ListWritten list s) : ∀ b ∈ list, ∃ u, b.Written u := by
  obtain ⟨hb, hlines⟩ := h
  exact List.forall_mem_cons.mpr ⟨⟨_, hb⟩, hlines.exists_written⟩

theorem Assignment.ListWritten.operand_written {list : List Assignment}
    (h : Assignment.ListWritten list s) (ha : a ∈ Assignment.operands list) :
    ∃ u, a.Written u := by
  obtain ⟨b, hb, ha⟩ := List.mem_flatMap.mp ha
  obtain ⟨u, -, -, -, he, -⟩ := h.exists_written b hb
  exact he.operand_written ha

/-- Every operand in a tree that is written is written by itself. -/
theorem Parse.Goal.Written.operand_written {goal : Goal} {t : goal.Tree} (h : goal.Written t s)
    (ha : a ∈ goal.operands t) : ∃ u, a.Written u := by
  cases goal with
  | template => exact Template.Written.operand_written h ha
  | condition => exact Condition.Written.operand_written h ha
  | expression => exact Expression.Written.operand_written h ha
  | assignments => exact Assignment.ListWritten.operand_written h ha

/-! ## Each name is an identifier -/

variable {name : String}

theorem Operand.Written.isIdentifier (h : a.Written s) (hname : name ∈ a.names) :
    isIdentifier name = true := by
  cases h with
  | text => cases hname
  | term h =>
    cases h with
    | number => cases hname
    | lookup h =>
      obtain rfl := List.mem_singleton.mp hname
      exact h.1

/-- Every name in a tree that is written is an identifier. -/
theorem Parse.Goal.Written.isIdentifier {goal : Goal} {t : goal.Tree} (h : goal.Written t s)
    (hname : name ∈ goal.names t) : isIdentifier name = true := by
  obtain hname | hname := List.mem_append.mp hname
  · cases goal with
    | assignments =>
      obtain ⟨b, hb, rfl⟩ := List.mem_map.mp hname
      obtain ⟨u, hident, -⟩ := Assignment.ListWritten.exists_written h b hb
      exact hident.1
    | template => cases hname
    | condition => cases hname
    | expression => cases hname
  · obtain ⟨a, ha, hname⟩ := List.mem_flatMap.mp hname
    obtain ⟨u, hu⟩ := h.operand_written ha
    exact hu.isIdentifier hname

end Written

end Stencil

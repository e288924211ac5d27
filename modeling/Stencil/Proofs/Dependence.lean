/-
# Stencil.Proofs.Dependence -- evaluation depends on what it reads, and on nothing else

Which variables are read is decided on the way: a condition ends early, a chain takes one of its
branches, and what an assignment binds is read by later ones. Still nothing matters but the
values that were read. If other variables give the same values to the names that were read, then
evaluation takes the same course with them, and reads the same names in the same order.

`DecidedByReads` says this of anything that is computed from variables. It is kept when one
computation follows another (`DecidedByReads.bind`), and so every evaluator has it by the shape
of its definition. By the same shape no names are read but those that stand in the tree
(`ReadsOnly`). Assignments change what is read later, so for them only the names count that are
read before they are bound (`Access.readFirst`).
-/
import Stencil.Assignment.Basic
import Stencil.Proofs.Operands
import Stencil.Template.Rendering

namespace Stencil

/-! ## Computations from variables -/

namespace Traced

variable {α β : Type}

/-- Variables that agree on the names that are read lead to the same result, read for read. -/
def DecidedByReads (f : Valuation → Traced α) : Prop :=
  ∀ vars vars' : Valuation, (∀ name ∈ (f vars).reads, vars' name = vars name) → f vars' = f vars

theorem decidedByReads_pure (a : α) : DecidedByReads fun _ => (pure a : Traced α) :=
  fun _ _ _ => rfl

theorem decidedByReads_read (name : String) : DecidedByReads (read · name) := by
  intro vars vars' h
  have hname : vars' name = vars name := h name (List.mem_singleton.mpr rfl)
  show (⟨vars' name, [name]⟩ : Traced Value) = ⟨vars name, [name]⟩
  rw [hname]

variable {f : Valuation → Traced α}

theorem DecidedByReads.map (h : DecidedByReads f) (g : α → β) :
    DecidedByReads fun vars => g <$> f vars := by
  intro vars vars' hreads
  have heq : f vars' = f vars := h vars vars' hreads
  show g <$> f vars' = g <$> f vars
  rw [heq]

/-- What follows is decided by its own reads, once it is decided what it follows on. -/
theorem DecidedByReads.bind {g : Valuation → α → Traced β} (h : DecidedByReads f)
    (hg : ∀ a, DecidedByReads (g · a)) : DecidedByReads fun vars => f vars >>= g vars := by
  intro vars vars' hreads
  obtain ⟨hfirst, hsecond⟩ := List.forall_mem_append.mp hreads
  have heq : f vars' = f vars := h vars vars' hfirst
  have heq' : g vars' (f vars).value = g vars (f vars).value := hg _ vars vars' hsecond
  show (⟨(g vars' (f vars').value).value, (f vars').reads ++ (g vars' (f vars').value).reads⟩ :
    Traced β) = f vars >>= g vars
  rw [heq, heq']
  rfl

/-- No names are read but such as satisfy `P`, and nothing matters but their values. -/
structure ReadsOnly (P : String → Prop) (f : Valuation → Traced α) : Prop where
  reads : ∀ vars, ∀ name ∈ (f vars).reads, P name
  decided : DecidedByReads f

variable {P : String → Prop}

theorem readsOnly_pure (a : α) : ReadsOnly P fun _ => (pure a : Traced α) :=
  ⟨fun _ => List.forall_mem_nil P, decidedByReads_pure a⟩

theorem readsOnly_read {name : String} (h : P name) : ReadsOnly P (read · name) :=
  ⟨fun _ => List.forall_mem_singleton.mpr h, decidedByReads_read name⟩

theorem ReadsOnly.map (h : ReadsOnly P f) (g : α → β) : ReadsOnly P fun vars => g <$> f vars :=
  ⟨h.reads, h.decided.map g⟩

/-- What follows may read the same names, whatever comes before has found. -/
theorem ReadsOnly.bind {g : Valuation → α → Traced β} (h : ReadsOnly P f)
    (hg : ∀ a, ReadsOnly P (g · a)) : ReadsOnly P fun vars => f vars >>= g vars :=
  ⟨fun vars => List.forall_mem_append.mpr ⟨h.reads vars, (hg _).reads vars⟩,
    h.decided.bind fun a => (hg a).decided⟩

/-- Variables that agree on the names that may be read lead to the same result. -/
theorem ReadsOnly.eq_of_agree (h : ReadsOnly P f) {vars vars' : Valuation}
    (hagree : ∀ name, P name → vars' name = vars name) : f vars' = f vars :=
  h.decided vars vars' fun name hname => hagree name (h.reads vars name hname)

end Traced

open Traced

section Reads

variable {P : String → Prop}

/-! ## Expressions and conditions -/

/-- Trees of every kind read no names but those of their operands. -/
theorem Operand.eval_readsOnly {a : Operand} (h : ∀ name ∈ a.names, P name) :
    ReadsOnly P a.eval := by
  cases a with
  | lookup name => exact readsOnly_read (List.forall_mem_singleton.mp h)
  | number v => exact readsOnly_pure v
  | text s => exact readsOnly_pure _

theorem Expression.eval_readsOnly {e : Expression} (h : ∀ a ∈ e.operands, ∀ name ∈ a.names, P name) :
    ReadsOnly P e.eval := by
  cases e with
  | truth b => exact readsOnly_pure _
  | arithmetic a op b =>
    obtain ⟨ha, hb⟩ := List.forall_mem_cons.mp h
    exact (Operand.eval_readsOnly ha).bind fun v =>
      (Operand.eval_readsOnly (List.forall_mem_singleton.mp hb)).bind fun w => readsOnly_pure _
  | operand a => exact Operand.eval_readsOnly (List.forall_mem_singleton.mp h)

mutual

theorem Atom.eval_readsOnly : (atom : Atom) →
    (∀ a ∈ atom.operands, ∀ name ∈ a.names, P name) → ReadsOnly P atom.eval
  | .compare a op b, h => by
    unfold Atom.eval
    obtain ⟨ha, hb⟩ := List.forall_mem_cons.mp h
    exact (Operand.eval_readsOnly ha).bind fun v =>
      (Operand.eval_readsOnly (List.forall_mem_singleton.mp hb)).bind fun w => readsOnly_pure _
  | .present inverted name, h => by
    unfold Atom.eval
    have hname : ∀ n ∈ [name], P n := List.forall_mem_singleton.mp h
    exact (readsOnly_read (List.forall_mem_singleton.mp hname)).map _
  | .group inverted inner, h => by
    unfold Atom.eval
    exact (Condition.eval_readsOnly inner h).map _

theorem Conjunction.eval_readsOnly : (atoms : List Atom) →
    (∀ a ∈ Conjunction.operands atoms, ∀ name ∈ a.names, P name) →
    ReadsOnly P (Conjunction.eval · atoms)
  | [], _ => by
    unfold Conjunction.eval
    exact readsOnly_pure true
  | atom :: atoms, h => by
    unfold Conjunction.eval
    obtain ⟨hatom, hatoms⟩ := List.forall_mem_append.mp h
    refine (Atom.eval_readsOnly atom hatom).bind fun holds => ?_
    cases holds with
    | true => exact Conjunction.eval_readsOnly atoms hatoms
    | false => exact readsOnly_pure false

/-- Where a condition ends early, it has read fewer of its names. -/
theorem Condition.eval_readsOnly : (terms : List (List Atom)) →
    (∀ a ∈ Condition.operands terms, ∀ name ∈ a.names, P name) →
    ReadsOnly P (Condition.eval · terms)
  | [], _ => by
    unfold Condition.eval
    exact readsOnly_pure false
  | term :: terms, h => by
    unfold Condition.eval
    obtain ⟨hterm, hterms⟩ := List.forall_mem_append.mp h
    refine (Conjunction.eval_readsOnly term hterm).bind fun holds => ?_
    cases holds with
    | true => exact readsOnly_pure true
    | false => exact Condition.eval_readsOnly terms hterms

end

/-! ## Templates -/

mutual

theorem Node.render_readsOnly : (node : Node) →
    (∀ a ∈ node.operands, ∀ name ∈ a.names, P name) → ReadsOnly P (Node.render · node)
  | .literal text, _ => by
    unfold Node.render
    exact readsOnly_pure text
  | .substitution e, h => by
    unfold Node.render
    exact (e.eval_readsOnly h).map _
  | .conditional chain, h => by
    unfold Node.render
    exact Chain.render_readsOnly chain h

theorem Template.render_readsOnly : (nodes : List Node) →
    (∀ a ∈ Template.operands nodes, ∀ name ∈ a.names, P name) →
    ReadsOnly P (Template.render · nodes)
  | [], _ => by
    unfold Template.render
    exact readsOnly_pure ""
  | node :: nodes, h => by
    unfold Template.render
    obtain ⟨hnode, hnodes⟩ := List.forall_mem_append.mp h
    exact (Node.render_readsOnly node hnode).bind fun first =>
      (Template.render_readsOnly nodes hnodes).map _

/-- A chain reads names of its tests and of the body that is chosen. -/
theorem Chain.render_readsOnly : (chain : Chain) →
    (∀ a ∈ chain.operands, ∀ name ∈ a.names, P name) → ReadsOnly P (Chain.render · chain)
  | .branch test body rest, h => by
    unfold Chain.render
    obtain ⟨htest, h⟩ := List.forall_mem_append.mp h
    obtain ⟨hbody, hrest⟩ := List.forall_mem_append.mp h
    refine (Condition.eval_readsOnly test htest).bind fun holds => ?_
    cases holds with
    | true => exact Template.render_readsOnly body hbody
    | false => exact Chain.render_readsOnly rest hrest
  | .otherwise body, h => by
    unfold Chain.render
    exact Template.render_readsOnly body h
  | .done, _ => by
    unfold Chain.render
    exact readsOnly_pure ""

end

end Reads

/-- Values, decisions and texts are decided by what is read for them. -/
theorem Expression.eval_decidedByReads (e : Expression) : DecidedByReads e.eval :=
  (Expression.eval_readsOnly (P := fun _ => True) fun _ _ _ _ => trivial).decided

theorem Condition.eval_decidedByReads (terms : Condition) :
    DecidedByReads (Condition.eval · terms) :=
  (Condition.eval_readsOnly (P := fun _ => True) terms fun _ _ _ _ => trivial).decided

theorem Template.render_decidedByReads (nodes : Template) :
    DecidedByReads (Template.render · nodes) :=
  (Template.render_readsOnly (P := fun _ => True) nodes fun _ _ _ _ => trivial).decided

/-! ## Assignments -/

/-- What is bound can be looked up, and other names stand for what they stood for before. -/
class LawfulEnvironment (σ : Type) [Environment σ] : Prop where
  lookup_assign : ∀ (env : σ) (name : String) (value : Value) (other : String),
    Environment.lookup (Environment.assign env name value) other =
      if name = other then value else Environment.lookup env other

/-- A store is such an environment. -/
theorem Store.lookup_set (s : Store) (name : String) (value : Value) (other : String) :
    (s.set name value).lookup other = if name = other then value else s.lookup other := by
  rw [lookup, lookup, get?_set]
  by_cases h : name = other
  · rw [if_pos h, if_pos h, Option.getD_some]
  · rw [if_neg h, if_neg h]

instance : LawfulEnvironment Store := ⟨Store.lookup_set⟩

/-- The names that are read before they are bound. -/
def Access.readFirst : List Access → List String
  | [] => []
  | .get name :: rest => name :: readFirst rest
  | .set name _ :: rest => (readFirst rest).filter (· ≠ name)

/-- Reads at the beginning come before anything is bound. -/
theorem Access.readFirst_append (names : List String) (rest : List Access) :
    readFirst (names.map .get ++ rest) = names ++ readFirst rest := by
  induction names with
  | nil => rfl
  | cons name names ih =>
    show name :: readFirst (names.map .get ++ rest) = _
    rw [ih, List.cons_append]

section Environments

variable {σ τ : Type} [Environment σ] [Environment τ] [LawfulEnvironment σ] [LawfulEnvironment τ]

/-- Two environments in which a name stands for the same value. -/
def AgreeAt (env : σ) (env' : τ) (name : String) : Prop :=
  Environment.lookup env' name = Environment.lookup env name

/-- Binding a name to one value on both sides makes them agree at it, and keeps them in agreement
elsewhere. -/
theorem agreeAt_assign {env : σ} {env' : τ} {name other : String} (value : Value)
    (h : name ≠ other → AgreeAt env env' other) :
    AgreeAt (Environment.assign env name value) (Environment.assign env' name value) other := by
  rw [AgreeAt, LawfulEnvironment.lookup_assign, LawfulEnvironment.lookup_assign]
  by_cases hname : name = other
  · rw [if_pos hname, if_pos hname]
  · rw [if_neg hname, if_neg hname]
    exact h hname

/-- Environments that agree at the names that are read before they are bound are accessed alike,
and afterwards agree at all names at which they agreed before, and at the bound ones. -/
theorem Assignment.applyAll_of_agree (list : List Assignment) {env : σ} {env' : τ}
    (h : ∀ name ∈ Access.readFirst (applyAll list env).2, AgreeAt env env' name) :
    (applyAll list env').2 = (applyAll list env).2 ∧
      ∀ name, (∃ a ∈ list, a.name = name) ∨ AgreeAt env env' name →
        AgreeAt (applyAll list env).1 (applyAll list env').1 name := by
  induction list generalizing env env' with
  | nil =>
    refine ⟨rfl, ?_⟩
    rintro name (⟨a, ha, -⟩ | hagree)
    · cases ha
    · exact hagree
  | cons a list ih =>
    rw [applyAll, Access.readFirst_append, List.forall_mem_append] at h
    obtain ⟨hreads, hlater⟩ := h
    have heval := a.value.eval_decidedByReads _ _ hreads
    simp only [applyAll, heval]
    generalize a.value.eval (Environment.lookup env) = result at hlater ⊢
    have hassigned : ∀ name, (a.name ≠ name → AgreeAt env env' name) →
        AgreeAt (Environment.assign env a.name result.value)
          (Environment.assign env' a.name result.value) name :=
      fun name => agreeAt_assign result.value
    -- what is read later is the name that is bound here, or was in agreement before
    have hrest := ih fun name hname => hassigned name fun hne =>
      hlater name (List.mem_filter.mpr ⟨hname, decide_eq_true hne.symm⟩)
    rw [hrest.1]
    refine ⟨rfl, fun name hname => hrest.2 name ?_⟩
    obtain ⟨b, hb, rfl⟩ | hagree := hname
    · obtain rfl | hb := List.mem_cons.mp hb
      · exact .inr (hassigned _ fun hne => absurd rfl hne)
      · exact .inl ⟨b, hb, rfl⟩
    · exact .inr (hassigned name fun _ => hagree)

end Environments

end Stencil

/-
# Stencil.Proofs.Engine.History -- what is bound is what was written last

Whatever is asked of an engine, three things can happen to its bindings: a name is bound, the
binding of a name is removed, or all bindings are dropped to make place for those of another
store. The changes that a run makes, one after another, are its history (`Engine.history`), which
begins with the bindings that were there at first.

A value stands for a name at the end of a history (`Stands`) if the last thing that happened to
the name is that it was bound to it. This does not mention stores. The store of an engine shows
exactly what stands (`Engine.Shows`): by what it finds under a name, whether it finds anything,
what removing a name says, and how many names there are. A name that is bound to `absent` is
bound; what happens to one name never matters for another.
-/
import Stencil.Proofs.Engine.Operation
import Stencil.Proofs.Store

namespace Stencil

/-! ## Histories -/

/-- What can happen to the bindings of names. -/
inductive Change where
  | bind (name : String) (value : Value)
  | remove (name : String)
  /-- All bindings are dropped. -/
  | clear
deriving DecidableEq

/-- Whether the change is one to what the name is bound to. -/
def Change.Concerns (name : String) : Change → Prop
  | bind other _ => other = name
  | remove other => other = name
  | clear => True

instance (name : String) (c : Change) : Decidable (c.Concerns name) := by
  cases c <;> unfold Change.Concerns <;> infer_instance

/-- The last thing that happened to the name is that it was bound to the value. -/
def Stands (history : List Change) (name : String) (v : Value) : Prop :=
  ∃ before later, history = before ++ Change.bind name v :: later ∧
    ∀ c ∈ later, ¬ c.Concerns name

/-- Names are bound in turn. -/
def Change.bindings (list : List (String × Value)) : List Change :=
  list.map fun b => .bind b.1 b.2

/-- Another store is put in place, if there is one. -/
def Change.replacement : Option Store → List Change
  | some vars => .clear :: bindings vars.toList
  | none => []

/-- The changes that a step makes on an engine. -/
def Step.changes (e : Engine) : Step → List Change
  | .transform _ vars => Change.replacement vars
  | .conditional _ vars => Change.replacement vars
  | .calculate _ vars => Change.replacement vars
  | .update src vars =>
    Change.replacement vars ++ Change.bindings (Event.assigned (e.update src vars).events)
  | .set name value => [.bind name value]
  | .unset name => [.remove name]
  | .extend list => Change.bindings list
  | .setVars vars => Change.replacement (some vars)
  | .get _ | .lookup _ | .contains _ | .size | .limits | .withLimits _ => []

namespace Engine

/-- The engine after some steps. -/
def after (e : Engine) : List Step → Engine
  | [] => e
  | s :: steps => (e.step s).engine.after steps

/-- The changes that steps make. -/
def changes (e : Engine) : List Step → List Change
  | [] => []
  | s :: steps => s.changes e ++ (e.step s).engine.changes steps

/-- All that happened to the bindings of an engine: those that it had at first were made, and then
the steps changed them. -/
def history (e : Engine) (steps : List Step) : List Change :=
  Change.bindings e.vars.toList ++ e.changes steps

/-- What is asked of the engine is answered as it stands at the end of the history. -/
structure Shows (e : Engine) (history : List Change) : Prop where
  /-- Under a name the value is found that stands for it, and nothing if there is none. -/
  get : ∀ name, ∃ found, (e.step (.get name)).answer = .binding found ∧
    ∀ v, found = some v ↔ Stands history name v
  /-- The name itself stands for this value, or for nothing at all. -/
  lookup : ∀ name, ∃ v, (e.step (.lookup name)).answer = .value v ∧
    (Stands history name v ∨ v = .absent ∧ ∀ w, ¬ Stands history name w)
  /-- The name is bound just if some value stands for it, `absent` or any other. -/
  contains : ∀ name, ∃ bound, (e.step (.contains name)).answer = .flag bound ∧
    (bound = true ↔ ∃ v, Stands history name v)
  /-- Removing the name answers whether it was bound, and keeps all other bindings. -/
  unset : ∀ name, ∃ bound, (e.step (.unset name)).answer = .flag bound ∧
    (bound = true ↔ ∃ v, Stands history name v) ∧
    ∀ other, other ≠ name → (e.step (.unset name)).engine.vars.get? other = e.vars.get? other
  /-- The bound names are counted, each once. -/
  size : ∃ (names : List String) (isEmpty : Bool), names.Nodup ∧
    (∀ name, name ∈ names ↔ ∃ v, Stands history name v) ∧
    (e.step .size).answer = .size names.length isEmpty ∧ (isEmpty = true ↔ names.length = 0)

end Engine

/-! ## What stands -/

section Stands

variable {history : List Change} {name : String} {v : Value} {c : Change}

theorem not_stands_nil : ¬ Stands [] name v := by
  rintro ⟨before, later, h, -⟩
  exact absurd h (by simp)

/-- The last change decides on the names that it concerns. -/
theorem stands_snoc_iff : Stands (history ++ [c]) name v ↔
    c = .bind name v ∨ ¬ c.Concerns name ∧ Stands history name v := by
  constructor
  · rintro ⟨before, later, h, hno⟩
    obtain rfl | ⟨later, last, rfl⟩ := later.eq_nil_or_concat'
    · obtain ⟨-, heq⟩ := List.append_inj' h rfl
      exact .inl (List.head_eq_of_cons_eq heq)
    · rw [← List.cons_append, ← List.append_assoc] at h
      obtain ⟨rfl, heq⟩ := List.append_inj' h rfl
      obtain rfl := List.head_eq_of_cons_eq heq
      obtain ⟨hno, hlast⟩ := List.forall_mem_append.mp hno
      exact .inr ⟨hlast c (List.mem_singleton.mpr rfl), before, later, rfl, hno⟩
  · rintro (rfl | ⟨hc, before, later, rfl, hno⟩)
    · exact ⟨history, [], rfl, List.forall_mem_nil _⟩
    · refine ⟨before, later ++ [c], by simp, List.forall_mem_append.mpr ⟨hno, ?_⟩⟩
      exact List.forall_mem_singleton.mpr hc

/-- A change makes no difference to names that it does not concern. -/
theorem stands_snoc_of_not_concerns (hc : ¬ c.Concerns name) :
    Stands (history ++ [c]) name v ↔ Stands history name v := by
  rw [stands_snoc_iff]
  constructor
  · rintro (rfl | ⟨-, h⟩)
    · exact absurd rfl hc
    · exact h
  · exact fun h => .inr ⟨hc, h⟩

end Stands

/-! ## Changes to a store -/

namespace Store

variable {s : Store} {history : List Change}

/-- Change the bindings of a store. -/
def change (s : Store) : Change → Store
  | .bind name value => s.set name value
  | .remove name => s.unset name
  | .clear => .empty

/-- The store holds exactly what stands at the end of the history. -/
def Holds (s : Store) (history : List Change) : Prop :=
  ∀ name v, s.get? name = some v ↔ Stands history name v

theorem get?_change (s : Store) (c : Change) (name : String) (v : Value) :
    (s.change c).get? name = some v ↔
      c = .bind name v ∨ ¬ c.Concerns name ∧ s.get? name = some v := by
  cases c with
  | bind other value =>
    rw [change, get?_set]
    by_cases h : other = name <;> simp [h, Change.Concerns]
  | remove other =>
    rw [change, get?_unset]
    by_cases h : other = name <;> simp [h, Change.Concerns]
  | clear => simp [change, Change.Concerns]

theorem Holds.change (h : s.Holds history) (c : Change) : (s.change c).Holds (history ++ [c]) := by
  intro name v
  rw [get?_change, stands_snoc_iff, h name v]

theorem Holds.foldl (h : s.Holds history) (changes : List Change) :
    (changes.foldl Store.change s).Holds (history ++ changes) := by
  induction changes generalizing s history with
  | nil => rwa [List.append_nil]
  | cons c changes ih =>
    have hrest := ih (h.change c)
    rwa [List.append_assoc] at hrest

theorem holds_empty : empty.Holds [] := by
  intro name v
  rw [get?_empty]
  exact iff_of_false nofun not_stands_nil

theorem foldl_bindings (s : Store) (list : List (String × Value)) :
    (Change.bindings list).foldl Store.change s = s.extend list := by
  rw [Change.bindings, List.foldl_map]
  rfl

/-- A store that is collected from a list holds what the list binds last. -/
theorem holds_ofList (list : List (String × Value)) :
    (ofList list).Holds (Change.bindings list) := by
  have h := holds_empty.foldl (Change.bindings list)
  rwa [foldl_bindings] at h

theorem foldl_replacement (s : Store) (vars : Option Store) :
    (Change.replacement vars).foldl Store.change s = vars.getD s := by
  cases vars with
  | none => rfl
  | some t =>
    show (Change.bindings t.toList).foldl Store.change empty = t
    rw [foldl_bindings, extend_empty_of_perm (.refl _)]

theorem Holds.isSome_iff (h : s.Holds history) (name : String) :
    s.contains name = true ↔ ∃ v, Stands history name v := by
  rw [contains_eq_isSome, Option.isSome_iff_exists]
  exact exists_congr (h name)

/-- The bound names, each of them once, are as many as the store counts. -/
theorem size_eq_length_names (s : Store) : s.size = (s.toList.map Prod.fst).length := by
  rw [List.length_map]
  exact Std.ExtTreeMap.length_toList.symm

theorem mem_names_iff {name : String} :
    name ∈ s.toList.map Prod.fst ↔ ∃ v, s.get? name = some v := by
  simp only [List.mem_map, Prod.exists, exists_and_right, exists_eq_right, mem_toList_iff]

theorem isEmpty_iff_size (s : Store) : s.isEmpty = true ↔ s.size = 0 := by
  have hlist : s.toList.isEmpty = s.isEmpty := Std.ExtTreeMap.isEmpty_toList
  have hsize : s.toList.length = s.size := Std.ExtTreeMap.length_toList
  rw [← hlist, ← hsize, List.isEmpty_iff, List.length_eq_zero_iff]

end Store

/-! ## Changes to an engine -/

namespace Assignment

/-- Carrying out assignments binds the assigned names in turn. -/
theorem applyAll_eq_extend (list : List Assignment) (s : Store) :
    (applyAll list s).1 =
      s.extend (Event.assigned ((applyAll list s).2.filterMap Engine.eventOf?)) := by
  induction list generalizing s with
  | nil => rfl
  | cons a list ih =>
    rw [Event.filterMap_applyAll_cons]
    exact ih _

end Assignment

namespace Engine

variable {e : Engine}

theorem update_vars_eq_extend (src : String) (vars : Option Store) :
    (e.update src vars).engine.vars =
      (vars.getD e.vars).extend (Event.assigned (e.update src vars).events) := by
  cases hparse : Assignment.parseAll (Text.normalize src) e.limits with
  | error f =>
    rw [update_vars, update_answer, hparse, update, evaluate_events, hparse]
    rfl
  | ok list =>
    rw [(update_of_parse vars hparse).2, update_assigned vars hparse]
    exact Assignment.applyAll_eq_extend list _

/-- A step leaves the store that its changes make. -/
theorem step_vars (e : Engine) (s : Step) :
    (e.step s).engine.vars = (s.changes e).foldl Store.change e.vars := by
  cases s with
  | transform src vars => rw [step_transform, Step.changes, Store.foldl_replacement, transform_vars]
  | conditional src vars =>
    rw [step_conditional, Step.changes, Store.foldl_replacement, conditional_vars]
  | calculate src vars => rw [step_calculate, Step.changes, Store.foldl_replacement, calculate_vars]
  | update src vars =>
    rw [step_update, Step.changes, List.foldl_append, Store.foldl_replacement,
      Store.foldl_bindings, update_vars_eq_extend]
  | set => rfl
  | unset => rfl
  | extend list => rw [Step.changes, Store.foldl_bindings, step]
  | setVars vars => rw [Step.changes, Store.foldl_replacement, step, Option.getD_some]
  | get => rfl
  | lookup => rfl
  | contains => rfl
  | size => rfl
  | limits => rfl
  | withLimits => rfl

/-- A run leaves the store that its changes make, one after another. -/
theorem after_vars (e : Engine) (steps : List Step) :
    (e.after steps).vars = (e.changes steps).foldl Store.change e.vars := by
  induction steps generalizing e with
  | nil => rfl
  | cons s steps ih => rw [after, changes, List.foldl_append, ih, step_vars]

theorem after_holds (e : Engine) (steps : List Step) :
    (e.after steps).vars.Holds (e.history steps) := by
  have hstart := Store.holds_empty.foldl (Change.bindings e.vars.toList)
  rw [Store.foldl_bindings, Store.extend_empty_of_perm (.refl _), List.nil_append] at hstart
  rw [after_vars]
  exact hstart.foldl _

/-- A step in a run is answered as a step on the engine that the steps before it have left. -/
theorem run_append (e : Engine) (steps : List Step) (s : Step) (later : List Step) :
    e.run (steps ++ s :: later) =
      e.run steps ++ (e.after steps).step s :: ((e.after steps).step s).engine.run later := by
  induction steps generalizing e with
  | nil => rfl
  | cons first steps ih =>
    rw [List.cons_append, run, run, after, List.cons_append, ih]

/-- What a store holds, its engine shows. -/
theorem shows_of_holds {history : List Change} (h : e.vars.Holds history) : e.Shows history where
  get name := ⟨_, rfl, h name⟩
  lookup name := by
    refine ⟨_, rfl, ?_⟩
    rw [Store.lookup]
    cases hget : e.vars.get? name with
    | some v => exact .inl ((h name v).mp hget)
    | none =>
      refine .inr ⟨rfl, fun w hw => ?_⟩
      rw [(h name w).mpr hw] at hget
      cases hget
  contains name := ⟨_, rfl, h.isSome_iff name⟩
  unset name := by
    refine ⟨_, rfl, h.isSome_iff name, fun other hne => ?_⟩
    show (e.vars.unset name).get? other = _
    rw [Store.get?_unset, if_neg hne.symm]
  size := by
    refine ⟨e.vars.toList.map Prod.fst, e.vars.isEmpty, e.vars.nodup_toList, fun name => ?_, ?_, ?_⟩
    · rw [Store.mem_names_iff]
      exact exists_congr (h name)
    · rw [← Store.size_eq_length_names]
      rfl
    · rw [← Store.size_eq_length_names]
      exact e.vars.isEmpty_iff_size

end Engine

/-- The last write stands. After any steps, from any store on, an engine answers by its history:
a name is bound to the value that was last written to it, if it was not removed and no other store
was put in place since, and to nothing otherwise. A store that is collected from a list has the
last value of each name. Names that differ in any character are different names: what happens to
one of them makes no difference to the other. -/
theorem last_write_stands (e : Engine) (steps : List Step) :
    (e.after steps).Shows (e.history steps) ∧
    (∀ s later, e.run (steps ++ s :: later) =
      e.run steps ++ (e.after steps).step s :: ((e.after steps).step s).engine.run later) ∧
    (∀ list name v, (Store.ofList list).get? name = some v ↔
      Stands (Change.bindings list) name v) ∧
    ∀ name other, (∃ i : Nat, name.toList[i]? ≠ other.toList[i]?) → ∀ history v w,
      (Stands (history ++ [.bind other w]) name v ↔ Stands history name v) ∧
        (Stands (history ++ [.remove other]) name v ↔ Stands history name v) := by
  refine ⟨Engine.shows_of_holds (e.after_holds steps), e.run_append steps,
    Store.holds_ofList, ?_⟩
  rintro name other ⟨i, hi⟩ history v w
  have hne : other ≠ name := by
    rintro rfl
    exact hi rfl
  exact ⟨stands_snoc_of_not_concerns hne, stands_snoc_of_not_concerns hne⟩

/-- Two names that differ in case. One of them is bound twice in one batch and removed, and then an
update binds both to sums, the second to a sum with what the first was bound to just before. -/
theorem last_write_stands_case :
    let e : Engine := {}
    let steps : List Step := [.extend [("a", .int 1), ("A", .int 2), ("a", .int 3)], .unset "a",
      .update "a: A + 1\nA: a + A" none]
    (∃ i : Nat, "A".toList[i]? ≠ "a".toList[i]?) ∧
      e.history steps = [.bind "a" (.int 1), .bind "A" (.int 2), .bind "a" (.int 3), .remove "a",
        .bind "a" (.int 3), .bind "A" (.int 5)] ∧
      (e.after steps).Shows (e.history steps) ∧
      (Stands ([.bind "A" (.int 2)] ++ [.remove "a"]) "A" (.int 2) ↔
        Stands [.bind "A" (.int 2)] "A" (.int 2)) := by
  intro e steps
  obtain ⟨hshows, -, -, hnames⟩ := last_write_stands e steps
  have hne : ∃ i : Nat, "A".toList[i]? ≠ "a".toList[i]? := ⟨0, by decide⟩
  exact ⟨hne, by decide +kernel, hshows, (hnames "A" "a" hne _ _ .absent).2⟩

end Stencil

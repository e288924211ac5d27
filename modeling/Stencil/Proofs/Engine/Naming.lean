/-
# Stencil.Proofs.Engine.Naming -- names that are no identifiers do not matter

A store takes any text as a name, but only an identifier can be written: the scanner of names and
the test for identifiers agree on every text, and a text that is no identifier is never read as
one, not even if it can be read as something else (`Engine.update_line_iff`).

So two engines whose stores agree on identifiers stay in agreement, step by step, and evaluate
every text alike. The stores may differ in all other names, and those that are supplied and what
is written from outside may as well: what an operation reads and binds is named in its tree, and
every name of a parsed tree is an identifier.
-/
import Mathlib.Data.List.Forall2
import Stencil.Proofs.Assignment.Listing
import Stencil.Proofs.Dependence
import Stencil.Proofs.Engine.Evolution

namespace Stencil

open Parse

/-! ## Agreement on identifiers -/

/-- The stores hold the same bindings of identifiers. -/
def Store.SameNamed (s t : Store) : Prop :=
  ∀ name, isIdentifier name = true → s.get? name = t.get? name

/-- The same limits, and the same bindings of identifiers. -/
structure Engine.SameNamed (e e' : Engine) : Prop where
  limits : e.limits = e'.limits
  vars : e.vars.SameNamed e'.vars

/-- What a step writes to the store, name by name, if that is all it does to it; `none` stands for
the removal of a binding. -/
def Step.writes? : Step → Option (List (String × Option Value))
  | .set name value => some [(name, some value)]
  | .unset name => some [(name, none)]
  | .extend list => some (list.map fun b => (b.1, some b.2))
  | _ => none

/-- The steps do the same to identifiers. They evaluate one text, with stores that agree on
identifiers if stores are supplied; they put such stores in place; they write the same to all
identifiers; or they are one step of another kind. -/
inductive Step.SameNamed : Step → Step → Prop
  | transform (src : String) {vars vars' : Option Store} :
      Option.Rel Store.SameNamed vars vars' → SameNamed (.transform src vars) (.transform src vars')
  | conditional (src : String) {vars vars' : Option Store} :
      Option.Rel Store.SameNamed vars vars' →
      SameNamed (.conditional src vars) (.conditional src vars')
  | update (src : String) {vars vars' : Option Store} :
      Option.Rel Store.SameNamed vars vars' → SameNamed (.update src vars) (.update src vars')
  | calculate (src : String) {vars vars' : Option Store} :
      Option.Rel Store.SameNamed vars vars' → SameNamed (.calculate src vars) (.calculate src vars')
  | setVars {vars vars' : Store} : vars.SameNamed vars' → SameNamed (.setVars vars) (.setVars vars')
  | writes {s s' : Step} {list list' : List (String × Option Value)} :
      s.writes? = some list → s'.writes? = some list' →
      list.filter (isIdentifier ·.1) = list'.filter (isIdentifier ·.1) → SameNamed s s'
  | asks (s : Step) : s.request? = none → s.writes? = none → SameNamed s s

/-- Whether an answer is the result of one of the four operations. -/
def Answer.isResult : Answer → Bool
  | .rendered _ | .decided _ | .updated _ | .calculated _ => true
  | _ => false

/-- The same answer, or the stores that updates leave if these agree on identifiers. What else is
asked of a store may be answered in two ways. -/
inductive Answer.SameNamed : Answer → Answer → Prop
  | same (x : Answer) : SameNamed x x
  | updated {s t : Store} : s.SameNamed t → SameNamed (.updated (.ok s)) (.updated (.ok t))
  | asked {x y : Answer} : x.isResult = false → y.isResult = false → SameNamed x y

/-! ## Stores -/

namespace Store

variable {s t u : Store}

theorem SameNamed.refl (s : Store) : s.SameNamed s := fun _ _ => rfl

theorem SameNamed.symm (h : s.SameNamed t) : t.SameNamed s := fun name hname => (h name hname).symm

theorem SameNamed.trans (h : s.SameNamed t) (h' : t.SameNamed u) : s.SameNamed u :=
  fun name hname => (h name hname).trans (h' name hname)

theorem SameNamed.lookup_eq (h : s.SameNamed t) {name : String}
    (hname : isIdentifier name = true) : t.lookup name = s.lookup name := by
  rw [lookup, lookup, h name hname]

theorem SameNamed.getD (h : s.SameNamed t) {vars vars' : Option Store}
    (hvars : Option.Rel SameNamed vars vars') : (vars.getD s).SameNamed (vars'.getD t) := by
  cases hvars with
  | some hvars => exact hvars
  | none => exact h

/-- Write to a name: bind it, or remove its binding. -/
def write (s : Store) : String × Option Value → Store
  | (name, some value) => s.set name value
  | (name, none) => s.unset name

theorem get?_write (s : Store) (b : String × Option Value) (other : String) :
    (s.write b).get? other = if b.1 = other then b.2 else s.get? other := by
  obtain ⟨name, _ | value⟩ := b
  · exact get?_unset s name other
  · exact get?_set s name other value

theorem SameNamed.write (h : s.SameNamed t) (b : String × Option Value) :
    (s.write b).SameNamed (t.write b) := by
  intro name hname
  rw [get?_write, get?_write, h name hname]

theorem SameNamed.set (h : s.SameNamed t) (name : String) (value : Value) :
    (s.set name value).SameNamed (t.set name value) := h.write (name, some value)

theorem sameNamed_write {b : String × Option Value} (hb : isIdentifier b.1 = false) :
    (s.write b).SameNamed s := by
  intro name hname
  have hne : b.1 ≠ name := by
    intro heq
    rw [← heq, hb] at hname
    cases hname
  rw [get?_write, if_neg hne]

theorem SameNamed.foldl_write (h : s.SameNamed t) (list : List (String × Option Value)) :
    (list.foldl Store.write s).SameNamed (list.foldl Store.write t) := by
  induction list generalizing s t with
  | nil => exact h
  | cons b list ih => exact ih (h.write b)

theorem sameNamed_foldl_filter (s : Store) (list : List (String × Option Value)) :
    (list.foldl Store.write s).SameNamed
      ((list.filter (isIdentifier ·.1)).foldl Store.write s) := by
  induction list generalizing s with
  | nil => exact .refl s
  | cons b list ih =>
    cases hb : isIdentifier b.1 with
    | true =>
      rw [List.filter_cons_of_pos (by exact hb)]
      exact ih (s.write b)
    | false =>
      rw [List.filter_cons_of_neg (by simp [hb])]
      exact ((sameNamed_write hb).foldl_write list).trans (ih s)

/-- Stores agree on identifiers if the same is written to all of these. -/
theorem SameNamed.writes (h : s.SameNamed t) {list list' : List (String × Option Value)}
    (hlist : list.filter (isIdentifier ·.1) = list'.filter (isIdentifier ·.1)) :
    (list.foldl Store.write s).SameNamed (list'.foldl Store.write t) := by
  have hboth := h.foldl_write (list.filter (isIdentifier ·.1))
  rw [hlist] at hboth
  have hleft := sameNamed_foldl_filter s list
  rw [hlist] at hleft
  exact (hleft.trans hboth).trans (sameNamed_foldl_filter t list').symm

end Store

/-! ## Parsed trees -/

/-- Every name in a parsed tree is an identifier. -/
theorem Parse.Goal.isIdentifier_of_parse (goal : Goal) {src : String} {limits : Limits}
    {tree : goal.Tree} (h : goal.parse src limits = .ok tree) :
    ∀ name ∈ goal.names tree, isIdentifier name = true := by
  obtain ⟨-, hwritten, -⟩ := Goal.parse_eq_ok_iff.mp h
  exact fun name => hwritten.isIdentifier

theorem Parse.Goal.operands_of_parse (goal : Goal) {src : String} {limits : Limits}
    {tree : goal.Tree} (h : goal.parse src limits = .ok tree) :
    ∀ a ∈ goal.operands tree, ∀ name ∈ a.names, isIdentifier name = true :=
  fun a ha name hname => goal.isIdentifier_of_parse h name
    (List.mem_append_right _ (List.mem_flatMap.mpr ⟨a, ha, hname⟩))

namespace Assignment

variable {list : List Assignment} {s t : Store}

/-- What is assigned in a parsed list is an identifier. -/
theorem isIdentifier_of_parseAll {src : String} {limits : Limits}
    (h : parseAll src limits = .ok list) : ∀ a ∈ list, isIdentifier a.name = true :=
  fun a ha => Goal.isIdentifier_of_parse .assignments h a.name
    (List.mem_append_left _ (List.mem_map.mpr ⟨a, ha, rfl⟩))

/-- Assignments that read identifiers leave stores in agreement. -/
theorem sameNamed_applyAll (h : s.SameNamed t)
    (hlist : ∀ a ∈ operands list, ∀ name ∈ a.names, isIdentifier name = true) :
    (applyAll list s).1.SameNamed (applyAll list t).1 := by
  induction list generalizing s t with
  | nil => exact h
  | cons a list ih =>
    obtain ⟨hfirst, hrest⟩ := List.forall_mem_append.mp hlist
    have heval : a.value.eval t.lookup = a.value.eval s.lookup :=
      (Expression.eval_readsOnly hfirst).eq_of_agree fun _ => h.lookup_eq
    show (applyAll list (s.set a.name (a.value.eval s.lookup).value)).1.SameNamed
      (applyAll list (t.set a.name (a.value.eval t.lookup).value)).1
    rw [heval]
    exact ih (h.set a.name _) hrest

end Assignment

/-! ## Operations -/

namespace Engine

variable {e e' : Engine} {src : String} {vars vars' : Option Store}

/-- What reads identifiers only finds the same on both sides. -/
theorem SameNamed.looked_eq {τ α : Type} (h : e.SameNamed e')
    (hvars : Option.Rel Store.SameNamed vars vars')
    {parse : String → Limits → Except Failure τ} {look : Valuation → τ → Traced α}
    (hlook : ∀ tree, parse (Text.normalize src) e'.limits = .ok tree →
      Traced.ReadsOnly (isIdentifier · = true) (look · tree)) :
    e.looked parse look src vars = e'.looked parse look src vars' := by
  rw [looked, looked, h.limits]
  cases htree : parse (Text.normalize src) e'.limits with
  | error f => rfl
  | ok tree =>
    have heq := (hlook tree htree).eq_of_agree fun _ => (h.vars.getD hvars).lookup_eq
    rw [Except.map, Except.map, heq]

theorem SameNamed.transform_eq (h : e.SameNamed e')
    (hvars : Option.Rel Store.SameNamed vars vars') :
    (e.transform src vars).answer = (e'.transform src vars').answer := by
  rw [transform, transform, reading_answer, reading_answer, h.looked_eq hvars]
  intro t ht
  exact (Template.render_readsOnly t (Goal.operands_of_parse .template ht)).map _

theorem SameNamed.conditional_eq (h : e.SameNamed e')
    (hvars : Option.Rel Store.SameNamed vars vars') :
    (e.conditional src vars).answer = (e'.conditional src vars').answer := by
  rw [conditional, conditional, reading_answer, reading_answer, h.looked_eq hvars]
  intro t ht
  exact Condition.eval_readsOnly t (Goal.operands_of_parse .condition ht)

theorem SameNamed.calculate_eq (h : e.SameNamed e')
    (hvars : Option.Rel Store.SameNamed vars vars') :
    (e.calculate src vars).answer = (e'.calculate src vars').answer := by
  rw [calculate, calculate, reading_answer, reading_answer, h.looked_eq hvars]
  intro t ht
  exact Expression.eval_readsOnly (Goal.operands_of_parse .expression ht)

/-- An update fails with one failure on both sides, or leaves stores in agreement. -/
theorem SameNamed.update (h : e.SameNamed e') (src : String)
    (hvars : Option.Rel Store.SameNamed vars vars') :
    (Answer.updated (e.update src vars).answer).SameNamed (.updated (e'.update src vars').answer) ∧
      (e.update src vars).engine.vars.SameNamed (e'.update src vars').engine.vars := by
  rw [update_vars, update_vars, update_answer, update_answer, h.limits]
  have hsame := h.vars.getD hvars
  cases hlist : Assignment.parseAll (Text.normalize src) e'.limits with
  | error f => exact ⟨.same _, hsame⟩
  | ok list =>
    have happly := Assignment.sameNamed_applyAll hsame (Goal.operands_of_parse .assignments hlist)
    exact ⟨.updated happly, happly⟩

/-- An update keeps the bindings of all names that are no identifiers. -/
theorem update_get?_of_not_isIdentifier {name : String} (hname : isIdentifier name = false) :
    (e.update src vars).engine.vars.get? name = (vars.getD e.vars).get? name := by
  obtain ⟨_, -, hafter⟩ | ⟨list, hlist, hperformed⟩ := update_leaves (e := e) src vars
  · rw [hafter]
  · apply hperformed.get?_eq
    rintro a ha rfl
    rw [Assignment.isIdentifier_of_parseAll hlist a ha] at hname
    cases hname

/-- A text in front of `: 1` is bound, and nothing else is, just if it is an identifier. If it is
not, what it is read as may still be assigned: other names, in more than one line. -/
theorem update_line_iff {s : String} (hempty : vars.getD e.vars = .empty)
    (hbytes : (s ++ ": 1").utf8ByteSize ≤ e.limits.maxBytes) :
    ((e.update (s ++ ": 1") vars).answer = .ok (Store.empty.set s (.int 1)) ∧
      (e.update (s ++ ": 1") vars).engine.vars = Store.empty.set s (.int 1)) ↔
        isIdentifier s = true := by
  constructor
  · rintro ⟨hanswer, -⟩
    rw [update_answer, hempty, map_eq_ok_iff] at hanswer
    obtain ⟨list, hlist, happly⟩ := hanswer
    have hperformed := Assignment.performed_applyAll list .empty
    rw [happly] at hperformed
    -- what is bound now was assigned
    have hbound : (Store.empty.set s (.int 1)).contains s = true := by
      rw [Store.contains_eq_isSome, Store.get?_set, if_pos rfl]
      rfl
    obtain hbefore | ⟨a, ha, rfl⟩ := hperformed.contains_iff.mp hbound
    · rw [Store.contains_eq_isSome, Store.get?_empty] at hbefore
      cases hbefore
    · exact Assignment.isIdentifier_of_parseAll hlist a ha
  · intro hs
    have hline : s ++ ": 1" = listing [(s, .int 1)] := by
      show s ++ (": " ++ "1") = s ++ ": " ++ "1"
      rw [String.append_assoc]
    have hlistable : ∀ b ∈ [(s, Value.int 1)], IsListable b :=
      List.forall_mem_singleton.mpr ⟨hs, trivial⟩
    rw [hline] at hbytes ⊢
    have hanswer : (e.update (listing [(s, .int 1)]) vars).answer =
        .ok ((vars.getD e.vars).extend [(s, .int 1)]) :=
      update_listing (List.cons_ne_nil _ _) hlistable hbytes
    rw [hempty] at hanswer
    exact ⟨hanswer, (update_vars_of_ok hanswer).symm⟩

/-! ## Steps -/

/-- Stores in agreement, put in place on both sides, leave engines in agreement. -/
theorem SameNamed.install (h : e.SameNamed e') (hvars : Option.Rel Store.SameNamed vars vars') :
    (e.install vars).SameNamed (e'.install vars') where
  limits := by rw [install_limits, install_limits, h.limits]
  vars := by
    rw [install_vars, install_vars]
    exact h.vars.getD hvars

/-- A step that writes does nothing else. -/
theorem step_of_writes {s : Step} {list : List (String × Option Value)}
    (h : s.writes? = some list) :
    (e.step s).engine = ⟨list.foldl Store.write e.vars, e.limits⟩ ∧
      (e.step s).answer.isResult = false := by
  cases s with
  | set name value =>
    obtain rfl := Option.some.inj h
    exact ⟨rfl, rfl⟩
  | unset name =>
    obtain rfl := Option.some.inj h
    exact ⟨rfl, rfl⟩
  | extend list =>
    obtain rfl := Option.some.inj h
    refine ⟨?_, rfl⟩
    rw [List.foldl_map]
    rfl
  | _ => cases h

/-- Steps that do the same to identifiers are answered alike and leave engines in agreement. -/
theorem SameNamed.step (h : e.SameNamed e') {s s' : Step} (hs : s.SameNamed s') :
    (e.step s).answer.SameNamed (e'.step s').answer ∧
      (e.step s).engine.SameNamed (e'.step s').engine := by
  cases hs with
  | transform src hvars =>
    rw [step_transform, step_transform, h.transform_eq hvars, transform_engine, transform_engine]
    exact ⟨.same _, h.install hvars⟩
  | conditional src hvars =>
    rw [step_conditional, step_conditional, h.conditional_eq hvars, conditional_engine,
      conditional_engine]
    exact ⟨.same _, h.install hvars⟩
  | calculate src hvars =>
    rw [step_calculate, step_calculate, h.calculate_eq hvars, calculate_engine, calculate_engine]
    exact ⟨.same _, h.install hvars⟩
  | @update src vars vars' hvars =>
    rw [step_update, step_update]
    dsimp only
    obtain ⟨hanswer, hafter⟩ := h.update src hvars
    have hlimits : (e.update src vars).engine.limits = (e'.update src vars').engine.limits := by
      rw [update_limits, update_limits, h.limits]
    exact ⟨hanswer, hlimits, hafter⟩
  | setVars hvars => exact ⟨.same _, h.limits, hvars⟩
  | writes hlist hlist' hsame =>
    obtain ⟨hengine, hanswer⟩ := step_of_writes (e := e) hlist
    obtain ⟨hengine', hanswer'⟩ := step_of_writes (e := e') hlist'
    rw [hengine, hengine']
    exact ⟨.asked hanswer hanswer', h.limits, h.vars.writes hsame⟩
  | asks s hrequest hwrites =>
    cases s with
    | get name => exact ⟨.asked rfl rfl, h⟩
    | lookup name => exact ⟨.asked rfl rfl, h⟩
    | contains name => exact ⟨.asked rfl rfl, h⟩
    | size => exact ⟨.asked rfl rfl, h⟩
    | limits => exact ⟨.asked rfl rfl, h⟩
    | withLimits limits => exact ⟨.same _, rfl, h.vars⟩
    | setVars vars => exact ⟨.same _, h.limits, .refl vars⟩
    | set => cases hwrites
    | unset => cases hwrites
    | extend => cases hwrites
    | transform => cases hrequest
    | conditional => cases hrequest
    | update => cases hrequest
    | calculate => cases hrequest

/-! ## Runs -/

/-- Step by step, two runs that do the same to identifiers are answered alike and leave engines in
agreement. -/
theorem SameNamed.run (h : e.SameNamed e') {steps steps' : List Step}
    (hsteps : List.Forall₂ Step.SameNamed steps steps') :
    List.Forall₂ (fun x y => x.answer.SameNamed y.answer ∧ x.engine.SameNamed y.engine)
      (e.run steps) (e'.run steps') := by
  induction hsteps generalizing e e' with
  | nil => exact .nil
  | cons hs _ ih =>
    have hstep := h.step hs
    exact .cons hstep (ih hstep.2)

end Engine

/-- Only identifiers matter. In front of `: 1`, a text is assigned just if it is an identifier: an
update of the empty store succeeds and leaves this one binding then, and otherwise it fails or
leaves something else. Every name in every parsed tree is an identifier. So in two runs in which
the stores and all that is done to them agree on identifiers, every template is rendered, every
condition decided and every expression computed alike, updates fail alike or leave stores that
agree on identifiers, and the engines stay in agreement. No update adds, changes or removes a
binding of a name that is no identifier. -/
theorem only_identifiers_matter :
    (∀ (e : Engine) (vars : Option Store) (s : String), vars.getD e.vars = .empty →
      (s ++ ": 1").utf8ByteSize ≤ e.limits.maxBytes →
      (((e.update (s ++ ": 1") vars).answer = .ok (Store.empty.set s (.int 1)) ∧
        (e.update (s ++ ": 1") vars).engine.vars = Store.empty.set s (.int 1)) ↔
          isIdentifier s = true)) ∧
    (∀ (goal : Goal) (src : String) (limits : Limits) (tree : goal.Tree),
      goal.parse src limits = .ok tree → ∀ name ∈ goal.names tree, isIdentifier name = true) ∧
    (∀ (e e' : Engine) (steps steps' : List Step), e.SameNamed e' →
      List.Forall₂ Step.SameNamed steps steps' →
      List.Forall₂ (fun x y => x.answer.SameNamed y.answer ∧ x.engine.SameNamed y.engine)
        (e.run steps) (e'.run steps')) ∧
    ∀ (e : Engine) (src : String) (vars : Option Store) (name : String),
      isIdentifier name = false →
      (e.update src vars).engine.vars.get? name = (vars.getD e.vars).get? name := by
  refine ⟨?_, ?_, ?_, ?_⟩
  · intro e vars s hempty hbytes
    exact Engine.update_line_iff hempty hbytes
  · intro goal src limits tree
    exact goal.isIdentifier_of_parse
  · intro e e' steps steps' h hsteps
    exact h.run hsteps
  · intro e src vars name hname
    exact Engine.update_get?_of_not_isIdentifier hname

/-- The text `x: 2`, a line end and `y` is no identifier, although an assignment list begins with
it, and no expression reads what is bound to `b c` or `é`. -/
theorem only_identifiers_matter_lines :
    let e : Engine := { vars := (Store.empty.set "a" (.int 1)).set "b c" (.int 2) }
    let e' : Engine := { vars := Store.empty.set "a" (.int 1) }
    let steps : List Step := [.set "é" (.int 3), .update "b: a + 1" none, .calculate "b" none]
    let steps' : List Step := [.extend [], .update "b: a + 1" none, .calculate "b" none]
    (e.update ("a_1" ++ ": 1") (some .empty)).answer = .ok (Store.empty.set "a_1" (.int 1)) ∧
    ((e.update ("x: 2\ny" ++ ": 1") (some .empty)).engine.vars.get? "y" = some (.int 1) ∧
      ¬ ((e.update ("x: 2\ny" ++ ": 1") (some .empty)).answer =
          .ok (Store.empty.set "x: 2\ny" (.int 1)) ∧
        (e.update ("x: 2\ny" ++ ": 1") (some .empty)).engine.vars =
          Store.empty.set "x: 2\ny" (.int 1))) ∧
    (∀ name ∈ Goal.names .expression (.arithmetic (.lookup "a") .plus (.number (.int 1))),
      isIdentifier name = true) ∧
    (e.SameNamed e' ∧ List.Forall₂ Step.SameNamed steps steps' ∧
      List.Forall₂ (fun x y => x.answer.SameNamed y.answer ∧ x.engine.SameNamed y.engine)
        (e.run steps) (e'.run steps')) ∧
    (e.update "b: a + 1" none).engine.vars.get? "b c" = some (.int 2) := by
  intro e e' steps steps'
  obtain ⟨hline, hnames, hrun, hkeep⟩ := only_identifiers_matter
  have hparse : Expression.parse "a + 1" {} =
      .ok (.arithmetic (.lookup "a") .plus (.number (.int 1))) := by decide +kernel
  have hsame : e.SameNamed e' :=
    ⟨rfl, Store.sameNamed_write (b := ("b c", some (.int 2))) (by decide)⟩
  have hsteps : List.Forall₂ Step.SameNamed steps steps' :=
    .cons (.writes rfl rfl (by decide +kernel))
      (.cons (.update _ .none) (.cons (.calculate _ .none) .nil))
  have hvalid := (hline e (some .empty) "a_1" rfl (by decide +kernel)).mpr (by decide)
  have hinvalid := hline e (some .empty) "x: 2\ny" rfl (by decide +kernel)
  refine ⟨hvalid.1, ⟨by decide +kernel, ?_⟩, hnames .expression "a + 1" {} _ hparse,
    ⟨hsame, hsteps, hrun e e' steps steps' hsame hsteps⟩, ?_⟩
  · rw [hinvalid]
    decide
  · rw [hkeep e _ none "b c" (by decide)]
    decide +kernel

end Stencil

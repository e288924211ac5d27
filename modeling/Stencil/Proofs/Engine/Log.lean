/-
# Stencil.Proofs.Engine.Log -- what the log of a run says

Each of the four operations writes to the log, and nothing else does. It begins with one entry
that gives the length of the text as it was handed in, in bytes and before anything is cut from
it, and the number of variables that there are once a supplied store is in place. If the text
cannot be parsed, one more entry names what it was parsed as and the cause, the same as in the
failure that is answered. If an update succeeds, there is one more entry for each assignment, in
the order of the text, with the name and with the value that is bound at that moment as it is
written and by its type. There are no other entries.

`Logs` says this of one step, by the way in which the step is answered, and `Reported` of the
assignments of a list, along the stores between them.
-/
import Stencil.Proofs.Engine.Evolution

namespace Stencil

open Parse

/-! ## Entries -/

/-- An entry of a log: its level, its message and its named fields. -/
structure Entry where
  level : String
  message : String
  fields : List (String × String)
deriving DecidableEq

/-- The entry that an event makes. -/
def Event.entry (event : Event) : Entry := ⟨event.level, event.message, event.fields⟩

/-- The entries that a step makes. -/
def Answered.entries (x : Answered) : List Entry := x.events.map Event.entry

namespace Entry

/-- An operation begins on a text, with some variables. -/
def begun (op : Operation) (src : String) (vars : Store) : Entry :=
  ⟨"TRACE", "evaluate",
    [("op", op.describe), ("len", toString src.utf8ByteSize), ("vars", toString vars.size)]⟩

/-- A text could not be parsed. -/
def failed (f : Failure) : Entry :=
  ⟨"DEBUG", "parse failed", [("rule", f.goal.describe), ("cause", f.cause.message)]⟩

/-- A name is bound to a value. -/
def assigned (name : String) (value : Value) : Entry :=
  ⟨"TRACE", "assign", [("name", name), ("value", value.text), ("ty", value.typeName)]⟩

theorem name_of_assigned_eq {name name' : String} {v v' : Value}
    (h : assigned name v = assigned name' v') : name = name' := by
  simp only [assigned, mk.injEq, true_and, List.cons.injEq, Prod.mk.injEq] at h
  exact h.1

end Entry

/-! ## Assignments -/

/-- Performing the assignments of a list makes these entries, on the way from one store to the
other: each has the name and the value that is bound to it at that moment. -/
inductive Assignment.Reported : List Assignment → Store → List Entry → Store → Prop
  | nil (s : Store) : Reported [] s [] s
  | cons {a : Assignment} {list : List Assignment} {s t : Store} {v : Value}
      {entries : List Entry} : (a.value.eval s.lookup).value = v →
      Reported list (s.set a.name v) entries t →
      Reported (a :: list) s (Entry.assigned a.name v :: entries) t

namespace Assignment

variable {list : List Assignment} {s t : Store} {entries : List Entry}

theorem reported_applyAll (list : List Assignment) (s : Store) :
    Reported list s (((applyAll list s).2.filterMap Engine.eventOf?).map Event.entry)
      (applyAll list s).1 := by
  induction list generalizing s with
  | nil => exact .nil s
  | cons a list ih =>
    rw [Event.filterMap_applyAll_cons]
    exact .cons rfl (ih _)

theorem Reported.length_eq (h : Reported list s entries t) : entries.length = list.length := by
  induction h with
  | nil => rfl
  | cons _ _ ih => rw [List.length_cons, List.length_cons, ih]

/-- What is not assigned makes no entry and keeps its binding. -/
theorem Reported.of_not_assigned {name : String} (h : Reported list s entries t)
    (hno : ∀ a ∈ list, a.name ≠ name) :
    (∀ v, Entry.assigned name v ∉ entries) ∧ t.get? name = s.get? name := by
  induction h with
  | nil => exact ⟨fun _ => List.not_mem_nil, rfl⟩
  | @cons a _ _ _ v _ _ _ ih =>
    obtain ⟨hne, hno⟩ := List.forall_mem_cons.mp hno
    obtain ⟨hentries, hget⟩ := ih hno
    refine ⟨fun w hw => ?_, by rw [hget, Store.get?_set, if_neg hne]⟩
    obtain heq | hw := List.mem_cons.mp hw
    · exact hne (Entry.name_of_assigned_eq heq).symm
    · exact hentries w hw

/-- The last entry for a name has the value that the name is bound to in the end. -/
theorem Reported.last {name : String} (h : Reported list s entries t)
    (hname : ∃ a ∈ list, a.name = name) :
    ∃ v before behind, entries = before ++ Entry.assigned name v :: behind ∧
      (∀ w, Entry.assigned name w ∉ behind) ∧ t.get? name = some v := by
  induction h with
  | nil =>
    obtain ⟨a, ha, -⟩ := hname
    cases ha
  | @cons a list s t v entries _ hrest ih =>
    by_cases hlater : ∃ b ∈ list, b.name = name
    · obtain ⟨w, before, behind, rfl, hno, hget⟩ := ih hlater
      exact ⟨w, _ :: before, behind, rfl, hno, hget⟩
    · -- the entry made here is the last one
      obtain ⟨b, hb, rfl⟩ := hname
      obtain rfl | hb := List.mem_cons.mp hb
      · obtain ⟨hno, hget⟩ := hrest.of_not_assigned fun c hc heq => hlater ⟨c, hc, heq⟩
        exact ⟨v, [], entries, rfl, hno, by rw [hget, Store.get?_set, if_pos rfl]⟩
      · exact absurd ⟨b, hb, rfl⟩ hlater

end Assignment

/-! ## Steps -/

/-- One of the four operations, on a text and perhaps with a store to be put in place. -/
structure Call where
  op : Operation
  src : String
  vars : Option Store

/-- The operation that a step carries out, if it carries out one. -/
def Step.call? : Step → Option Call
  | .transform src vars => some ⟨.transform, src, vars⟩
  | .conditional src vars => some ⟨.conditional, src, vars⟩
  | .update src vars => some ⟨.updateVariables, src, vars⟩
  | .calculate src vars => some ⟨.calculate, src, vars⟩
  | _ => none

/-- The entry with which an operation begins. -/
def Engine.begun (e : Engine) (call : Call) : Entry :=
  .begun call.op call.src (call.vars.getD e.vars)

/-- The entries that a step makes on an engine, by the way in which it is answered. -/
inductive Engine.Logs (e : Engine) (s : Step) (x : Answered) : Prop
  /-- What carries out no operation makes none. -/
  | silent : s.call? = none → x.entries = [] → Logs e s x
  /-- An operation that fails reports the failure that it answers with. -/
  | failed {call : Call} {f : Failure} : s.call? = some call → x.answer.failure? = some f →
      x.entries = [e.begun call, .failed f] → Logs e s x
  /-- An operation that succeeds and only looks at the variables reports nothing more. -/
  | looked {call : Call} : s.call? = some call → call.op ≠ .updateVariables →
      x.answer.failure? = none → x.entries = [e.begun call] → Logs e s x
  /-- An update that succeeds reports its assignments. -/
  | updated {call : Call} {list : List Assignment} {entries : List Entry} :
      s.call? = some call → call.op = .updateVariables → x.answer.failure? = none →
      Assignment.parseAll (Text.normalize call.src) e.limits = .ok list →
      Assignment.Reported list (call.vars.getD e.vars) entries x.engine.vars →
      x.entries = e.begun call :: entries → Logs e s x

namespace Engine

variable {e : Engine} {s : Step} {op : Operation} {src : String} {vars : Option Store}

section Reading

variable {τ α : Type} {parse : String → Limits → Except Failure τ} {look : Valuation → τ → Traced α}

theorem reading_logs {answer : Answer} (hs : s.call? = some ⟨op, src, vars⟩)
    (hop : op ≠ .updateVariables)
    (hanswer : answer.failure? = failureOf (e.evaluate op parse (reading look) src vars).answer) :
    Logs e s ⟨answer, (e.evaluate op parse (reading look) src vars).engine,
      (e.evaluate op parse (reading look) src vars).events⟩ := by
  rw [evaluate_answer, failureOf_map] at hanswer
  cases hparse : parse (Text.normalize src) e.limits with
  | error f =>
    rw [hparse] at hanswer
    refine .failed hs hanswer ?_
    rw [Answered.entries, evaluate_events, hparse]
    rfl
  | ok tree =>
    rw [hparse] at hanswer
    refine .looked hs hop hanswer ?_
    rw [Answered.entries, evaluate_events, hparse]
    rfl

end Reading

/-- An update that is answered with a store reports the assignments that lead to it. -/
theorem logs_of_applyAll {x : Answered} {list : List Assignment}
    (hanswer : x.answer.failure? = none)
    (hparse : Assignment.parseAll (Text.normalize src) e.limits = .ok list)
    (hvars : x.engine.vars = (Assignment.applyAll list (vars.getD e.vars)).1)
    (hevents : x.events = .evaluate .updateVariables src.utf8ByteSize (vars.getD e.vars).size ::
      (Assignment.applyAll list (vars.getD e.vars)).2.filterMap eventOf?) :
    Logs e (.update src vars) x := by
  have hreported := Assignment.reported_applyAll list (vars.getD e.vars)
  rw [← hvars] at hreported
  refine .updated rfl rfl hanswer hparse hreported ?_
  rw [Answered.entries, hevents]
  rfl

theorem update_logs (src : String) (vars : Option Store) :
    Logs e (.update src vars) (e.step (.update src vars)) := by
  have hfailure : (Answer.updated (e.update src vars).answer).failure? =
      Request.failure? ⟨.assignments, src⟩ e.limits := update_failure
  rw [Request.failure?, Goal.parse] at hfailure
  rw [step_update]
  cases hparse : Assignment.parseAll (Text.normalize src) e.limits with
  | error f =>
    rw [hparse] at hfailure
    refine .failed rfl hfailure ?_
    rw [Answered.entries, update, evaluate_events, hparse]
    rfl
  | ok list =>
    rw [hparse] at hfailure
    refine logs_of_applyAll hfailure hparse ?_ ?_
    · rw [(update_of_parse vars hparse).2]
    · rw [update_events hparse]

theorem step_logs (e : Engine) (s : Step) : Logs e s (e.step s) := by
  cases s with
  | transform src vars =>
    rw [step_transform]
    exact reading_logs rfl nofun rfl
  | conditional src vars =>
    rw [step_conditional]
    exact reading_logs rfl nofun rfl
  | calculate src vars =>
    rw [step_calculate]
    exact reading_logs rfl nofun rfl
  | update src vars => exact update_logs src vars
  | get => exact .silent rfl rfl
  | lookup => exact .silent rfl rfl
  | contains => exact .silent rfl rfl
  | set => exact .silent rfl rfl
  | unset => exact .silent rfl rfl
  | extend => exact .silent rfl rfl
  | setVars => exact .silent rfl rfl
  | size => exact .silent rfl rfl
  | limits => exact .silent rfl rfl
  | withLimits => exact .silent rfl rfl

end Engine

/-- The log of a run. Throughout a run, each operation reports its beginning, with the length of
its text as handed in and the number of variables once a supplied store is in place; then, exactly
if it fails, the failure that it answers with; and then, if it is an update that succeeds, each
assignment of its text in order, with the value bound at that moment. No step reports anything
else. Of the assignments of an update the last one reported for a name has the value that the name
is bound to afterwards. -/
theorem log_over_runs (e : Engine) (steps : List Step) :
    e.Throughout Engine.Logs steps (e.run steps) ∧
    ∀ list before entries after, Assignment.Reported list before entries after →
      entries.length = list.length ∧
      (∀ name, (∃ a ∈ list, a.name = name) →
        ∃ v earlier later, entries = earlier ++ Entry.assigned name v :: later ∧
          (∀ w, Entry.assigned name w ∉ later) ∧ after.get? name = some v) ∧
      ∀ name, (∀ a ∈ list, a.name ≠ name) →
        (∀ v, Entry.assigned name v ∉ entries) ∧ after.get? name = before.get? name := by
  refine ⟨Engine.run_throughout Engine.step_logs e steps, ?_⟩
  intro list before entries after h
  exact ⟨h.length_eq, fun _ => h.last, fun _ => h.of_not_assigned⟩

/-- A name that is assigned twice and read in between: the last of its two entries has the value
that stays. -/
theorem log_over_runs_twice :
    let list : List Assignment := [⟨"a", .operand (.number (.int 1))⟩,
      ⟨"b", .operand (.lookup "a")⟩, ⟨"a", .arithmetic (.lookup "a") .plus (.lookup "b")⟩]
    let entries : List Entry := [.assigned "a" (.int 1), .assigned "b" (.int 1),
      .assigned "a" (.int 2)]
    let after := ((Store.empty.set "a" (.int 1)).set "b" (.int 1)).set "a" (.int 2)
    Assignment.Reported list .empty entries after ∧ (∃ a ∈ list, a.name = "a") ∧
      (∀ a ∈ list, a.name ≠ "c") ∧ entries.length = list.length ∧
      (∃ v earlier later, entries = earlier ++ Entry.assigned "a" v :: later ∧
        (∀ w, Entry.assigned "a" w ∉ later) ∧ after.get? "a" = some v) ∧
      after.get? "c" = none := by
  intro list entries after
  have hreported : Assignment.Reported list .empty entries after :=
    .cons (by decide +kernel) (.cons (by decide +kernel) (.cons (by decide +kernel) (.nil _)))
  obtain ⟨hlength, hlast, hother⟩ := (log_over_runs {} []).2 _ _ _ _ hreported
  have ha : ∃ a ∈ list, a.name = "a" := ⟨_, List.mem_cons_self, rfl⟩
  have hc : ∀ a ∈ list, a.name ≠ "c" := by decide
  exact ⟨hreported, ha, hc, hlength, hlast "a" ha, (hother "c" hc).2.trans (Store.get?_empty _)⟩

/-- A text that cannot be parsed, with a store that is put in place all the same; its length is
counted before the blanks at its ends are cut off. -/
example :
    let e : Engine := {}
    (e.run [.calculate " 1 + " (some (Store.empty.set "a" (.int 1))), .lookup "a"]).map
      (·.entries) = [[⟨"TRACE", "evaluate", [("op", "calculate"), ("len", "5"), ("vars", "1")]⟩,
        ⟨"DEBUG", "parse failed", [("rule", "value expression"), ("cause",
          "expected identifier or number at line 1, column 4, found end of input")]⟩], []] := by
  decide +kernel

end Stencil

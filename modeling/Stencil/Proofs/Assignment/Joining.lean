/-
# Stencil.Proofs.Assignment.Joining -- updates one after the other

Two assignment lists, a line end between them, are one list: its assignments are those of the
first and then those of the second. In the whole, the first line of the second list is a later
line, which is read by another rule than a first line, but a line that may stand first may stand
anywhere (`ListWritten.lines`).

Carrying out the whole is carrying out the one and then the other, since each assignment is
evaluated in the store that the ones before it have left, wherever the list is divided.
-/
import Stencil.Proofs.Assignment
import Stencil.Proofs.Engine.Operation
import Stencil.Proofs.Text.Normal

namespace Stencil

open Parse

namespace Assignment

variable {list list' : List Assignment} {s t : List Char}

/-! ## Lists put together -/

theorem ListWritten.append_lines (h : ListWritten list s) (h' : Lines list' t) :
    ListWritten (list ++ list') (s ++ t) := by
  obtain ⟨ha, hlines⟩ := h
  rw [List.cons_append, List.append_assoc]
  exact .cons ha (hlines.append h')

/-- A list stands behind a line end as its lines. -/
theorem ListWritten.lines (h : ListWritten list s) : Lines list ('\n' :: s) := by
  obtain ⟨ha, hlines⟩ := h
  exact .line ha hlines

theorem Written.ne_nil {a : Assignment} (h : a.Written s) : s ≠ [] := by
  obtain ⟨hname, -⟩ := h
  obtain ⟨x, rest, rfl, -⟩ := hname.leads
  simp

theorem ListWritten.ne_nil (h : ListWritten list s) : s ≠ [] := by
  obtain ⟨ha, -⟩ := h
  simp [ha.ne_nil]

/-! ## Carrying out lists -/

section Environments

variable {σ : Type} [Environment σ]

/-- A list is carried out part by part, and accessed in this order. -/
theorem applyAll_append (list list' : List Assignment) (env : σ) :
    applyAll (list ++ list') env =
      ((applyAll list' (applyAll list env).1).1,
        (applyAll list env).2 ++ (applyAll list' (applyAll list env).1).2) := by
  induction list generalizing env with
  | nil => rfl
  | cons a list ih => simp only [List.cons_append, applyAll, ih, List.append_assoc]

end Environments

end Assignment

/-! ## Updates -/

/-- Every assignment of a list that is carried out is reported. -/
theorem Event.map_fst_assigned (list : List Assignment) (s : Store) :
    (assigned ((Assignment.applyAll list s).2.filterMap Engine.eventOf?)).map Prod.fst =
      list.map (·.name) := by
  induction list generalizing s with
  | nil => rfl
  | cons a list ih =>
    rw [filterMap_applyAll_cons, List.map_cons]
    exact congrArg (a.name :: ·) (ih _)

namespace Engine

variable {e : Engine} {src first second : String} {list list' : List Assignment}

/-- One update with the assignments of two is these two, one after the other. -/
theorem update_append (vars : Option Store)
    (h : Assignment.parseAll (Text.normalize first) e.limits = .ok list)
    (h' : Assignment.parseAll (Text.normalize second) e.limits = .ok list')
    (hboth : Assignment.parseAll (Text.normalize src) e.limits = .ok (list ++ list')) :
    let after := (e.update first vars).engine
    (e.update src vars).answer = (after.update second none).answer ∧
      (e.update src vars).engine = (after.update second none).engine ∧
      Event.assigned (e.update src vars).events =
        Event.assigned (e.update first vars).events ++
          Event.assigned (after.update second none).events := by
  dsimp only
  rw [update_assigned vars hboth, update_assigned vars h, (update_of_parse vars h).2]
  -- the engine after the first update has the same limits
  have hsecond : Assignment.parseAll (Text.normalize second)
      (Engine.mk (Assignment.applyAll list (vars.getD e.vars)).1 e.limits).limits = .ok list' := h'
  rw [(update_of_parse vars hboth).1, (update_of_parse vars hboth).2,
    (update_of_parse none hsecond).1, (update_of_parse none hsecond).2,
    update_assigned none hsecond, Assignment.applyAll_append]
  refine ⟨rfl, rfl, ?_⟩
  rw [Event.assigned, List.filterMap_append, List.filterMap_append]
  rfl

end Engine

/-- Updates compose. Let two texts be parsed as assignment lists, under whatever limits, and let
the engine's limits allow both together with a line end between them. Then this text is parsed as
the assignments of the first and then those of the second. If both are in normal form, one update
with it answers with, and leaves, just what two updates do, with the first text and then with the
second; it reports the assignments that they report, one for each of the list, in its order. -/
theorem updates_compose (e : Engine) (vars : Option Store) (s t : String)
    (limits limits' : Limits) (list list' : List Assignment)
    (hs : Assignment.parseAll s limits = .ok list)
    (ht : Assignment.parseAll t limits' = .ok list')
    (hbytes : (s ++ "\n" ++ t).utf8ByteSize ≤ e.limits.maxBytes) :
    Assignment.parseAll (s ++ "\n" ++ t) e.limits = .ok (list ++ list') ∧
    (Text.normalize s = s → Text.normalize t = t →
      let joined := e.update (s ++ "\n" ++ t) vars
      let first := e.update s vars
      let second := first.engine.update t none
      joined.answer = .ok joined.engine.vars ∧ first.answer = .ok first.engine.vars ∧
      joined.answer = second.answer ∧ joined.engine = second.engine ∧
      Event.assigned joined.events =
        Event.assigned first.events ++ Event.assigned second.events ∧
      (Event.assigned joined.events).map Prod.fst = (list ++ list').map (·.name)) := by
  obtain ⟨-, hs⟩ := Assignment.parseAll_eq_ok_iff.mp hs
  obtain ⟨-, ht⟩ := Assignment.parseAll_eq_ok_iff.mp ht
  have htext : (s ++ "\n" ++ t).toList = s.toList ++ '\n' :: t.toList := by
    simp [String.toList_append]
  have hjoined : Assignment.parseAll (s ++ "\n" ++ t) e.limits = .ok (list ++ list') := by
    rw [Assignment.parseAll_eq_ok_iff, htext]
    exact ⟨hbytes, hs.append_lines ht.lines⟩
  refine ⟨hjoined, fun hnormal hnormal' => ?_⟩
  have hwhole : Text.normalize (s ++ "\n" ++ t) = s ++ "\n" ++ t := by
    rw [Text.normalize_eq_self_iff, htext]
    exact (Text.normalize_eq_self_iff.mp hnormal).append_lineEnd
      (Text.normalize_eq_self_iff.mp hnormal') hs.ne_nil ht.ne_nil
  rw [String.utf8ByteSize_append, String.utf8ByteSize_append] at hbytes
  have hfirst : Assignment.parseAll (Text.normalize s) e.limits = .ok list := by
    rw [hnormal, Assignment.parseAll_eq_ok_iff]
    exact ⟨by omega, hs⟩
  have hsecond : Assignment.parseAll (Text.normalize t) e.limits = .ok list' := by
    rw [hnormal', Assignment.parseAll_eq_ok_iff]
    exact ⟨by omega, ht⟩
  rw [← hwhole] at hjoined
  have happend := Engine.update_append vars hfirst hsecond hjoined
  have hanswer : ∀ {src list}, Assignment.parseAll (Text.normalize src) e.limits = .ok list →
      (e.update src vars).answer = .ok (e.update src vars).engine.vars := by
    intro src list h
    rw [(Engine.update_of_parse vars h).1, (Engine.update_of_parse vars h).2]
  refine ⟨hanswer hjoined, hanswer hfirst, happend.1, happend.2.1, happend.2.2, ?_⟩
  rw [Engine.update_assigned vars hjoined, Event.map_fst_assigned]

/-- The second text reads what the first has bound, and binds it again; the first has an empty
line. -/
theorem updates_compose_rebound :
    let s := "a: b\n\nb: 2"
    let t := "b: b + 1\nc: a + b"
    let list : List Assignment :=
      [⟨"a", .operand (.lookup "b")⟩, ⟨"b", .operand (.number (.int 2))⟩]
    let list' : List Assignment :=
      [⟨"b", .arithmetic (.lookup "b") .plus (.number (.int 1))⟩,
        ⟨"c", .arithmetic (.lookup "a") .plus (.lookup "b")⟩]
    let e : Engine := { vars := Store.empty.set "b" (.int 1) }
    let joined := e.update (s ++ "\n" ++ t) none
    let second := (e.update s none).engine.update t none
    Assignment.parseAll s {} = .ok list ∧ Assignment.parseAll t {} = .ok list' ∧
      (s ++ "\n" ++ t).utf8ByteSize ≤ e.limits.maxBytes ∧
      Assignment.parseAll (s ++ "\n" ++ t) {} = .ok (list ++ list') ∧
      Text.normalize s = s ∧ Text.normalize t = t ∧ joined.engine = second.engine ∧
      Event.assigned joined.events =
        [("a", .int 1), ("b", .int 2), ("b", .int 3), ("c", .int 4)] := by
  intro s t list list' e joined second
  have hs : Assignment.parseAll s {} = .ok list := by decide +kernel
  have ht : Assignment.parseAll t {} = .ok list' := by decide +kernel
  have hbytes : (s ++ "\n" ++ t).utf8ByteSize ≤ e.limits.maxBytes := by decide +kernel
  have hnormal : Text.normalize s = s := by decide +kernel
  have hnormal' : Text.normalize t = t := by decide +kernel
  obtain ⟨hparse, hupdates⟩ := updates_compose e none s t {} {} list list' hs ht hbytes
  obtain ⟨-, -, -, hengine, -⟩ := hupdates hnormal hnormal'
  exact ⟨hs, ht, hbytes, hparse, hnormal, hnormal', hengine, by decide +kernel⟩

end Stencil

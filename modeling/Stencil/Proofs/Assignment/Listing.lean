/-
# Stencil.Proofs.Assignment.Listing -- stores written out and loaded back

A store can be written out as an assignment list, one line `name: literal` for each binding,
if its names are identifiers and its values have literals. Such a text is in normal form, so
nothing is cut from it, and it is parsed into one assignment for each line, whose expression is
the value itself. Carried out, it binds these names to these values: loaded into the empty
store it gives back the store that was written out, and loaded into another it overrides it.

The order of the lines does not matter, since no expression in them looks anything up and no
name is bound twice.
-/
import Stencil.Proofs.Assignment.Lines
import Stencil.Proofs.Decimal
import Stencil.Proofs.Engine.Operation
import Stencil.Proofs.Expression.Ends
import Stencil.Proofs.Store

namespace Stencil

open Parse

/-! ## Literals -/

namespace Value

/-- The literal of a value: a text between double quotes, any other value as it is written. -/
def literal : Value → String
  | str s => "\"" ++ s ++ "\""
  | v => v.text

/-- The values that are read back from their literals: truth values, integers, and texts with
neither a double quote nor a line end inside. -/
def HasLiteral : Value → Prop
  | bool _ => True
  | int _ => True
  | str s => '"' ∉ s.toList ∧ '\n' ∉ s.toList
  | float _ => False
  | absent => False

end Value

/-- The expression that is a value. -/
def Expression.ofValue : Value → Expression
  | .bool b => .truth b
  | .str s => .operand (.text s)
  | v => .operand (.number v)

variable {v : Value}

@[simp] theorem Expression.eval_ofValue (vars : Valuation) (v : Value) :
    ((Expression.ofValue v).eval vars).value = v := by
  cases v <;> rfl

theorem toList_literal_str (s : String) :
    (Value.str s).literal.toList = '"' :: (s.toList ++ ['"']) := by
  simp [Value.literal, String.toList_append]

theorem Expression.written_literal (h : v.HasLiteral) :
    (Expression.ofValue v).Written v.literal.toList := by
  cases v with
  | bool b =>
    cases b with
    | true => exact .truth .true
    | false => exact .truth .false
  | int n => exact .number (Value.isNumber_text n)
  | str s => exact .text ⟨h.1, h.2, toList_literal_str s⟩
  | float => exact h.elim
  | absent => exact h.elim

/-! ## Bindings as lines -/

/-- What can be written out: an identifier bound to a value that has a literal. -/
def IsListable (b : String × Value) : Prop := isIdentifier b.1 = true ∧ b.2.HasLiteral

/-- A binding as a line. -/
def lineOf (b : String × Value) : String := b.1 ++ ": " ++ b.2.literal

/-- Bindings as lines. -/
def listing (list : List (String × Value)) : String := "\n".intercalate (list.map lineOf)

/-- The assignment that makes a binding. -/
def Assignment.ofBinding (b : String × Value) : Assignment := ⟨b.1, .ofValue b.2⟩

variable {b : String × Value} {list : List (String × Value)}

theorem toList_lineOf (b : String × Value) :
    (lineOf b).toList = b.1.toList ++ (':' :: ' ' :: b.2.literal.toList) := by
  simp [lineOf, String.toList_append]

theorem toList_listing (list : List (String × Value)) :
    (listing list).toList = ['\n'].intercalate (list.map fun b => (lineOf b).toList) := by
  rw [listing, String.toList_intercalate, List.map_map]
  rfl

theorem IsListable.written (h : IsListable b) :
    (Assignment.ofBinding b).Written (lineOf b).toList := by
  have hblank : Blanks [' '] := by decide
  have hline := Assignment.Written.mk ⟨h.1, rfl⟩ blanks_nil hblank
    (Expression.written_literal h.2) blanks_nil
  rw [toList_lineOf]
  simpa [Assignment.ofBinding] using hline

theorem IsListable.leads (h : IsListable b) : Leads (!Text.isMargin ·) (lineOf b).toList := by
  have hname : IsName b.1 b.1.toList := ⟨h.1, rfl⟩
  rw [toList_lineOf]
  exact hname.leadsInk.append _

theorem IsListable.endsInk (h : IsListable b) : EndsInk (lineOf b).toList := by
  rw [toList_lineOf]
  exact ((Expression.written_literal h.2).endsInk.append_left [':', ' ']).append_left _

/-- A listing is in normal form. -/
theorem normalize_listing (hne : list ≠ []) (h : ∀ b ∈ list, IsListable b) :
    Text.normalize (listing list) = listing list := by
  rw [Text.normalize_eq_self_iff, toList_listing]
  refine Text.isNormal_intercalate (by simpa using hne) ?_ ?_ ?_
  · exact List.forall_mem_map.mpr fun b hb => (h b hb).written.no_lineEnd
  · exact List.forall_mem_map.mpr fun b hb => (h b hb).leads
  · exact List.forall_mem_map.mpr fun b hb => (h b hb).endsInk

theorem lines_ofBinding (h : ∀ b ∈ list, IsListable b) :
    Assignment.Lines (list.map .ofBinding) ((list.map fun b => (lineOf b).toList).flatMap
      ('\n' :: ·)) := by
  induction list with
  | nil => exact .nil
  | cons b list ih =>
    obtain ⟨hb, hlist⟩ := List.forall_mem_cons.mp h
    exact .line hb.written (ih hlist)

/-- A listing writes the assignments that make its bindings. -/
theorem listWritten_listing (hne : list ≠ []) (h : ∀ b ∈ list, IsListable b) :
    Assignment.ListWritten (list.map .ofBinding) (listing list).toList := by
  obtain ⟨b, list, rfl⟩ := List.exists_cons_of_ne_nil hne
  obtain ⟨hb, hlist⟩ := List.forall_mem_cons.mp h
  rw [toList_listing, List.map_cons, List.map_cons, Text.intercalate_lines]
  exact .cons hb.written (lines_ofBinding hlist)

theorem applyAll_ofBinding (list : List (String × Value)) (t : Store) :
    (Assignment.applyAll (list.map .ofBinding) t).1 = t.extend list := by
  induction list generalizing t with
  | nil => rfl
  | cons b list ih =>
    show (Assignment.applyAll (list.map .ofBinding)
      (t.set b.1 ((Expression.ofValue b.2).eval t.lookup).value)).1 = (t.set b.1 b.2).extend list
    rw [Expression.eval_ofValue, ih]

/-! ## Loading a listing -/

theorem Engine.update_listing {e : Engine} {vars : Option Store} (hne : list ≠ [])
    (h : ∀ b ∈ list, IsListable b) (hbytes : (listing list).utf8ByteSize ≤ e.limits.maxBytes) :
    (e.update (listing list) vars).answer = .ok ((vars.getD e.vars).extend list) := by
  have hparse : Assignment.parseAll (listing list) e.limits = .ok (list.map .ofBinding) :=
    Assignment.parseAll_eq_ok_iff.mpr ⟨hbytes, listWritten_listing hne h⟩
  rw [Engine.update_answer, normalize_listing hne h, hparse, Except.map, applyAll_ofBinding]

/-- A store that is written out and loaded back. Its bindings may be written in any order, one to
a line, if each name is an identifier and each value a truth value, an integer or a text without
double quotes and line ends. An update with this text succeeds. Loaded into the empty store it
gives exactly the store that was written out; loaded into any other store, it gives that store
overridden by these bindings and otherwise unchanged. -/
theorem listing_loads_back (e : Engine) (vars : Option Store) (s : Store)
    (list : List (String × Value)) (hlist : list.Perm s.toList) (hne : s.isEmpty = false)
    (hs : ∀ name v, s.get? name = some v → isIdentifier name = true ∧ v.HasLiteral)
    (hbytes : (listing list).utf8ByteSize ≤ e.limits.maxBytes) :
    ((e.update (listing list) (some .empty)).answer = .ok s ∧
      (e.update (listing list) (some .empty)).engine.vars = s) ∧
    ∃ after, (e.update (listing list) vars).answer = .ok after ∧
      (e.update (listing list) vars).engine.vars = after ∧
      ∀ name, after.get? name = (s.get? name).or ((vars.getD e.vars).get? name) := by
  have hlistable : ∀ b ∈ list, IsListable b := fun b hb =>
    hs b.1 b.2 (Store.mem_toList_iff.mp (hlist.mem_iff.mp hb))
  have hne' : list ≠ [] := by
    rintro rfl
    have hempty : s.toList.isEmpty = s.isEmpty := Std.ExtTreeMap.isEmpty_toList
    rw [← hlist.nil_eq, hne] at hempty
    cases hempty
  have hanswer : ∀ vars, (e.update (listing list) vars).answer =
      .ok ((vars.getD e.vars).extend list) :=
    fun _ => Engine.update_listing hne' hlistable hbytes
  have hvars : ∀ vars, (e.update (listing list) vars).engine.vars =
      (vars.getD e.vars).extend list := by
    intro vars
    rw [Engine.update_vars, hanswer]
  refine ⟨?_, _, hanswer vars, hvars vars, Store.get?_extend_of_perm hlist⟩
  rw [hanswer, hvars, Option.getD_some, Store.extend_empty_of_perm hlist]
  exact ⟨rfl, rfl⟩

/-- The least integer, a text that looks like a directive, and names that are words for truth
values. -/
theorem listing_loads_back_any_order :
    let list := [("true", Value.int Int64.minValue), ("b", .str "\x7b=a\x7d: \r\x00 é "),
      ("no", .bool false)]
    let s := Store.ofList list
    let e : Engine := { vars := Store.empty.set "x" (.int 1) }
    listing list = "true: -9223372036854775808\nb: \"\x7b=a\x7d: \r\x00 é \"\nno: false" ∧
      list.Perm s.toList ∧ s.isEmpty = false ∧
      (∀ name v, s.get? name = some v → isIdentifier name = true ∧ v.HasLiteral) ∧
      (listing list).utf8ByteSize ≤ e.limits.maxBytes ∧
      (e.update (listing list) (some .empty)).answer = .ok s ∧
      ∃ after, (e.update (listing list) none).answer = .ok after ∧
        after.get? "x" = some (.int 1) ∧ after.get? "no" = some (.bool false) := by
  intro list s e
  have hperm : list.Perm s.toList := by decide +kernel
  have hempty : s.isEmpty = false := by decide +kernel
  have hs : ∀ name v, s.get? name = some v → isIdentifier name = true ∧ v.HasLiteral := by
    intro name v h
    have hmem := hperm.mem_iff.mpr (Store.mem_toList_iff.mpr h)
    simp only [list, List.mem_cons, List.not_mem_nil, or_false, Prod.mk.injEq] at hmem
    obtain ⟨rfl, rfl⟩ | ⟨rfl, rfl⟩ | ⟨rfl, rfl⟩ := hmem
    · exact ⟨by decide, trivial⟩
    · exact ⟨by decide, by decide, by decide⟩
    · exact ⟨by decide, trivial⟩
  have hbytes : (listing list).utf8ByteSize ≤ e.limits.maxBytes := by decide +kernel
  obtain ⟨⟨hempty', -⟩, after, hafter, -, hget⟩ :=
    listing_loads_back e none s list hperm hempty hs hbytes
  refine ⟨by decide +kernel, hperm, hempty, hs, hbytes, hempty', after, hafter, ?_, ?_⟩
  · rw [hget]
    decide +kernel
  · rw [hget]
    decide +kernel

end Stencil

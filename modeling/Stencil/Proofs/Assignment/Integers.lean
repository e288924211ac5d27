/-
# Stencil.Proofs.Assignment.Integers -- assignments over integers without bounds

A list whose expressions are made of integer literals and names can be carried out over the
integers, with no bound on their size and with nothing but their sum and difference. Here such a
run is compared with the one over values. As long as every integer that is computed has 64 bits
the two agree: what a name is bound to is the integer that it stands for, exactly.

The invariant is that the names which are yet to be read hold the integers of the unbounded run.
To begin with these are the names that the list reads before it binds them; each assignment adds
its own name to them. No step is rounded, since a sum of integers that fits is never computed
with binary64 numbers.
-/
import Stencil.Proofs.Assignment.Effect
import Stencil.Proofs.Engine.Operation
import Stencil.Proofs.Dependence
import Stencil.Proofs.Value.Arithmetic

namespace Stencil

/-! ## Integral expressions -/

/-- An integer literal or a name. -/
def Operand.IsIntegral : Operand → Prop
  | lookup _ => True
  | number (.int _) => True
  | _ => False

/-- An integer literal, a name, or a sum or difference of two of these. -/
def Expression.IsIntegral : Expression → Prop
  | truth _ => False
  | arithmetic a _ b => a.IsIntegral ∧ b.IsIntegral
  | operand a => a.IsIntegral

/-- The integer of an integral operand, where names stand for integers. -/
def Operand.exact (ints : String → Int) : Operand → Int
  | lookup name => ints name
  | number (.int k) => k.toInt
  | _ => 0

/-- The integer of an integral expression, where names stand for integers. -/
def Expression.exact (ints : String → Int) : Expression → Int
  | truth _ => 0
  | arithmetic a op b => op.onInt (a.exact ints) (b.exact ints)
  | operand a => a.exact ints

/-- Carry out integral assignments over the integers: what the names stand for afterwards, and
every integer that was computed on the way. -/
def Assignment.exactAll : List Assignment → (String → Int) → (String → Int) × List Int
  | [], ints => (ints, [])
  | a :: list, ints =>
    let n := a.value.exact ints
    let (final, computed) := exactAll list fun name => if a.name = name then n else ints name
    (final, n :: computed)

/-! ## Values that are integers -/

/-- The value is the integer `n`. -/
def Value.IsInteger (v : Value) (n : Int) : Prop := ∃ k : Int64, v = .int k ∧ k.toInt = n

/-- The integers that the names of a store are bound to; zero for all other names. -/
def Store.integers (s : Store) (name : String) : Int :=
  match s.lookup name with
  | .int k => k.toInt
  | _ => 0

theorem Store.isInteger_lookup {s : Store} {name : String} {k : Int64}
    (h : s.get? name = some (.int k)) : (s.lookup name).IsInteger (s.integers name) := by
  have hlookup : s.lookup name = .int k := by rw [lookup, h, Option.getD_some]
  exact ⟨k, hlookup, by rw [integers, hlookup]⟩

theorem Value.isInteger_combine {op : Additive} {v w : Value} {m n : Int} (hv : v.IsInteger m)
    (hw : w.IsInteger n) (hfits : FitsInt64 (op.onInt m n)) :
    (v.combine op w).IsInteger (op.onInt m n) := by
  obtain ⟨a, rfl, rfl⟩ := hv
  obtain ⟨b, rfl, rfl⟩ := hw
  have hk := Int64.toInt_ofInt_of_le hfits.1 hfits.2
  exact ⟨_, by rw [combine_int, int64?_eq_some_iff.mpr hk], hk⟩

/-! ## One expression -/

section Evaluation

variable {vars : Valuation} {ints : String → Int}

theorem Operand.isInteger_eval {a : Operand} (ha : a.IsIntegral)
    (h : ∀ name ∈ (a.eval vars).reads, (vars name).IsInteger (ints name)) :
    (a.eval vars).value.IsInteger (a.exact ints) := by
  cases a with
  | lookup name => exact h name (List.mem_singleton.mpr rfl)
  | number v =>
    cases v with
    | int k => exact ⟨k, rfl, rfl⟩
    | bool => exact ha.elim
    | float => exact ha.elim
    | str => exact ha.elim
    | absent => exact ha.elim
  | text => exact ha.elim

/-- An integral expression has the integer for its value that it has without bounds, if the names
that it reads stand for integers and the result fits. -/
theorem Expression.isInteger_eval {e : Expression} (he : e.IsIntegral)
    (h : ∀ name ∈ (e.eval vars).reads, (vars name).IsInteger (ints name))
    (hfits : Value.FitsInt64 (e.exact ints)) : (e.eval vars).value.IsInteger (e.exact ints) := by
  cases e with
  | truth => exact he.elim
  | operand a => exact Operand.isInteger_eval he h
  | arithmetic a op b =>
    simp only [eval, Traced.reads_bind, Traced.reads_pure, List.append_nil,
      List.forall_mem_append] at h
    exact Value.isInteger_combine (Operand.isInteger_eval he.1 h.1)
      (Operand.isInteger_eval he.2 h.2) hfits

end Evaluation

/-! ## Lists -/

namespace Assignment

variable {list : List Assignment} {s : Store} {ints : String → Int}

/-- A name that is not assigned stands for the same integer afterwards. -/
theorem exactAll_of_not_assigned {name : String} (h : ∀ a ∈ list, a.name ≠ name) :
    (exactAll list ints).1 name = ints name := by
  induction list generalizing ints with
  | nil => rfl
  | cons a list ih =>
    obtain ⟨hne, hlist⟩ := List.forall_mem_cons.mp h
    show (exactAll list _).1 name = _
    rw [ih hlist, if_neg hne]

theorem get?_applyAll_of_not_assigned {name : String} (h : ∀ a ∈ list, a.name ≠ name) :
    (applyAll list s).1.get? name = s.get? name :=
  (performed_applyAll list s).get?_eq h

/-- The two runs stay together: if the names that the list reads before it binds them hold their
integers, then the assigned names do so afterwards. -/
theorem isInteger_applyAll (hlist : ∀ a ∈ list, a.value.IsIntegral)
    (hreads : ∀ name ∈ Access.readFirst (applyAll list s).2, (s.lookup name).IsInteger (ints name))
    (hfits : ∀ n ∈ (exactAll list ints).2, Value.FitsInt64 n) :
    ∀ a ∈ list, ∃ v, (applyAll list s).1.get? a.name = some v ∧
      v.IsInteger ((exactAll list ints).1 a.name) := by
  induction list generalizing s ints with
  | nil => exact List.forall_mem_nil _
  | cons a list ih =>
    obtain ⟨ha, hlist⟩ := List.forall_mem_cons.mp hlist
    obtain ⟨hfit, hfits⟩ := List.forall_mem_cons.mp hfits
    rw [applyAll, Access.readFirst_append, List.forall_mem_append] at hreads
    obtain ⟨hnow, hlater⟩ := hreads
    have hvalue := Expression.isInteger_eval ha hnow hfit
    -- what is read later is the name that is bound here, or held its integer before
    have hrest : ∀ name ∈ Access.readFirst
        (applyAll list (s.set a.name (a.value.eval s.lookup).value)).2,
        ((s.set a.name (a.value.eval s.lookup).value).lookup name).IsInteger
          (if a.name = name then a.value.exact ints else ints name) := by
      intro name hname
      rw [Store.lookup_set]
      by_cases heq : a.name = name
      · rw [if_pos heq, if_pos heq]
        exact hvalue
      · rw [if_neg heq, if_neg heq]
        exact hlater name (List.mem_filter.mpr ⟨hname, decide_eq_true (Ne.symm heq)⟩)
    have hassigned := ih hlist hrest hfits
    refine List.forall_mem_cons.mpr ⟨?_, hassigned⟩
    by_cases hagain : ∃ b ∈ list, b.name = a.name
    · -- bound once more further on
      obtain ⟨b, hb, hname⟩ := hagain
      have hlast := hassigned b hb
      rwa [hname] at hlast
    · have hno : ∀ b ∈ list, b.name ≠ a.name := fun b hb hname => hagain ⟨b, hb, hname⟩
      refine ⟨(a.value.eval s.lookup).value, ?_, ?_⟩
      · show (applyAll list (s.set a.name (a.value.eval s.lookup).value)).1.get? a.name = _
        rw [get?_applyAll_of_not_assigned hno, Store.get?_set, if_pos rfl]
      · show Value.IsInteger _ ((exactAll list _).1 a.name)
        rw [exactAll_of_not_assigned hno, if_pos rfl]
        exact hvalue

/-- From a store whose integers are read, the run over values computes the integers of the run
without bounds. -/
theorem exact_applyAll (hlist : ∀ a ∈ list, a.value.IsIntegral)
    (hreads : ∀ name ∈ Access.readFirst (applyAll list s).2, ∃ k, s.get? name = some (.int k))
    (hfits : ∀ n ∈ (exactAll list s.integers).2, Value.FitsInt64 n) :
    ∀ a ∈ list, ∃ k : Int64, (applyAll list s).1.get? a.name = some (.int k) ∧
      k.toInt = (exactAll list s.integers).1 a.name := by
  intro a ha
  have hints : ∀ name ∈ Access.readFirst (applyAll list s).2,
      (s.lookup name).IsInteger (s.integers name) := by
    intro name hname
    obtain ⟨k, hk⟩ := hreads name hname
    exact Store.isInteger_lookup hk
  obtain ⟨v, hv, k, rfl, hk⟩ := isInteger_applyAll hlist hints hfits a ha
  exact ⟨k, hv, hk⟩

end Assignment

/-! ## Adding and taking away again -/

/-- The lines that add one name to another and take it away again. -/
def backAndForth : String := "s: a + b\nd: s - b"

/-- The assignments of these lines. -/
def backAndForthList : List Assignment :=
  [⟨"s", .arithmetic (.lookup "a") .plus (.lookup "b")⟩,
    ⟨"d", .arithmetic (.lookup "s") .minus (.lookup "b")⟩]

theorem parseAll_backAndForth {limits : Limits} (h : backAndForth.utf8ByteSize ≤ limits.maxBytes) :
    Assignment.parseAll (Text.normalize backAndForth) limits = .ok backAndForthList := by
  have hnormal : Text.normalize backAndForth = backAndForth := by decide +kernel
  have hparse : Assignment.parseAll backAndForth {} = .ok backAndForthList := by decide +kernel
  rw [hnormal]
  exact Assignment.parseAll_eq_ok_iff.mpr ⟨h, (Assignment.parseAll_eq_ok_iff.mp hparse).2⟩

theorem readFirst_backAndForth (s : Store) :
    Access.readFirst (Assignment.applyAll backAndForthList s).2 = ["a", "b", "b"] := rfl

theorem exactAll_backAndForth (ints : String → Int) :
    (Assignment.exactAll backAndForthList ints).1 "d" = ints "a" ∧
      (Assignment.exactAll backAndForthList ints).2 = [ints "a" + ints "b", ints "a"] := by
  simp [backAndForthList, Assignment.exactAll, Expression.exact, Operand.exact, Additive.onInt]

theorem applyAll_backAndForth {s : Store} {a b : Int64} (ha : s.get? "a" = some (.int a))
    (hb : s.get? "b" = some (.int b)) (hfits : Value.FitsInt64 (a.toInt + b.toInt)) :
    (Assignment.applyAll backAndForthList s).1.get? "d" = some (.int a) := by
  obtain ⟨hd, hcomputed⟩ := exactAll_backAndForth s.integers
  have hinta : s.integers "a" = a.toInt := by rw [Store.integers, Store.lookup, ha, Option.getD_some]
  have hintb : s.integers "b" = b.toInt := by rw [Store.integers, Store.lookup, hb, Option.getD_some]
  have hintegral : ∀ x ∈ backAndForthList, x.value.IsIntegral := by
    simp [backAndForthList, Expression.IsIntegral, Operand.IsIntegral]
  have hreads : ∀ name ∈ Access.readFirst (Assignment.applyAll backAndForthList s).2,
      ∃ k, s.get? name = some (.int k) := by
    rw [readFirst_backAndForth]
    simp [ha, hb]
  have hall : ∀ n ∈ (Assignment.exactAll backAndForthList s.integers).2, Value.FitsInt64 n := by
    rw [hcomputed, hinta, hintb]
    simp [hfits, Value.fitsInt64_toInt]
  obtain ⟨k, hk, heq⟩ := Assignment.exact_applyAll hintegral hreads hall
    ⟨"d", .arithmetic (.lookup "s") .minus (.lookup "b")⟩ (by simp [backAndForthList])
  rw [hd, hinta] at heq
  rw [hk, Int64.toInt_inj.mp heq]

/-- Assignment lists over integers. Let every expression of a list be an integer literal, a name,
or a sum or difference of two of these, and let the names that are read before they are assigned
be bound to integers. If every integer that is computed without bounds fits 64 bits, then each
assigned name is bound to the integer that it stands for in the end, and every other name is
bound as before. In particular, what is added to an integer, with a sum that fits, and then taken
away gives back this integer. -/
theorem integer_lists_exact :
    (∀ (list : List Assignment) (s : Store), (∀ a ∈ list, a.value.IsIntegral) →
      (∀ name ∈ Access.readFirst (Assignment.applyAll list s).2,
        ∃ k, s.get? name = some (.int k)) →
      (∀ n ∈ (Assignment.exactAll list s.integers).2, Value.FitsInt64 n) →
      (∀ a ∈ list, ∃ k : Int64, (Assignment.applyAll list s).1.get? a.name = some (.int k) ∧
        k.toInt = (Assignment.exactAll list s.integers).1 a.name) ∧
      ∀ name, (∀ a ∈ list, a.name ≠ name) →
        (Assignment.applyAll list s).1.get? name = s.get? name) ∧
    ∀ (e : Engine) (vars : Option Store) (a b : Int64),
      backAndForth.utf8ByteSize ≤ e.limits.maxBytes →
      (vars.getD e.vars).get? "a" = some (.int a) →
      (vars.getD e.vars).get? "b" = some (.int b) → Value.FitsInt64 (a.toInt + b.toInt) →
      ∃ after, (e.update backAndForth vars).answer = .ok after ∧
        (e.update backAndForth vars).engine.vars = after ∧ after.get? "d" = some (.int a) := by
  refine ⟨fun list s hlist hreads hfits => ⟨Assignment.exact_applyAll hlist hreads hfits, ?_⟩, ?_⟩
  · intro name hname
    exact Assignment.get?_applyAll_of_not_assigned hname
  · intro e vars a b hbytes ha hb hfits
    obtain ⟨hanswer, hengine⟩ := Engine.update_of_parse vars (parseAll_backAndForth hbytes)
    exact ⟨_, hanswer, by rw [hengine], applyAll_backAndForth ha hb hfits⟩

/-- Sums through both ends of the range, with integers that a binary64 number does not hold, and a
name that is assigned twice and read in between. -/
theorem integer_lists_exact_ends :
    let list : List Assignment := [⟨"x", .arithmetic (.lookup "a") .plus (.lookup "b")⟩,
      ⟨"a", .arithmetic (.lookup "x") .minus (.number (.int 9007199254740993))⟩,
      ⟨"x", .arithmetic (.lookup "a") .plus (.lookup "x")⟩]
    let s := (Store.empty.set "a" (.int Int64.maxValue)).set "b" (.int Int64.minValue)
    let s' := (Store.empty.set "a" (.int Int64.maxValue)).set "b" (.int (-1))
    let e : Engine := {}
    ((∀ a ∈ list, a.value.IsIntegral) ∧
      (∀ name ∈ Access.readFirst (Assignment.applyAll list s).2, ∃ k, s.get? name = some (.int k)) ∧
      (∀ n ∈ (Assignment.exactAll list s.integers).2, Value.FitsInt64 n) ∧
      ∃ k : Int64, (Assignment.applyAll list s).1.get? "x" = some (.int k) ∧
        k.toInt = -9007199254740995) ∧
    (backAndForth.utf8ByteSize ≤ e.limits.maxBytes ∧ s'.get? "a" = some (.int Int64.maxValue) ∧
      s'.get? "b" = some (.int (-1)) ∧
      Value.FitsInt64 (Int64.maxValue.toInt + (-1 : Int64).toInt) ∧
      ∃ after, (e.update backAndForth (some s')).answer = .ok after ∧
        after.get? "d" = some (.int Int64.maxValue)) := by
  intro list s s' e
  obtain ⟨hlists, hback⟩ := integer_lists_exact
  have hintegral : ∀ a ∈ list, a.value.IsIntegral := by
    simp [list, Expression.IsIntegral, Operand.IsIntegral]
  have hreads : ∀ name ∈ Access.readFirst (Assignment.applyAll list s).2,
      ∃ k, s.get? name = some (.int k) := by
    have hfirst : Access.readFirst (Assignment.applyAll list s).2 = ["a", "b"] := by decide +kernel
    rw [hfirst]
    simp [s]
  have hfits : ∀ n ∈ (Assignment.exactAll list s.integers).2, Value.FitsInt64 n := by
    decide +kernel
  have hbytes : backAndForth.utf8ByteSize ≤ e.limits.maxBytes := by decide +kernel
  have ha : s'.get? "a" = some (.int Int64.maxValue) := by decide +kernel
  have hb : s'.get? "b" = some (.int (-1)) := by decide +kernel
  have hsum : Value.FitsInt64 (Int64.maxValue.toInt + (-1 : Int64).toInt) := by decide
  obtain ⟨k, hk, heq⟩ := (hlists list s hintegral hreads hfits).1
    ⟨"x", .arithmetic (.lookup "a") .plus (.lookup "x")⟩ (by simp [list])
  have hfinal : (Assignment.exactAll list s.integers).1 "x" = -9007199254740995 := by decide +kernel
  obtain ⟨after, hanswer, -, hd⟩ := hback e (some s') _ _ hbytes ha hb hsum
  exact ⟨⟨hintegral, hreads, hfits, k, hk, heq.trans hfinal⟩,
    hbytes, ha, hb, hsum, after, hanswer, hd⟩

end Stencil

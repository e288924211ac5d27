/-
# Stencil.Proofs.Store -- stores put together from bindings

The bindings of a store can be listed, no name twice, and a store is known from any such list,
in whatever order it stands: extending another store by it overrides that store, and extending
the empty one gives the listed store back.
-/
import Mathlib.Data.List.Nodup
import Stencil.Store

namespace Stencil.Store

variable {s t : Store} {list : List (String × Value)} {name : String} {v : Value}

/-- The bindings that are listed are those that are found. -/
theorem mem_toList_iff : (name, v) ∈ s.toList ↔ s.get? name = some v :=
  Std.ExtTreeMap.mem_toList_iff_getElem?_eq_some

/-- No name is listed twice. -/
theorem nodup_toList (s : Store) : (s.toList.map Prod.fst).Nodup := by
  have h : s.toList.Pairwise fun a b => ¬ compare a.1 b.1 = .eq :=
    Std.ExtTreeMap.distinct_keys_toList
  rw [List.nodup_iff_pairwise_ne, List.pairwise_map]
  exact h.imp fun hab heq => hab (by rw [heq]; exact Std.ReflCmp.compare_self)

/-! ## Extending a store -/

theorem get?_extend_of_ne (h : ∀ b ∈ list, b.1 ≠ name) :
    (t.extend list).get? name = t.get? name := by
  induction list generalizing t with
  | nil => rfl
  | cons b list ih =>
    obtain ⟨hb, hlist⟩ := List.forall_mem_cons.mp h
    show ((t.set b.1 b.2).extend list).get? name = _
    rw [ih hlist, get?_set, if_neg hb]

/-- In a list that binds no name twice, nothing behind a binding overrides it. -/
theorem get?_extend_of_mem (hnodup : (list.map Prod.fst).Nodup) (h : (name, v) ∈ list) :
    (t.extend list).get? name = some v := by
  induction list generalizing t with
  | nil => cases h
  | cons b list ih =>
    rw [List.map_cons, List.nodup_cons] at hnodup
    show ((t.set b.1 b.2).extend list).get? name = _
    obtain rfl | h := List.mem_cons.mp h
    · -- nothing behind it binds the name again
      have hne : ∀ b ∈ list, b.1 ≠ name := by
        intro b hb heq
        exact hnodup.1 (List.mem_map.mpr ⟨b, hb, heq⟩)
      rw [get?_extend_of_ne hne, get?_set, if_pos rfl]
    · exact ih hnodup.2 h

/-- Extending a store by the bindings of another overrides it. -/
theorem get?_extend_of_perm (h : list.Perm s.toList) (name : String) :
    (t.extend list).get? name = (s.get? name).or (t.get? name) := by
  cases hs : s.get? name with
  | some v =>
    have hnodup := (h.map Prod.fst).nodup_iff.mpr s.nodup_toList
    exact get?_extend_of_mem hnodup (h.mem_iff.mpr (mem_toList_iff.mpr hs))
  | none =>
    refine get?_extend_of_ne ?_
    rintro ⟨_, v⟩ hb rfl
    rw [mem_toList_iff.mp (h.mem_iff.mp hb)] at hs
    cases hs

/-- A store is put together again from its bindings, in any order. -/
theorem extend_empty_of_perm (h : list.Perm s.toList) : empty.extend list = s := by
  ext1 name
  rw [get?_extend_of_perm h, get?_empty, Option.or_none]

end Stencil.Store

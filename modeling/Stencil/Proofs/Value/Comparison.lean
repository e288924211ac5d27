/-
# Stencil.Proofs.Value.Comparison -- the six operators agree with each other

Whether two values satisfy an operator is decided by how they stand to each other, and they do
stand to each other exactly if both are numbers but `nan` or both are texts (`Comparable`). So
such values satisfy exactly one of `<`, `=` and `>`, and the other operators are made of these
three; of all other values only two truth values satisfy any operator at all.

Integers are in the order of the integers, not in that of the numbers they would be rounded to.
Texts are in the order of their characters, which are ordered by code point, and in the order of
their encodings. These two orders are transitive; that of numbers in general is not, since an
integer is rounded only when it stands beside a binary64 number.
-/
import Mathlib.Logic.ExistsUnique
import Stencil.Proofs.Text.Utf8Order
import Stencil.Value.Comparison

namespace Stencil

/-! ## Operators and orders -/

namespace Comparison

/-- The operator that says the same with the sides exchanged. -/
def mirror : Comparison → Comparison
  | lt => gt
  | gt => lt
  | eq => eq
  | le => ge
  | ge => le
  | ne => ne

/-- What an operator says of two members of an order. -/
def Holds {α : Type} [LT α] (op : Comparison) (a b : α) : Prop :=
  match op with
  | lt => a < b
  | gt => b < a
  | eq => a = b
  | le => a < b ∨ a = b
  | ge => b < a ∨ a = b
  | ne => a ≠ b

variable {op : Comparison}

/-- Exchanging the sides turns an outcome round, and an operator with it. -/
theorem takes_mirror_swap (op : Comparison) (o : Ordering) :
    op.mirror.takes o.swap = op.takes o := by
  cases op <;> cases o <;> rfl

/-- Of the three outcomes each has its own operator. -/
theorem existsUnique_takes (o : Ordering) :
    ∃! op : Comparison, (op = lt ∨ op = eq ∨ op = gt) ∧ op.takes o = true := by
  cases o with
  | lt =>
    refine ⟨lt, ⟨.inl rfl, rfl⟩, ?_⟩
    rintro op ⟨rfl | rfl | rfl, h⟩
    · rfl
    · cases h
    · cases h
  | eq =>
    refine ⟨eq, ⟨.inr (.inl rfl), rfl⟩, ?_⟩
    rintro op ⟨rfl | rfl | rfl, h⟩
    · cases h
    · rfl
    · cases h
  | gt =>
    refine ⟨gt, ⟨.inr (.inr rfl), rfl⟩, ?_⟩
    rintro op ⟨rfl | rfl | rfl, h⟩
    · cases h
    · cases h
    · rfl

section Order

variable {α β : Type} [LT α] [LT β] {a b c : α}

/-- Outcomes of comparing in an order are taken by the operators that hold in it. -/
theorem takes_compareOfLessAndEq [DecidableLT α] [DecidableEq α]
    (h : ∀ a b : α, a < b ↔ ¬ b < a ∧ a ≠ b) :
    op.takes (compareOfLessAndEq a b) = true ↔ op.Holds a b := by
  by_cases hlt : a < b
  · obtain ⟨hgt, hne⟩ := (h a b).mp hlt
    rw [compareOfLessAndEq, if_pos hlt]
    cases op <;> simp [takes, Holds, hlt, hgt, hne]
  · by_cases heq : a = b
    · subst heq
      rw [compareOfLessAndEq, if_neg hlt, if_pos rfl]
      cases op <;> simp [takes, Holds, hlt]
    · have hgt : b < a := (h b a).mpr ⟨hlt, Ne.symm heq⟩
      rw [compareOfLessAndEq, if_neg hlt, if_neg heq]
      cases op <;> simp [takes, Holds, hlt, heq, hgt]

/-- An operator says the same of the images under a map that keeps the order. -/
theorem holds_map_iff {f : α → β} (hlt : ∀ {a b}, f a < f b ↔ a < b)
    (heq : ∀ {a b}, f a = f b ↔ a = b) : op.Holds (f a) (f b) ↔ op.Holds a b := by
  cases op <;> simp [Holds, hlt, heq]

/-- In an order, every operator but `≠` is transitive. -/
theorem Holds.trans (htrans : ∀ {a b c : α}, a < b → b < c → a < c) (hop : op ≠ .ne)
    (hab : op.Holds a b) (hbc : op.Holds b c) : op.Holds a c := by
  cases op with
  | lt => exact htrans hab hbc
  | gt => exact htrans hbc hab
  | eq => exact Eq.trans hab hbc
  | le =>
    obtain hab | rfl := hab
    · obtain hbc | rfl := hbc
      · exact .inl (htrans hab hbc)
      · exact .inl hab
    · exact hbc
  | ge =>
    obtain hab | rfl := hab
    · obtain hbc | rfl := hbc
      · exact .inl (htrans hbc hab)
      · exact .inl hab
    · exact hbc
  | ne => exact absurd rfl hop

end Order

end Comparison

/-! ## Numbers but `nan` are in an order -/

namespace Double

variable {x y : Double}

theorem exists_rank? (h : x ≠ nan) : ∃ r, x.rank? = some r := by
  cases x with
  | nan => exact absurd rfl h
  | infinite s => exact ⟨_, rfl⟩
  | finite s m => exact ⟨_, rfl⟩

/-- Two numbers but `nan` have an outcome, and the opposite one the other way round. -/
theorem exists_compare? (hx : x ≠ nan) (hy : y ≠ nan) :
    ∃ o, x.compare? y = some o ∧ y.compare? x = some o.swap := by
  obtain ⟨r, hr⟩ := exists_rank? hx
  obtain ⟨s, hs⟩ := exists_rank? hy
  refine ⟨compare r s, ?_, ?_⟩
  · rw [compare?, hr, hs]
    rfl
  · rw [compare?, hr, hs, ← Std.OrientedOrd.eq_swap]
    rfl

theorem compare?_nan_left (y : Double) : nan.compare? y = none := rfl

theorem compare?_nan_right (x : Double) : x.compare? nan = none := by
  cases x <;> rfl

theorem ofInt_ne_nan (n : Int) : ofInt n ≠ nan := by
  simp only [ofInt, round]
  split <;> exact nofun

end Double

/-! ## How two values stand to each other -/

namespace Value

/-- A number that has a place in the order of numbers. -/
def IsNumeric : Value → Prop
  | int _ => True
  | float x => x ≠ .nan
  | _ => False

/-- Two numbers that have a place in the order of numbers, or two texts. -/
def Comparable (v w : Value) : Prop :=
  v.IsNumeric ∧ w.IsNumeric ∨ ∃ s t, v = str s ∧ w = str t

variable {v w : Value} {op : Comparison} {o : Ordering}

/-- Numbers with a place in the order are those that are a binary64 number but `nan` when
compared. -/
theorem isNumeric_iff : v.IsNumeric ↔ ∃ x, v.toDouble? = some x ∧ x ≠ .nan := by
  cases v with
  | int n => exact ⟨fun _ => ⟨_, rfl, Double.ofInt_ne_nan _⟩, fun _ => trivial⟩
  | float x => exact ⟨fun h => ⟨x, rfl, h⟩, fun ⟨_, hx, h⟩ => Option.some.inj hx ▸ h⟩
  | bool | str | absent => exact ⟨False.elim, fun ⟨_, hx, _⟩ => nomatch hx⟩

/-- Two values are compared as binary64 numbers unless both are integers or both texts. -/
theorem order?_eq_compare? (hint : ¬ ∃ a b, v = int a ∧ w = int b)
    (hstr : ¬ ∃ s t, v = str s ∧ w = str t) :
    v.order? w = (do Double.compare? (← v.toDouble?) (← w.toDouble?)) := by
  unfold order?
  split
  · exact absurd ⟨_, _, rfl, rfl⟩ hint
  · exact absurd ⟨_, _, rfl, rfl⟩ hstr
  · rfl

theorem order?_of_toDouble? {x y : Double} (hx : v.toDouble? = some x)
    (hy : w.toDouble? = some y) (hint : ¬ ∃ a b, v = int a ∧ w = int b) :
    v.order? w = x.compare? y := by
  rw [order?_eq_compare? hint, hx, hy]
  · rfl
  · rintro ⟨s, t, rfl, rfl⟩
    cases hx

/-- Comparable values have an outcome, and the opposite one the other way round. -/
theorem exists_order? (h : v.Comparable w) :
    ∃ o, v.order? w = some o ∧ w.order? v = some o.swap := by
  obtain ⟨hv, hw⟩ | ⟨s, t, rfl, rfl⟩ := h
  · by_cases hint : ∃ a b, v = int a ∧ w = int b
    · obtain ⟨a, b, rfl, rfl⟩ := hint
      exact ⟨compare a b, rfl, congrArg some Std.OrientedOrd.eq_swap⟩
    · have hint' : ¬ ∃ b a, w = int b ∧ v = int a := fun ⟨b, a, h⟩ => hint ⟨a, b, h.symm⟩
      obtain ⟨x, hx, hxn⟩ := isNumeric_iff.mp hv
      obtain ⟨y, hy, hyn⟩ := isNumeric_iff.mp hw
      rw [order?_of_toDouble? hx hy hint, order?_of_toDouble? hy hx hint']
      exact Double.exists_compare? hxn hyn
  · exact ⟨compare s t, rfl, congrArg some Std.OrientedOrd.eq_swap⟩

/-- All other values have none. -/
theorem order?_eq_none (h : ¬ v.Comparable w) : v.order? w = none := by
  obtain ⟨hnum, htext⟩ := not_or.mp h
  have hint : ¬ ∃ a b, v = int a ∧ w = int b := by
    rintro ⟨a, b, rfl, rfl⟩
    exact hnum ⟨trivial, trivial⟩
  rw [order?_eq_compare? hint htext]
  cases hx : v.toDouble? with
  | none => rfl
  | some x =>
    cases hy : w.toDouble? with
    | none => rfl
    | some y =>
      -- one of the two is not a number then
      by_cases hxn : x = .nan
      · rw [hxn]
        exact Double.compare?_nan_left y
      · by_cases hyn : y = .nan
        · rw [hyn]
          exact Double.compare?_nan_right x
        · exact absurd ⟨isNumeric_iff.mpr ⟨x, hx, hxn⟩, isNumeric_iff.mpr ⟨y, hy, hyn⟩⟩ hnum

/-- Truth values apart, an operator is satisfied if it takes the outcome; without one none is. -/
theorem satisfies_eq (hb : ¬ ∃ a b, v = bool a ∧ w = bool b) :
    v.satisfies op w = ((v.order? w).map op.takes).getD false := by
  unfold satisfies
  split
  · exact absurd ⟨_, _, rfl, rfl⟩ hb
  · cases v.order? w <;> rfl

theorem satisfies_of_order? (h : v.order? w = some o) : v.satisfies op w = op.takes o := by
  rw [satisfies_eq, h]
  · rfl
  · rintro ⟨a, b, rfl, rfl⟩
    cases h

/-! ## What the operators have to do with each other -/

/-- Exactly one of three operators is satisfied, the others are made of these, and the sides can
be exchanged together with the direction of the operator. -/
structure Coherent (v w : Value) : Prop where
  one : ∃! op : Comparison, (op = .lt ∨ op = .eq ∨ op = .gt) ∧ v.satisfies op w = true
  ne : v.satisfies .ne w = !v.satisfies .eq w
  le : v.satisfies .le w = (v.satisfies .lt w || v.satisfies .eq w)
  ge : v.satisfies .ge w = (v.satisfies .gt w || v.satisfies .eq w)
  mirror : ∀ op, w.satisfies (Comparison.mirror op) v = v.satisfies op w

/-- On comparable values the operators agree with each other, for all are answered from one
outcome. -/
theorem Comparable.coherent (h : v.Comparable w) : v.Coherent w := by
  obtain ⟨o, ho, hswap⟩ := exists_order? h
  have hop : ∀ op, v.satisfies op w = op.takes o := fun op => satisfies_of_order? ho
  constructor
  · simp only [hop]
    exact Comparison.existsUnique_takes o
  · rw [hop, hop]
    cases o <;> rfl
  · rw [hop, hop, hop]
    cases o <;> rfl
  · rw [hop, hop, hop]
    cases o <;> rfl
  · intro op
    rw [hop, satisfies_of_order? hswap, Comparison.takes_mirror_swap]

/-- Truth values are the same or not, and have no order. -/
theorem satisfies_bool (a b : Bool) : ((bool a).satisfies .eq (bool b) = true ↔ a = b) ∧
    ((bool a).satisfies .ne (bool b) = true ↔ a ≠ b) ∧
    ∀ op, op ≠ .eq → op ≠ .ne → (bool a).satisfies op (bool b) = false := by
  refine ⟨decide_eq_true_iff, decide_eq_true_iff, fun op heq hne => ?_⟩
  cases op with
  | eq => exact absurd rfl heq
  | ne => exact absurd rfl hne
  | lt | gt | le | ge => rfl

/-- Values that are neither comparable nor both truth values satisfy nothing, not even
difference. -/
theorem satisfies_eq_false (h : ¬ v.Comparable w) (hb : ¬ ∃ a b, v = bool a ∧ w = bool b) :
    v.satisfies op w = false := by
  rw [satisfies_eq hb, order?_eq_none h]
  rfl

/-! ## The order of integers and of texts -/

/-- Integers are compared as integers, not as the numbers they are rounded to. -/
theorem satisfies_int_iff {a b : Int64} :
    (int a).satisfies op (int b) = true ↔ op.Holds a.toInt b.toInt := by
  have horder : ∀ a b : Int64, a < b ↔ ¬ b < a ∧ a ≠ b := fun a b => by
    rw [Int64.lt_iff_toInt_lt, Int64.lt_iff_toInt_lt, Ne, ← Int64.toInt_inj]
    omega
  exact (Comparison.takes_compareOfLessAndEq horder).trans
    (Comparison.holds_map_iff Int64.lt_iff_toInt_lt.symm Int64.toInt_inj).symm

theorem satisfies_str_iff {s t : String} :
    (str s).satisfies op (str t) = true ↔ op.Holds s t := by
  refine Comparison.takes_compareOfLessAndEq fun s t => ⟨fun h => ?_, fun ⟨h, hne⟩ => ?_⟩
  · exact ⟨String.lt_asymm h, String.ne_of_lt h⟩
  · exact (Text.lt_or_gt_of_ne hne).resolve_right h

theorem satisfies_str_iff_toList {s t : String} :
    (str s).satisfies op (str t) = true ↔ op.Holds s.toList t.toList :=
  satisfies_str_iff.trans
    (Comparison.holds_map_iff (f := String.toList) String.lt_iff.symm String.toList_inj).symm

/-- Texts are compared as their encodings are. -/
theorem satisfies_str_iff_utf8 {s t : String} :
    (str s).satisfies op (str t) = true ↔ op.Holds (Text.utf8 s) (Text.utf8 t) :=
  satisfies_str_iff.trans (Comparison.holds_map_iff Text.utf8_lt_iff Text.utf8_inj).symm

theorem satisfies_int_trans {a b c : Int64} (hop : op ≠ .ne)
    (hab : (int a).satisfies op (int b) = true) (hbc : (int b).satisfies op (int c) = true) :
    (int a).satisfies op (int c) = true :=
  satisfies_int_iff.mpr
    ((satisfies_int_iff.mp hab).trans Int.lt_trans hop (satisfies_int_iff.mp hbc))

theorem satisfies_str_trans {s t u : String} (hop : op ≠ .ne)
    (hst : (str s).satisfies op (str t) = true) (htu : (str t).satisfies op (str u) = true) :
    (str s).satisfies op (str u) = true :=
  satisfies_str_iff.mpr
    ((satisfies_str_iff.mp hst).trans String.lt_trans hop (satisfies_str_iff.mp htu))

/-- The operators agree with each other on any two values. Values that can be ordered satisfy
exactly one of `<`, `=` and `>`, and the others accordingly; truth values are equal or not; other
values satisfy nothing. Integers are ordered as they are, and texts by code points, which is the
order of their encodings; every operator but `≠` is transitive on either. -/
theorem comparisons_cohere :
    (∀ v w : Value, v.Comparable w → v.Coherent w) ∧
    (∀ a b : Bool, ((bool a).satisfies .eq (bool b) = true ↔ a = b) ∧
      ((bool a).satisfies .ne (bool b) = true ↔ a ≠ b) ∧
      ∀ op, op ≠ .eq → op ≠ .ne → (bool a).satisfies op (bool b) = false) ∧
    (∀ v w : Value, ¬ v.Comparable w → (¬ ∃ a b, v = bool a ∧ w = bool b) →
      ∀ op, v.satisfies op w = false) ∧
    (∀ (op : Comparison) (a b : Int64),
      (int a).satisfies op (int b) = true ↔ op.Holds a.toInt b.toInt) ∧
    (∀ (op : Comparison) (s t : String),
      ((str s).satisfies op (str t) = true ↔ op.Holds s.toList t.toList) ∧
      ((str s).satisfies op (str t) = true ↔ op.Holds (Text.utf8 s) (Text.utf8 t))) ∧
    ∀ op : Comparison, op ≠ .ne →
      (∀ a b c : Int64, (int a).satisfies op (int b) = true →
        (int b).satisfies op (int c) = true → (int a).satisfies op (int c) = true) ∧
      ∀ s t u : String, (str s).satisfies op (str t) = true →
        (str t).satisfies op (str u) = true → (str s).satisfies op (str u) = true := by
  refine ⟨fun _ _ => Comparable.coherent, satisfies_bool, fun _ _ h hb _ => satisfies_eq_false h hb,
    fun _ _ _ => satisfies_int_iff,
    fun _ _ _ => ⟨satisfies_str_iff_toList, satisfies_str_iff_utf8⟩, fun _ hop => ⟨?_, ?_⟩⟩
  · exact fun _ _ _ => satisfies_int_trans hop
  · exact fun _ _ _ => satisfies_str_trans hop

/-- An integer beside the number that it is rounded to, `nan` beside itself, a text beside a
number, integers that one number is nearest to, and texts whose order depends on the encoding. -/
theorem comparisons_cohere_rounded :
    let n : Value := int 9007199254740993
    let x : Value := float (.ofInt 9007199254740992)
    (n.Comparable x ∧ n.Coherent x) ∧
      (¬ (float .nan).Comparable (float .nan) ∧ (float .nan).satisfies .ne (float .nan) = false) ∧
      (¬ (str "1").Comparable (int 1) ∧ (str "1").satisfies .eq (int 1) = false) ∧
      ((int 9007199254740992).satisfies .lt n = true ∧
        n.satisfies .lt (int 9007199254740994) = true ∧
        (int 9007199254740992).satisfies .lt (int 9007199254740994) = true) ∧
      (str "ﬀ").satisfies .lt (str "😀") = true ∧ (str "😀").satisfies .lt (str "😀a") = true ∧
        (str "ﬀ").satisfies .lt (str "😀a") = true := by
  intro n x
  obtain ⟨hcoherent, -, hnone, -, -, htrans⟩ := comparisons_cohere
  have hx : n.Comparable x := .inl ⟨trivial, Double.ofInt_ne_nan _⟩
  have hnan : ¬ (float .nan).Comparable (float .nan) := by
    rintro (⟨h, -⟩ | ⟨s, t, h, -⟩)
    · exact h rfl
    · cases h
  have hmixed : ¬ (str "1").Comparable (int 1) := by
    rintro (⟨h, -⟩ | ⟨s, t, -, h⟩)
    · exact h
    · cases h
  obtain ⟨hints, htexts⟩ := htrans .lt (by decide)
  refine ⟨⟨hx, hcoherent n x hx⟩, ⟨hnan, hnone _ _ hnan ?_ .ne⟩, ⟨hmixed, hnone _ _ hmixed ?_ .eq⟩,
    ⟨?_, ?_, hints _ 9007199254740993 _ ?_ ?_⟩, ?_, ?_, htexts _ "😀" _ ?_ ?_⟩
  · exact fun ⟨_, _, h, _⟩ => nomatch h
  · exact fun ⟨_, _, h, _⟩ => nomatch h
  all_goals decide +kernel

/-- Two integers are equal to the number beside them, and not to each other. -/
example :
    let x : Value := float (.ofInt 9007199254740992)
    (int 9007199254740993).satisfies .eq x = true ∧ x.satisfies .eq (int 9007199254740992) = true ∧
      (int 9007199254740993).satisfies .eq (int 9007199254740992) = false := by
  decide +kernel

end Value

end Stencil

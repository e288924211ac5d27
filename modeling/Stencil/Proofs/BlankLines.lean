/-
# Stencil.Proofs.BlankLines -- at most one blank line in a row, exactly

What is said of the text that is rendered: every run of line ends keeps its length up to two and
is cut to two beyond that, and nothing else changes. To say this without an algorithm, a text is
taken as its other characters, each with the number of line ends right in front of it, and the
number of those at its end (`Spacing`). Every text is so in exactly one way, so the numbers are
the lengths of its maximal runs, and `collapse` limits them.

`Replaced` is the same from the other side: a scan from the left which, wherever three line ends
begin, takes the whole run of them and writes two, and keeps every other character.

A run may be put together from literal text, inserted values and chosen branches. Since
`collapse` acts on the whole of the rendered text, this makes no difference.
-/
import Mathlib.Data.List.TakeWhile
import Stencil.Proofs.Engine.Operation
import Stencil.Proofs.Lexeme

namespace Stencil.Text

/-! ## Texts by their runs of line ends -/

/-- The characters of a text other than line ends, each with the number of line ends right in
front of it, and the number of line ends at the end of the text. -/
@[ext] structure Spacing where
  inner : List (Nat × Char)
  last : Nat
  not_lineEnd : ∀ m ∈ inner, m.2 ≠ '\n'

/-- The text of some characters with line ends in front of them, and of line ends at its end. -/
def spaced : List (Nat × Char) → Nat → List Char
  | [], last => List.replicate last '\n'
  | (n, x) :: inner, last => List.replicate n '\n' ++ x :: spaced inner last

namespace Spacing

/-- The text. -/
def chars (r : Spacing) : List Char := spaced r.inner r.last

/-- The same characters, with at most two line ends in a row. -/
def limit (r : Spacing) : Spacing where
  inner := r.inner.map fun m => (min m.1 2, m.2)
  last := min r.last 2
  not_lineEnd m hm := by
    obtain ⟨m', hm', rfl⟩ := List.mem_map.mp hm
    exact r.not_lineEnd m' hm'

end Spacing

/-- The text does not begin with a line end. -/
abbrev LineEndFree (cs : List Char) : Prop := Clear (· == '\n') cs

/-- Three line ends in a row. -/
def tripleEnd : List Char := ['\n', '\n', '\n']

variable {cs out : List Char}

/-! ### The one spacing of a text -/

theorem lineEndFree_cons {x : Char} : LineEndFree (x :: cs) ↔ x ≠ '\n' :=
  clear_cons.trans beq_eq_false_iff_ne

/-- A text begins with a run of line ends, which may be empty. -/
theorem exists_lineEnds_append (cs : List Char) :
    ∃ n rest, cs = List.replicate n '\n' ++ rest ∧ LineEndFree rest := by
  refine ⟨(cs.takeWhile (· == '\n')).length, cs.dropWhile (· == '\n'), ?_, clear_dropWhile _ _⟩
  have hall : cs.takeWhile (· == '\n') =
      List.replicate (cs.takeWhile (· == '\n')).length '\n' := by
    rw [List.eq_replicate_iff]
    exact ⟨rfl, fun x hx => beq_iff_eq.mp (all_takeWhile (· == '\n') cs x hx)⟩
  rw [← hall, List.takeWhile_append_dropWhile]

/-- The run at the beginning of a text is determined by the text. -/
theorem lineEnds_append_inj {n m : Nat} {a b : List Char}
    (h : List.replicate n '\n' ++ a = List.replicate m '\n' ++ b) (ha : LineEndFree a)
    (hb : LineEndFree b) : n = m ∧ a = b := by
  have hends : ∀ k, ∀ x ∈ List.replicate k '\n', (x == '\n') = true := fun k x hx =>
    beq_iff_eq.mpr (List.eq_of_mem_replicate hx)
  -- the same run and the same rest are taken from both sides
  have htake := congrArg (List.takeWhile (· == '\n')) h
  have hdrop := congrArg (List.dropWhile (· == '\n')) h
  rw [takeWhile_append_clear (hends n) ha, takeWhile_append_clear (hends m) hb] at htake
  rw [dropWhile_append_clear (hends n) ha, dropWhile_append_clear (hends m) hb] at hdrop
  exact ⟨by simpa using congrArg List.length htake, hdrop⟩

namespace Spacing

theorem exists_chars_eq (cs : List Char) : ∃ r : Spacing, r.chars = cs := by
  induction cs with
  | nil => exact ⟨⟨[], 0, by simp⟩, rfl⟩
  | cons x cs ih =>
    obtain ⟨⟨inner, last, hne⟩, rfl⟩ := ih
    by_cases hx : x = '\n'
    · -- the first run is longer by one, and it may be the last
      subst hx
      cases inner with
      | nil => exact ⟨⟨[], last + 1, hne⟩, rfl⟩
      | cons m inner =>
        obtain ⟨hm, hinner⟩ := List.forall_mem_cons.mp hne
        exact ⟨⟨(m.1 + 1, m.2) :: inner, last, List.forall_mem_cons.mpr ⟨hm, hinner⟩⟩, rfl⟩
    · exact ⟨⟨(0, x) :: inner, last, List.forall_mem_cons.mpr ⟨hx, hne⟩⟩, rfl⟩

/-- Characters and line ends can be told apart in the text that they make. -/
theorem spaced_inj {inner inner' : List (Nat × Char)} {last last' : Nat}
    (hne : ∀ m ∈ inner, m.2 ≠ '\n') (hne' : ∀ m ∈ inner', m.2 ≠ '\n')
    (h : spaced inner last = spaced inner' last') : inner = inner' ∧ last = last' := by
  induction inner generalizing inner' with
  | nil =>
    cases inner' with
    | nil => exact ⟨rfl, by simpa [spaced] using congrArg List.length h⟩
    | cons m inner' =>
      -- a text of line ends has no other character
      have hmem : m.2 ∈ spaced [] last := by
        rw [h]
        simp [spaced]
      exact absurd (List.eq_of_mem_replicate hmem) (hne' m (by simp))
  | cons m inner ih =>
    obtain ⟨hm, hne⟩ := List.forall_mem_cons.mp hne
    cases inner' with
    | nil =>
      have hmem : m.2 ∈ spaced [] last' := by
        rw [← h]
        simp [spaced]
      exact absurd (List.eq_of_mem_replicate hmem) hm
    | cons m' inner' =>
      obtain ⟨hm', hne'⟩ := List.forall_mem_cons.mp hne'
      obtain ⟨hrun, hrest⟩ :=
        lineEnds_append_inj h (lineEndFree_cons.mpr hm) (lineEndFree_cons.mpr hm')
      obtain ⟨hchar, hrest⟩ := List.cons.inj hrest
      obtain ⟨rfl, rfl⟩ := ih hne hne' hrest
      exact ⟨by rw [Prod.ext hrun hchar], rfl⟩

/-- Every text is spaced in exactly one way. -/
theorem existsUnique_chars_eq (cs : List Char) : ∃! r : Spacing, r.chars = cs := by
  obtain ⟨r, rfl⟩ := exists_chars_eq cs
  refine ⟨r, rfl, fun r' h => ?_⟩
  obtain ⟨hinner, hlast⟩ := spaced_inj r'.not_lineEnd r.not_lineEnd h
  exact Spacing.ext hinner hlast

end Spacing

/-! ## What is done to a run -/

@[simp] theorem collapseChars_nil : collapseChars [] = [] := rfl

theorem collapseChars_cons {x : Char} :
    collapseChars (x :: cs) = consLimited x (collapseChars cs) := rfl

/-- A character is left out exactly if it would begin three line ends. -/
theorem consLimited_eq {x : Char} :
    consLimited x cs = if tripleEnd <+: x :: cs then cs else x :: cs := by
  unfold consLimited tripleEnd
  split
  · simp
  · rename_i hno
    rw [if_neg]
    rintro ⟨rest, hrest⟩
    obtain ⟨rfl, rfl⟩ := List.cons.inj hrest
    exact hno rest rfl rfl

theorem collapseChars_cons_of_ne {x : Char} (hx : x ≠ '\n') :
    collapseChars (x :: cs) = x :: collapseChars cs := by
  rw [collapseChars_cons, consLimited_eq, if_neg]
  rintro ⟨rest, hrest⟩
  exact hx (List.cons.inj hrest).1.symm

theorem LineEndFree.collapseChars (h : LineEndFree cs) : LineEndFree (collapseChars cs) := by
  cases cs with
  | nil => exact h
  | cons x cs =>
    have hx := lineEndFree_cons.mp h
    rw [collapseChars_cons_of_ne hx]
    exact lineEndFree_cons.mpr hx

/-- How many line ends stand at the beginning can be read off a text. -/
theorem lineEnds_prefix_iff {k n : Nat} (h : LineEndFree cs) :
    List.replicate k '\n' <+: List.replicate n '\n' ++ cs ↔ k ≤ n := by
  constructor
  · rintro ⟨rest, hrest⟩
    obtain ⟨m, tail, rfl, htail⟩ := exists_lineEnds_append rest
    rw [← List.append_assoc, List.replicate_append_replicate] at hrest
    have := (lineEnds_append_inj hrest htail h).1
    omega
  · intro hle
    refine ⟨List.replicate (n - k) '\n' ++ cs, ?_⟩
    rw [← List.append_assoc, List.replicate_append_replicate, Nat.add_sub_cancel' hle]

/-- A run of line ends keeps its length up to two. -/
theorem collapseChars_lineEnds_append (n : Nat) (h : LineEndFree cs) :
    collapseChars (List.replicate n '\n' ++ cs) =
      List.replicate (min n 2) '\n' ++ collapseChars cs := by
  induction n with
  | zero => rfl
  | succ n ih =>
    have hthree : tripleEnd <+: '\n' :: (List.replicate (min n 2) '\n' ++ collapseChars cs) ↔
        2 ≤ min n 2 :=
      List.cons_prefix_cons.trans ((and_iff_right rfl).trans
        (lineEnds_prefix_iff (k := 2) h.collapseChars))
    rw [List.replicate_succ, List.cons_append, collapseChars_cons, ih, consLimited_eq]
    by_cases hn : 2 ≤ min n 2
    · rw [if_pos (hthree.mpr hn)]
      congr 2
      omega
    · rw [if_neg (mt hthree.mp hn), ← List.cons_append, ← List.replicate_succ]
      congr 2
      omega

/-- Each run is limited by itself, whatever the others are. -/
theorem collapseChars_spaced {inner : List (Nat × Char)} {last : Nat}
    (hne : ∀ m ∈ inner, m.2 ≠ '\n') : collapseChars (spaced inner last) =
      spaced (inner.map fun m => (min m.1 2, m.2)) (min last 2) := by
  induction inner with
  | nil =>
    have h := collapseChars_lineEnds_append last clear_nil
    rwa [List.append_nil, collapseChars_nil, List.append_nil] at h
  | cons m inner ih =>
    obtain ⟨hm, hne⟩ := List.forall_mem_cons.mp hne
    rw [spaced, collapseChars_lineEnds_append _ (lineEndFree_cons.mpr hm),
      collapseChars_cons_of_ne hm, ih hne]
    rfl

theorem collapseChars_chars (r : Spacing) : collapseChars r.chars = r.limit.chars :=
  collapseChars_spaced r.not_lineEnd

/-! ## What is left, and what is left alone -/

theorem not_tripleEnd_infix_consLimited {x : Char} (h : ¬ tripleEnd <:+: cs) :
    ¬ tripleEnd <:+: consLimited x cs := by
  rw [consLimited_eq]
  split
  · exact h
  · rename_i hx
    rw [List.infix_cons_iff]
    exact not_or.mpr ⟨hx, h⟩

/-- A character is left out where it would make three line ends in a row, so none are left. -/
theorem not_tripleEnd_infix_collapseChars (cs : List Char) :
    ¬ tripleEnd <:+: collapseChars cs := by
  induction cs with
  | nil => simp [tripleEnd]
  | cons x cs ih => exact not_tripleEnd_infix_consLimited ih

theorem collapseChars_eq_self (h : ¬ tripleEnd <:+: cs) : collapseChars cs = cs := by
  induction cs with
  | nil => rfl
  | cons x cs ih =>
    obtain ⟨hx, hcs⟩ := not_or.mp (mt List.infix_cons_iff.mpr h)
    rw [collapseChars_cons, ih hcs, consLimited_eq, if_neg hx]

theorem collapseChars_eq_self_iff : collapseChars cs = cs ↔ ¬ tripleEnd <:+: cs :=
  ⟨fun h => h ▸ not_tripleEnd_infix_collapseChars cs, collapseChars_eq_self⟩

theorem collapseChars_collapseChars (cs : List Char) :
    collapseChars (collapseChars cs) = collapseChars cs :=
  collapseChars_eq_self (not_tripleEnd_infix_collapseChars cs)

/-! ## As a replacement from the left -/

/-- The text read from the left, where every run that has three line ends or more is replaced by
two as soon as it is met, as a whole. -/
inductive Replaced : List Char → List Char → Prop
  | nil : Replaced [] []
  | run {n : Nat} {rest out : List Char} (hn : 3 ≤ n) (hrest : LineEndFree rest)
      (h : Replaced rest out) : Replaced (List.replicate n '\n' ++ rest) ('\n' :: '\n' :: out)
  | keep {x : Char} {rest out : List Char} (hx : ¬ tripleEnd <+: x :: rest)
      (h : Replaced rest out) : Replaced (x :: rest) (x :: out)

/-- Two line ends or more stand in front of a text before exactly if they do behind. -/
theorem lineEnds_prefix_collapseChars_iff :
    ['\n', '\n'] <+: collapseChars cs ↔ ['\n', '\n'] <+: cs := by
  obtain ⟨n, rest, rfl, hrest⟩ := exists_lineEnds_append cs
  have hbefore := lineEnds_prefix_iff (k := 2) (n := n) hrest
  have hbehind := lineEnds_prefix_iff (k := 2) (n := min n 2) hrest.collapseChars
  rw [collapseChars_lineEnds_append n hrest]
  exact hbehind.trans (Iff.trans (by omega) hbefore.symm)

/-- A run replaced as a whole is what `collapseChars` makes of its line ends one by one. -/
theorem Replaced.eq_collapseChars (h : Replaced cs out) : out = collapseChars cs := by
  induction h with
  | nil => rfl
  | run hn hrest _ ih =>
    rw [collapseChars_lineEnds_append _ hrest, Nat.min_eq_right (by omega), ih]
    rfl
  | keep hx _ ih =>
    rw [collapseChars_cons, consLimited_eq, if_neg, ih]
    rw [tripleEnd, List.cons_prefix_cons] at hx ⊢
    rwa [lineEnds_prefix_collapseChars_iff]

/-- The replacement is defined for every text. -/
theorem exists_replaced (cs : List Char) : ∃ out, Replaced cs out := by
  -- a run is replaced as a whole, so the induction is on the length
  induction hlen : cs.length using Nat.strongRecOn generalizing cs with
  | _ len ih =>
    subst hlen
    by_cases htriple : tripleEnd <+: cs
    · obtain ⟨n, rest, rfl, hrest⟩ := exists_lineEnds_append cs
      have hn : 3 ≤ n := (lineEnds_prefix_iff (k := 3) hrest).mp htriple
      obtain ⟨out, hout⟩ := ih rest.length (by simp; omega) rest rfl
      exact ⟨_, .run hn hrest hout⟩
    · cases cs with
      | nil => exact ⟨[], .nil⟩
      | cons x cs =>
        obtain ⟨out, hout⟩ := ih cs.length (by simp) cs rfl
        exact ⟨_, .keep htriple hout⟩

/-- Replacing from the left gives the collapsed text and nothing else. -/
theorem replaced_iff : Replaced cs out ↔ out = collapseChars cs := by
  refine ⟨Replaced.eq_collapseChars, ?_⟩
  rintro rfl
  obtain ⟨out, hout⟩ := exists_replaced cs
  exact hout.eq_collapseChars ▸ hout

/-! ## Whole texts -/

theorem toList_collapse (s : String) : (collapse s).toList = collapseChars s.toList := by
  rw [collapse, String.toList_ofList]

theorem toList_collapse_of_chars_eq {s : String} {r : Spacing} (h : r.chars = s.toList) :
    (collapse s).toList = r.limit.chars := by
  rw [toList_collapse, ← h, collapseChars_chars]

theorem collapse_collapse (s : String) : collapse (collapse s) = collapse s := by
  rw [← String.toList_inj, toList_collapse, toList_collapse, collapseChars_collapseChars]

/-- Just the texts without three line ends in a row stay as they are. -/
theorem collapse_eq_self_iff {s : String} : collapse s = s ↔ ¬ tripleEnd <:+: s.toList := by
  rw [← String.toList_inj, toList_collapse, collapseChars_eq_self_iff]

/-- Collapsing a text is replacing, from the left, each run of three line ends or more by two. So
every run keeps its length up to two, with the same characters between the runs; a text stays as
it is the second time, and the first time exactly if it has no three line ends in a row. What an
engine renders has no such three, and is the text of the tree up to the lengths of the runs,
wherever the line ends of a run come from. -/
theorem collapse_limits_lineEnds :
    (∀ s : String, (∀ out, Replaced s.toList out ↔ out = (collapse s).toList) ∧
      (∃! r : Spacing, r.chars = s.toList) ∧
      (∀ r : Spacing, r.chars = s.toList → (collapse s).toList = r.limit.chars) ∧
      collapse (collapse s) = collapse s ∧ (collapse s = s ↔ ¬ tripleEnd <:+: s.toList)) ∧
    ∀ (e : Engine) (src : String) (vars : Option Store) (out : String),
      (e.transform src vars).answer = .ok out →
      ∃ t, Template.parse (normalize src) e.limits = .ok t ∧ ¬ tripleEnd <:+: out.toList ∧
        ∃ r : Spacing, r.chars = (Template.render (vars.getD e.vars).lookup t).value.toList ∧
          out.toList = r.limit.chars := by
  constructor
  · intro s
    refine ⟨fun out => ?_, Spacing.existsUnique_chars_eq _,
      fun _ => toList_collapse_of_chars_eq, collapse_collapse s, collapse_eq_self_iff⟩
    rw [replaced_iff, toList_collapse]
  · intro e src vars out hout
    rw [Engine.transform_answer, Parse.map_eq_ok_iff] at hout
    obtain ⟨t, ht, rfl⟩ := hout
    obtain ⟨r, hr⟩ := Spacing.exists_chars_eq
      (Template.render (vars.getD e.vars).lookup t).value.toList
    refine ⟨t, ht, ?_, r, hr, toList_collapse_of_chars_eq hr⟩
    rw [toList_collapse]
    exact not_tripleEnd_infix_collapseChars _

/-- Four line ends that come from a literal, a value, a branch and a literal again make one run,
and the two in the value of `y` stay. -/
theorem collapse_limits_lineEnds_joined :
    let e : Engine := { vars := (Store.empty.set "x" (.str "\n")).set "y" (.str "a\n\nb") }
    let src := "\x7b=y\x7d\n\x7b=x\x7d\x7b?x\x7d\n\x7b.\x7d\nc"
    (e.transform src none).answer = .ok "a\n\nb\n\nc" ∧ ¬ tripleEnd <:+: "a\n\nb\n\nc".toList ∧
      ∃ t, Template.parse (normalize src) e.limits = .ok t ∧
        (Template.render e.vars.lookup t).value = "a\n\nb\n\n\n\nc" ∧
        ∃ r : Spacing, r.chars = "a\n\nb\n\n\n\nc".toList ∧
          "a\n\nb\n\nc".toList = r.limit.chars := by
  intro e src
  have hanswer : (e.transform src none).answer = .ok "a\n\nb\n\nc" := by decide +kernel
  obtain ⟨t, ht, hno, r, hr, hlimit⟩ := collapse_limits_lineEnds.2 e src none _ hanswer
  have hrendered : (Template.render e.vars.lookup t).value = "a\n\nb\n\n\n\nc" := by
    have hparse : (Template.parse (normalize src) e.limits).map
        (fun t => (Template.render e.vars.lookup t).value) = .ok "a\n\nb\n\n\n\nc" := by
      decide +kernel
    rw [ht] at hparse
    exact Except.ok.inj hparse
  refine ⟨hanswer, hno, t, ht, hrendered, r, ?_, hlimit⟩
  rw [hr]
  exact congrArg String.toList hrendered

end Stencil.Text

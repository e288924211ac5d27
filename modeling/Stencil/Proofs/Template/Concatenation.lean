/-
# Stencil.Proofs.Template.Concatenation -- templates one after the other

If no opener begins in one text and ends in the next, both texts together are a template just if
each is one by itself, and what is rendered is the one after the other. Their trees are not just
put side by side: literal text at the end of the first and at the beginning of the second is one
literal of the whole (`Node.joinTo`).

The converse is where the second text could do harm. Whether the first of two texts is read to
its end as it is by itself depends on what stands behind it only through its last literal, which
goes on as far as it can. What carries the argument is `IsLiteral.not_stops_inside`: inside a
literal that no opener leaves, no directive begins, whatever stands behind it.
-/
import Stencil.Proofs.Template.Reading
import Stencil.Store
import Stencil.Template.Rendering

namespace Stencil

open Parse

variable {a b s t u v : List Char}

/-! ## Boundaries -/

/-- An opener begins in the first text and ends in the second. -/
def Straddles (a b : List Char) : Prop :=
  ∃ u v, u ≠ [] ∧ v ≠ [] ∧ u ++ v ∈ Parser.openers ∧ u <:+ a ∧ v <+: b

/-- The ways of dividing an opener. -/
theorem opener_divided_iff : (u ≠ [] ∧ v ≠ [] ∧ u ++ v ∈ Parser.openers) ↔
    (u = ['\x7b'] ∧ (v = ['='] ∨ v = ['?'] ∨ v = ['|'] ∨ v = ['.', '\x7d'])) ∨
      (u = ['\x7b', '.'] ∧ v = ['\x7d']) := by
  constructor
  · rintro ⟨hu, hv, ho⟩
    obtain ⟨x, u, rfl⟩ := List.exists_cons_of_ne_nil hu
    obtain ⟨y, v, rfl⟩ := List.exists_cons_of_ne_nil hv
    simp only [Parser.openers, List.cons_append, List.mem_cons, List.cons.injEq,
      List.not_mem_nil, or_false] at ho
    cases u with
    | nil => simpa [← and_or_left] using ho
    | cons z u => simpa [List.append_eq_singleton_iff, and_assoc] using ho
  · rintro (⟨rfl, rfl | rfl | rfl | rfl⟩ | ⟨rfl, rfl⟩) <;> simp [Parser.openers]

theorem straddles_iff : Straddles a b ↔
    (['\x7b'] <:+ a ∧ (['='] <+: b ∨ ['?'] <+: b ∨ ['|'] <+: b ∨ ['.', '\x7d'] <+: b)) ∨
      (['\x7b', '.'] <:+ a ∧ ['\x7d'] <+: b) := by
  constructor
  · rintro ⟨u, v, hu, hv, ho, hua, hvb⟩
    obtain ⟨rfl, rfl | rfl | rfl | rfl⟩ | ⟨rfl, rfl⟩ := opener_divided_iff.mp ⟨hu, hv, ho⟩ <;>
      simp [hua, hvb]
  · have hstraddles : ∀ u v, u ≠ [] ∧ v ≠ [] ∧ u ++ v ∈ Parser.openers → u <:+ a → v <+: b →
        Straddles a b := fun u v h hu hv => ⟨u, v, h.1, h.2.1, h.2.2, hu, hv⟩
    rintro (⟨ha, hb | hb | hb | hb⟩ | ⟨ha, hb⟩) <;>
      exact hstraddles _ _ (opener_divided_iff.mpr (by simp)) ha hb

instance : Decidable (Straddles a b) := decidable_of_iff _ straddles_iff.symm

theorem Straddles.mono (h : Straddles u v) (hu : u <:+ a) (hv : v <+: b) : Straddles a b := by
  obtain ⟨x, y, hx, hy, ho, hxu, hyv⟩ := h
  exact ⟨x, y, hx, hy, ho, hxu.trans hu, hyv.trans hv⟩

/-- Nothing straddles the boundary in front of a directive, or at the end. -/
theorem Stops.not_straddles (h : Stops b) : ¬ Straddles a b := by
  rintro ⟨u, v, hu, hv, ho, -, hvb⟩
  obtain rfl | hopen := h
  · exact hv (List.prefix_nil.mp hvb)
  · obtain ⟨tail, rfl⟩ := Parser.atOpener_first hopen
    obtain ⟨x, o', heq, hno⟩ := Parser.opener_eq ho
    obtain ⟨y, u, rfl⟩ := List.exists_cons_of_ne_nil hu
    obtain ⟨z, v, rfl⟩ := List.exists_cons_of_ne_nil hv
    -- the second part of the opener would begin with a brace
    obtain rfl : z = '\x7b' := (List.cons_prefix_cons.mp hvb).1
    rw [List.cons_append, List.cons.injEq] at heq
    rw [← heq.2] at hno
    exact hno (by simp)

/-! ## Literals -/

/-- Literal texts make a literal if no opener straddles their boundary. -/
theorem IsLiteral.append (hs : IsLiteral s) (ht : IsLiteral t) (h : ¬ Straddles s t) :
    IsLiteral (s ++ t) := by
  refine ⟨by simp [hs.1], fun o ho hin => ?_⟩
  obtain hin | hin | ⟨u, v, hu, hv, rfl, hus, hvt⟩ := List.infix_append_iff_ne_nil.mp hin
  · exact hs.2 o ho hin
  · exact ht.2 o ho hin
  · exact h ⟨u, v, hu, hv, ho, hus, hvt⟩

theorem IsLiteral.of_infix (h : IsLiteral t) (hs : s <:+: t) (hne : s ≠ []) : IsLiteral s :=
  ⟨hne, fun o ho hin => h.2 o ho (hin.trans hs)⟩

/-- No directive begins inside a literal that no opener leaves. -/
theorem IsLiteral.not_stops_inside (hs : IsLiteral s) (h : ¬ Straddles s b) (hu : u <:+ s)
    (hne : u ≠ []) : ¬ Stops (u ++ b) := by
  rintro (hnil | hopen)
  · exact hne (List.append_eq_nil_iff.mp hnil).1
  · obtain ⟨o, ho, hin⟩ := Parser.atOpener_iff.mp hopen
    obtain hin' | ⟨v, rfl⟩ := List.prefix_or_prefix_of_prefix hin (List.prefix_append u b)
    · exact hs.2 o ho (hin'.isInfix.trans hu.isInfix)
    · cases v with
      | nil =>
        rw [List.append_nil] at ho
        exact hs.2 u ho hu.isInfix
      | cons x v =>
        have hvb : x :: v <+: b := (List.prefix_append_right_inj u).mp hin
        exact h ⟨u, x :: v, hne, List.cons_ne_nil x v, ho, hu, hvb⟩

/-! ## Trees -/

/-- A node in front of a template; literal text becomes one literal with the literal that
follows. -/
def Node.joinTo : Node → Template → Template
  | .literal s, .literal t :: nodes => .literal (s ++ t) :: nodes
  | node, nodes => node :: nodes

/-- One template in front of another. -/
def Template.join (t u : Template) : Template := t.foldr Node.joinTo u

theorem Node.joinTo_of_not_literal {node : Node} {nodes : Template}
    (h : node.isLiteral = true → Template.beginsLiteral nodes = false) :
    node.joinTo nodes = node :: nodes := by
  cases node with
  | literal s =>
    cases nodes with
    | nil => rfl
    | cons other nodes =>
      cases other with
      | literal t => cases h rfl
      | substitution e => rfl
      | conditional chain => rfl
  | substitution e => rfl
  | conditional chain => rfl

theorem Node.nesting_joinTo (node : Node) (nodes : Template) :
    Template.nesting (node.joinTo nodes) = max node.nesting (Template.nesting nodes) := by
  fun_cases Node.joinTo node nodes with
  | case1 => simp [Template.nesting, Node.nesting]
  | case2 => rfl

theorem Template.nesting_join (t u : Template) :
    Template.nesting (t.join u) = max (Template.nesting t) (Template.nesting u) := by
  induction t with
  | nil => exact (Nat.max_eq_right (Nat.zero_le _)).symm
  | cons node t ih =>
    show Template.nesting (node.joinTo (join t u)) = _
    rw [Node.nesting_joinTo, ih, nesting.eq_def (node :: t), Nat.max_assoc]

/-! ## Rendering -/

section Rendering

variable (vars : Valuation)

theorem Node.render_joinTo (node : Node) (nodes : Template) :
    Template.render vars (node.joinTo nodes) = Template.render vars (node :: nodes) := by
  fun_cases Node.joinTo node nodes with
  | case1 s t nodes =>
    rw [Template.render_cons, Template.render_cons, Template.render_cons, Node.render, Node.render,
      Node.render]
    simp [String.append_assoc]
  | case2 => rfl

/-- Joined templates are rendered one after the other, and read in this order. -/
theorem Template.render_join (t u : Template) : Template.render vars (t.join u) =
    ⟨(Template.render vars t).value ++ (Template.render vars u).value,
      (Template.render vars t).reads ++ (Template.render vars u).reads⟩ := by
  induction t with
  | nil =>
    rw [render_nil, String.empty_append, List.nil_append]
    rfl
  | cons node t ih =>
    show Template.render vars (node.joinTo (join t u)) = _
    rw [Node.render_joinTo, render_cons, render_cons, ih, String.append_assoc, List.append_assoc]

end Rendering

/-! ## Texts -/

/-- A node in front of a template. -/
theorem Node.Written.joinTo {node : Node} {nodes : Template} (hnode : node.Written s)
    (hnodes : Template.Written nodes v) (h : node.isLiteral = true → ¬ Straddles s v) :
    Template.Written (node.joinTo nodes) (s ++ v) := by
  by_cases hlit : node.isLiteral = true ∧ Template.beginsLiteral nodes = true
  · -- two literals make one
    obtain ⟨hfirst, hsecond⟩ := hlit
    cases hnode with
    | substitution => cases hfirst
    | conditional => cases hfirst
    | literal hs =>
      cases hnodes with
      | nil => cases hsecond
      | @cons _ nodes t w hnext hnodes hapart =>
        cases hnext with
        | substitution => cases hsecond
        | conditional => cases hsecond
        | literal ht =>
          have hno : ¬ Straddles s t := fun hno =>
            h rfl (hno.mono (List.suffix_refl s) (List.prefix_append t w))
          have hjoined := Template.Written.cons (.literal (hs.append ht hno)) hnodes hapart
          rw [String.ofList_append, List.append_assoc] at hjoined
          exact hjoined
  · have hapart : node.isLiteral = true → Template.beginsLiteral nodes = false := fun hfirst =>
      Bool.eq_false_iff.mpr fun hsecond => hlit ⟨hfirst, hsecond⟩
    rw [Node.joinTo_of_not_literal hapart]
    exact .cons hnode hnodes hapart

/-- What straddles no boundary of the whole straddles none behind a literal of it. -/
theorem Template.Written.not_straddles {nodes : Template} (hnodes : Template.Written nodes u)
    (hlit : Template.beginsLiteral nodes = false) (h : ¬ Straddles (s ++ u) b) :
    ¬ Straddles s (u ++ b) := by
  cases hnodes with
  | nil =>
    rw [List.append_nil] at h
    exact h
  | cons hnode =>
    rw [List.append_assoc]
    exact (hnode.stops hlit _).not_straddles

theorem Template.Written.join {t u : Template} (ht : Template.Written t a)
    (hu : Template.Written u b) (h : ¬ Straddles a b) : Template.Written (t.join u) (a ++ b) := by
  induction t generalizing a with
  | nil =>
    cases ht
    exact hu
  | cons node t ih =>
    cases ht with
    | @cons _ _ s v hnode hnodes hlit =>
      have hrest := ih hnodes fun hno => h (hno.mono (List.suffix_append s v) (List.prefix_refl b))
      rw [List.append_assoc]
      exact hnode.joinTo hrest fun hfirst => hnodes.not_straddles (hlit hfirst) h

/-! ## Taking texts apart -/

/-- Two nodes that are no literals and begin at one place end at one place. -/
theorem Node.Written.eq_of_append_eq {node node' : Node} (h : node.Written s)
    (h' : node'.Written t) (hlit : node.isLiteral = false) (hlit' : node'.isLiteral = false)
    (htext : s ++ u = t ++ v) : u = v := by
  -- a depth that suffices for both
  let n := max node.nesting node'.nesting
  have hinside := Parser.chain_reads
    ⟨Parser.condition_reads n, Parser.template_reads n, Parser.condition_failed n⟩
  let c : Cursor := ⟨0, s ++ u⟩
  have hs : c.Spans s ⟨0 + s.length, u⟩ := ⟨rfl, rfl⟩
  have ht : c.Spans t ⟨0 + t.length, v⟩ := ⟨htext, rfl⟩
  have hn : node.nesting ≤ n + 1 := Nat.le_succ_of_le (Nat.le_max_left ..)
  have hn' : node'.nesting ≤ n + 1 := Nat.le_succ_of_le (Nat.le_max_right ..)
  have hmatched := (Parser.node_matched_iff hinside).mpr ⟨s, hs, h, hn, by simp [hlit]⟩
  have hmatched' := (Parser.node_matched_iff hinside).mpr ⟨t, ht, h', hn', by simp [hlit']⟩
  have heq := hmatched.symm.trans hmatched'
  injection heq with _ hnext
  injection hnext

/-- Of two literals that begin at one place, the one that no opener leaves is not the longer, and
the other goes on with literal text of its own. -/
theorem IsLiteral.exists_behind {others : Template} (hs : IsLiteral s) (ht : IsLiteral t)
    (hothers : Template.Written others u) (hapart : Template.beginsLiteral others = false)
    (hno : ¬ Straddles s v) (htext : s ++ v = t ++ u) : ∃ rest, Template.Written rest v := by
  have hstop := hothers.stops hapart (.inl rfl)
  rw [List.append_nil] at hstop
  obtain ⟨tail, rfl, rfl⟩ | ⟨tail, rfl, rfl⟩ := List.append_eq_append_iff.mp htext
  · cases tail with
    | nil => exact ⟨others, hothers⟩
    | cons x tail =>
      have htail : IsLiteral (x :: tail) :=
        ht.of_infix (List.suffix_append s _).isInfix (List.cons_ne_nil x tail)
      exact ⟨_, .cons (.literal htail) hothers fun _ => hapart⟩
  · cases tail with
    | nil => exact ⟨others, hothers⟩
    | cons x tail =>
      exact absurd hstop
        (hs.not_stops_inside hno (List.suffix_append t _) (List.cons_ne_nil x tail))

/-- What stands behind a node of a template is a template. -/
theorem Node.Written.exists_behind {node : Node} {nodes : Template} (hnode : node.Written s)
    (h : Template.Written nodes (s ++ v)) (hno : node.isLiteral = true → ¬ Straddles s v) :
    ∃ rest, Template.Written rest v := by
  generalize htext : s ++ v = text at h
  cases h with
  | nil => exact absurd (List.append_eq_nil_iff.mp htext).1 hnode.ne_nil
  | @cons first others t u hfirst hothers hapart =>
    cases hlit : node.isLiteral with
    | false =>
      -- no literal begins where a directive does
      have hlit' : first.isLiteral = false := by
        cases hfirst with
        | literal ht =>
          have hstop := hothers.stops (hapart rfl) (.inl rfl)
          rw [List.append_nil] at hstop
          have hnot := ht.not_stops hstop
          rw [← htext] at hnot
          exact absurd (hnode.stops hlit v) hnot
        | substitution => rfl
        | conditional => rfl
      obtain rfl := hnode.eq_of_append_eq hfirst hlit hlit' htext
      exact ⟨others, hothers⟩
    | true =>
      cases hnode with
      | substitution => cases hlit
      | conditional => cases hlit
      | literal hs =>
        have hnot : ¬ Stops (t ++ u) := by
          rw [← htext]
          exact hs.not_stops_inside (hno rfl) (List.suffix_refl s) hs.1
        cases hfirst with
        | literal ht => exact hs.exists_behind ht hothers (hapart rfl) (hno rfl) htext
        | substitution he => exact absurd (Node.Written.stops (.substitution he) rfl u) hnot
        | conditional hc => exact absurd (Node.Written.stops (.conditional hc) rfl u) hnot

/-- What stands behind a template in a template is a template. -/
theorem Template.Written.exists_behind {t nodes : Template} (ht : Template.Written t a)
    (h : Template.Written nodes (a ++ b)) (hno : ¬ Straddles a b) :
    ∃ rest, Template.Written rest b := by
  induction t generalizing a nodes with
  | nil =>
    cases ht
    exact ⟨nodes, h⟩
  | cons node t ih =>
    cases ht with
    | @cons _ _ s v hnode hnodes hlit =>
      rw [List.append_assoc] at h
      obtain ⟨others, hothers⟩ :=
        hnode.exists_behind h fun hfirst => hnodes.not_straddles (hlit hfirst) hno
      exact ih hnodes hothers fun hno' =>
        hno (hno'.mono (List.suffix_append s v) (List.prefix_refl b))

/-! ## Whole texts -/

/-- A text without an opener is a template of nothing but this text. -/
theorem Template.exists_plain (h : ∀ o ∈ Parser.openers, ¬ o <:+: s) :
    ∃ t, Template.Written t s ∧ Template.nesting t = 0 ∧
      ∀ vars, Template.render vars t = ⟨String.ofList s, []⟩ := by
  by_cases hs : s = []
  · rw [hs]
    exact ⟨[], .nil, rfl, Template.render_nil⟩
  · have hwritten := Template.Written.cons (.literal ⟨hs, h⟩) .nil fun _ => rfl
    rw [List.append_nil] at hwritten
    refine ⟨_, hwritten, rfl, ?_⟩
    intro vars
    rw [Template.render_cons, Node.render, Template.render_nil]
    simp

/-- Templates compose by concatenation. Let a text be parsed, let no opener begin in it and end
in a second one, and let both together be within the bound on texts. Then both together are
parsed just if the second is by itself, and, whatever the variables, they are rendered as the
first and then the second, with the reads of the first and then those of the second. A text
without an opener is parsed, and rendered as it is without a read. -/
theorem template_parse_append (a b : String) (limits : Limits) (t : Template)
    (ht : Template.parse a limits = .ok t) (hno : ¬ Straddles a.toList b.toList)
    (hbytes : (a ++ b).utf8ByteSize ≤ limits.maxBytes) :
    ((∃ both, Template.parse (a ++ b) limits = .ok both) ↔
      ∃ u, Template.parse b limits = .ok u) ∧
    (∀ both u, Template.parse (a ++ b) limits = .ok both → Template.parse b limits = .ok u →
      ∀ vars, Template.render vars both =
        ⟨(Template.render vars t).value ++ (Template.render vars u).value,
          (Template.render vars t).reads ++ (Template.render vars u).reads⟩) ∧
    ∀ src : String, src.utf8ByteSize ≤ limits.maxBytes →
      (∀ o ∈ Parser.openers, ¬ o <:+: src.toList) →
      ∃ plain, Template.parse src limits = .ok plain ∧
        ∀ vars, Template.render vars plain = ⟨src, []⟩ := by
  obtain ⟨-, hwritten, hnest⟩ := Template.parse_eq_ok_iff.mp ht
  have htext : (a ++ b).toList = a.toList ++ b.toList := String.toList_append
  have hsize : b.utf8ByteSize ≤ limits.maxBytes := by
    rw [String.utf8ByteSize_append] at hbytes
    omega
  -- what the second text writes is written behind the first, joined to what that writes
  have hjoin : ∀ {u}, Template.Written u b.toList →
      Template.Written (t.join u) (a ++ b).toList := fun hu => htext ▸ hwritten.join hu hno
  refine ⟨⟨?_, ?_⟩, ?_, ?_⟩
  · rintro ⟨both, hboth⟩
    obtain ⟨-, hboth, hdeep⟩ := Template.parse_eq_ok_iff.mp hboth
    obtain ⟨u, hu⟩ := hwritten.exists_behind (htext ▸ hboth) hno
    obtain rfl := hboth.unique (hjoin hu)
    rw [Template.nesting_join] at hdeep
    exact ⟨u, Template.parse_eq_ok_iff.mpr ⟨hsize, hu, (Nat.max_le.mp hdeep).2⟩⟩
  · rintro ⟨u, hu⟩
    obtain ⟨-, hu, hdeep⟩ := Template.parse_eq_ok_iff.mp hu
    refine ⟨t.join u, Template.parse_eq_ok_iff.mpr ⟨hbytes, hjoin hu, ?_⟩⟩
    rw [Template.nesting_join]
    exact Nat.max_le.mpr ⟨hnest, hdeep⟩
  · intro both u hboth hu vars
    obtain ⟨-, hboth, -⟩ := Template.parse_eq_ok_iff.mp hboth
    obtain ⟨-, hu, -⟩ := Template.parse_eq_ok_iff.mp hu
    obtain rfl := hboth.unique (hjoin hu)
    exact Template.render_join vars t u
  · intro src hfits hplain
    obtain ⟨plain, hplain, hzero, hrender⟩ := Template.exists_plain hplain
    refine ⟨plain, Template.parse_eq_ok_iff.mpr ⟨hfits, hplain, ?_⟩, ?_⟩
    · rw [hzero]
      exact Nat.zero_le _
    · intro vars
      rw [hrender, String.ofList_toList]

/-- The first text ends in a brace, which is literal text although a directive follows. -/
theorem template_parse_append_braces :
    let a := "\x7b?c\x7d\x7b=d\x7d\x7b.\x7d\x7b"
    let b := "\x7b=e\x7d.\x7d"
    let vars := ((Store.empty.set "c" (.int 1)).set "d" (.int 2)).set "e" (.int 3)
    ¬ Straddles a.toList b.toList ∧ (a ++ b).utf8ByteSize ≤ 100 ∧
      ∃ both, Template.parse (a ++ b) ⟨100, 1⟩ = .ok both ∧
        Template.render vars.lookup both = ⟨"2\x7b3.\x7d", ["c", "d", "e"]⟩ := by
  intro a b vars
  have hparsed : ∀ (src text : String) (reads : List String),
      ((Template.parse src ⟨100, 1⟩).map (Template.render vars.lookup)).toOption =
        some ⟨text, reads⟩ →
      ∃ t, Template.parse src ⟨100, 1⟩ = .ok t ∧
        Template.render vars.lookup t = ⟨text, reads⟩ := by
    intro src text reads h
    cases hparse : Template.parse src ⟨100, 1⟩ with
    | error f =>
      rw [hparse] at h
      cases h
    | ok t =>
      rw [hparse] at h
      exact ⟨t, rfl, Option.some.inj h⟩
  have hno : ¬ Straddles a.toList b.toList := by decide
  have hbytes : (a ++ b).utf8ByteSize ≤ 100 := by decide +kernel
  obtain ⟨t, ht, htext⟩ := hparsed a "2\x7b" ["c", "d"] (by decide +kernel)
  obtain ⟨u, hu, hutext⟩ := hparsed b "3.\x7d" ["e"] (by decide +kernel)
  obtain ⟨hiff, hrender, -⟩ := template_parse_append a b ⟨100, 1⟩ t ht hno hbytes
  obtain ⟨both, hboth⟩ := hiff.mpr ⟨u, hu⟩
  refine ⟨hno, hbytes, both, hboth, ?_⟩
  rw [hrender both u hboth hu, htext, hutext]
  rfl

end Stencil

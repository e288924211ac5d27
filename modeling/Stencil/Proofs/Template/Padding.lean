/-
# Stencil.Proofs.Template.Padding -- normalising changes no directive

When a text is normalised, what is written in it stays. No value expression and no condition has
any padding, for no line end stands inside, and assignment lists are written without theirs as
well. The literal text of a template is changed, but nothing else.

Padding is taken away one character after another. Such a character stands at an end of the text
or beside a line end (`Loose`), and so it stands in literal text: a directive holds no line end,
and it begins and ends with a brace. Nor does an opener come about where the character was, since
there is no line end in an opener. So a literal is cut short, or vanishes if it was nothing else,
and every other part of the tree stays where it is.
-/
import Stencil.Proofs.Assignment.Padding
import Stencil.Proofs.Expression.Connectives
import Stencil.Proofs.Template.Concatenation

namespace Stencil

open Parse

variable {s t u v w : List Char} {x : Char}

/-! ## Trees without literals -/

mutual

/-- The directives of a node. -/
def Node.eraseLiterals : Node → List Node
  | .literal _ => []
  | .substitution e => [.substitution e]
  | .conditional chain => [.conditional (Chain.eraseLiterals chain)]

/-- A template without literal text, at every level. -/
def Template.eraseLiterals : List Node → List Node
  | [] => []
  | node :: nodes => Node.eraseLiterals node ++ Template.eraseLiterals nodes

/-- A chain without literal text in its bodies. -/
def Chain.eraseLiterals : Chain → Chain
  | .branch test body rest =>
    .branch test (Template.eraseLiterals body) (Chain.eraseLiterals rest)
  | .otherwise body => .otherwise (Template.eraseLiterals body)
  | .done => .done

end

theorem Node.eraseLiterals_of_isLiteral {node : Node} (h : node.isLiteral = true) :
    node.eraseLiterals = [] := by
  cases node with
  | literal => rfl
  | substitution => cases h
  | conditional => cases h

theorem Template.nesting_append (t u : Template) :
    Template.nesting (t ++ u) = max (Template.nesting t) (Template.nesting u) := by
  induction t with
  | nil => exact (Nat.max_eq_right (Nat.zero_le _)).symm
  | cons node t ih => simp only [List.cons_append, nesting, ih, Nat.max_assoc]

mutual

theorem Node.nesting_eraseLiterals : (node : Node) →
    Template.nesting node.eraseLiterals = node.nesting
  | .literal _ => rfl
  | .substitution _ => rfl
  | .conditional chain => by
    simp only [Node.eraseLiterals, Template.nesting, Node.nesting,
      Chain.nesting_eraseLiterals chain, Nat.max_zero]

/-- Literal text does not nest. -/
theorem Template.nesting_eraseLiterals : (t : Template) →
    Template.nesting (Template.eraseLiterals t) = Template.nesting t
  | [] => rfl
  | node :: nodes => by
    rw [Template.eraseLiterals, Template.nesting_append, Node.nesting_eraseLiterals node,
      Template.nesting_eraseLiterals nodes, Template.nesting]

theorem Chain.nesting_eraseLiterals : (chain : Chain) →
    chain.eraseLiterals.nesting = chain.nesting
  | .branch test body rest => by
    simp only [Chain.eraseLiterals, Chain.nesting, Template.nesting_eraseLiterals body,
      Chain.nesting_eraseLiterals rest]
  | .otherwise body => by
    simp only [Chain.eraseLiterals, Chain.nesting, Template.nesting_eraseLiterals body]
  | .done => rfl

end

/-! ## Padding inside a text -/

theorem LineEnds.of_append (h : LineEnds (s ++ t)) : LineEnds s := by
  cases s with
  | nil => simp [LineEnds]
  | cons y s => exact h

theorem LineEnds.mem (h : LineEnds s) (hne : s ≠ []) : '\n' ∈ s := by
  obtain ⟨y, rest, rfl⟩ := List.exists_cons_of_ne_nil hne
  obtain rfl : y = '\n' := h y rfl
  exact List.mem_cons_self

/-- A character of the margin stands between the two texts, at an end of a line. -/
structure Loose (u : List Char) (x : Char) (v : List Char) : Prop where
  margin : Text.isMargin x = true
  edge : LineEnds u.reverse ∨ LineEnds v

theorem Loose.of_append_left (h : Loose (s ++ u) x v) : Loose u x v := by
  refine ⟨h.margin, h.edge.imp_left ?_⟩
  intro hedge
  rw [List.reverse_append] at hedge
  exact hedge.of_append

theorem Loose.of_append_right (h : Loose u x (v ++ t)) : Loose u x v :=
  ⟨h.margin, h.edge.imp_right LineEnds.of_append⟩

theorem Loose.mem (h : Loose u x v) (hu : u ≠ []) (hv : v ≠ []) : '\n' ∈ u ∨ '\n' ∈ v := by
  refine h.edge.imp (fun hedge => ?_) fun hedge => hedge.mem hv
  exact List.mem_reverse.mp (hedge.mem (List.reverse_ne_nil_iff.mpr hu))

theorem Text.Padded.exists_loose (h : Text.Padded s t) :
    ∃ u x v, s = u ++ v ∧ t = u ++ x :: v ∧ Loose u x v := by
  cases h with
  | @front m _ hm => exact ⟨[], m, s, rfl, rfl, isMargin_iff.mpr hm, .inl (by simp [LineEnds])⟩
  | @back m _ hm =>
    exact ⟨s, m, [], by simp, rfl, isMargin_iff.mpr hm, .inr (by simp [LineEnds])⟩
  | @lineEnd b u v hb =>
    exact ⟨u, b, '\n' :: v, rfl, rfl, isMargin_of_isBlank (isBlank_iff.mpr hb),
      .inr (by simp [LineEnds])⟩
  | @lineStart b u v hb =>
    exact ⟨u ++ ['\n'], b, v, by simp, by simp, isMargin_of_isBlank (isBlank_iff.mpr hb),
      .inl (by simp [LineEnds])⟩

/-- No opener comes about where such a character is taken away. -/
theorem Loose.not_straddles (h : Loose u x v) : ¬ Straddles u v := by
  rintro ⟨a, b, ha, hb, ho, ⟨u', rfl⟩, ⟨v', rfl⟩⟩
  have hno : ∀ o ∈ Parser.openers, '\n' ∉ o := by decide
  have hab : Loose a x b := h.of_append_left.of_append_right
  exact hno _ ho (List.mem_append.mpr (hab.mem ha hb))

/-! ## Directives -/

/-- No character stands so in a sealed text. -/
theorem Sealed.not_loose (h : Sealed (u ++ x :: v)) : ¬ Loose u x v := by
  intro hloose
  have hu : u ≠ [] := by
    rintro rfl
    exact absurd hloose.margin (Bool.eq_false_iff.mp (clear_cons.mp h.isNormal.trimmed.1))
  have hv : v ≠ [] := by
    rintro rfl
    have hink := h.isNormal.trimmed.2
    rw [List.reverse_append] at hink
    exact absurd hloose.margin (Bool.eq_false_iff.mp (clear_cons.mp hink))
  apply h.no_lineEnd
  obtain hmem | hmem := hloose.mem hu hv
  · exact List.mem_append_left _ hmem
  · exact List.mem_append_right _ (List.mem_cons_of_mem x hmem)

/-- Where a sealed text stands in front, the character stands behind it. -/
theorem Sealed.behind (hs : Sealed s) (h : s ++ t = u ++ x :: v) (hloose : Loose u x v) :
    ∃ c, u = s ++ c ∧ t = c ++ x :: v ∧ Loose c x v := by
  obtain ⟨c, rfl, ht⟩ | ⟨c, rfl, rfl⟩ := Text.append_eq_append_cons h
  · exact ⟨c, rfl, ht, hloose.of_append_left⟩
  · exact absurd hloose.of_append_right hs.not_loose

/-- Where a sealed text stands at the end, the character stands before it. -/
theorem Sealed.before (ht : Sealed t) (h : s ++ t = u ++ x :: v) (hloose : Loose u x v) :
    ∃ c, s = u ++ x :: c ∧ v = c ++ t ∧ Loose u x c := by
  obtain ⟨c, rfl, rfl⟩ | ⟨c, rfl, rfl⟩ := Text.append_eq_append_cons h
  · exact absurd hloose.of_append_left ht.not_loose
  · exact ⟨c, rfl, rfl, hloose.of_append_right⟩

theorem sealed_braces {mark : Char} (hmark : mark ≠ '\n') : Sealed ['\x7b', mark, '\x7d'] where
  no_lineEnd := by simp [hmark.symm]
  leads := ⟨'\x7b', _, rfl, rfl⟩
  endsInk := ⟨'\x7d', _, rfl, rfl⟩

/-- An opener, and what stands behind it up to the closing brace. -/
theorem Enclosed.sealed {α : Type} {L : α → List Char → Prop} {a : α} {mark : Char}
    (hL : ∀ a s, L a s → '\n' ∉ s) (hmark : mark ≠ '\n') (h : Enclosed L '\x7d' a s) :
    Sealed ('\x7b' :: mark :: s) := by
  obtain ⟨w, u, w', hw, hu, hw', rfl⟩ := h
  refine ⟨?_, ⟨'\x7b', _, rfl, rfl⟩, ?_⟩
  · simp [hmark.symm, hw.no_lineEnd, hL a u hu, hw'.no_lineEnd]
  · have hclose : EndsInk ['\x7d'] := ⟨'\x7d', [], rfl, rfl⟩
    exact (((hclose.append_left w').append_left u).append_left w).append_left ['\x7b', mark]

/-! ## Padding taken away -/

/-- A literal without a character at an end of a line is a literal, if anything is left. -/
theorem IsLiteral.remove (h : IsLiteral (u ++ x :: v)) (hloose : Loose u x v) (hne : u ++ v ≠ []) :
    IsLiteral (u ++ v) := by
  by_cases hu : u = []
  · subst hu
    exact h.of_infix (List.suffix_cons x v).isInfix hne
  by_cases hv : v = []
  · subst hv
    rw [List.append_nil] at hne ⊢
    exact h.of_infix (List.prefix_append u [x]).isInfix hne
  have hleft : IsLiteral u := h.of_infix (List.prefix_append u _).isInfix hu
  have hright : IsLiteral v :=
    h.of_infix ((List.suffix_cons x v).trans (List.suffix_append u _)).isInfix hv
  exact hleft.append hright hloose.not_straddles

mutual

/-- A node keeps its directives, or it is a literal that vanishes. -/
theorem Node.Written.remove {u v : List Char} {x : Char} : {node : Node} → {s : List Char} →
    node.Written s → s = u ++ x :: v → Loose u x v →
    (node.isLiteral = true ∧ u ++ v = []) ∨
      ∃ node' : Node, node'.Written (u ++ v) ∧ node'.eraseLiterals = node.eraseLiterals ∧
        node'.isLiteral = node.isLiteral
  | _, _, .literal hs, htext, hloose => by
    subst htext
    by_cases hne : u ++ v = []
    · exact .inl ⟨rfl, hne⟩
    · exact .inr ⟨_, .literal (hs.remove hloose hne), rfl, rfl⟩
  | _, _, .substitution he, htext, hloose => by
    have hsealed := he.sealed (fun _ _ => Expression.Written.no_lineEnd) (by decide : '=' ≠ '\n')
    rw [htext] at hsealed
    exact absurd hloose hsealed.not_loose
  | .conditional chain, _, .conditional hchain, htext, hloose => by
    obtain ⟨chain', s', hchain', htext', herase⟩ :=
      Chain.Written.remove hchain (by decide : '?' ≠ '\n') htext hloose
    rw [← htext']
    refine .inr ⟨.conditional chain', .conditional hchain', ?_, rfl⟩
    rw [Node.eraseLiterals, Node.eraseLiterals, herase]

/-- A chain keeps its directives. The opener in front of its first branch is part of the text here,
so that a test begins with a brace. -/
theorem Chain.Written.remove {u v : List Char} {x mark : Char} : {chain : Chain} →
    {s : List Char} → Chain.Written chain s → mark ≠ '\n' → '\x7b' :: mark :: s = u ++ x :: v →
    Loose u x v → ∃ chain' s', Chain.Written chain' s' ∧ '\x7b' :: mark :: s' = u ++ v ∧
      chain'.eraseLiterals = chain.eraseLiterals
  | .branch test body rest, _, .branch htest hbody hrest, hmark, htext, hloose => by
    -- the character stands behind the test, in the body or in what is left of the chain
    have hsealed := htest.sealed (fun _ _ => Condition.Written.no_lineEnd) hmark
    obtain ⟨c, rfl, hc, hbehind⟩ := hsealed.behind htext hloose
    obtain ⟨d, rfl, hd⟩ | ⟨d, hd, rfl⟩ := Text.append_eq_append_cons hc
    · obtain ⟨rest', hrest', herase⟩ := Chain.Rest.remove hrest hd hbehind.of_append_left
      refine ⟨.branch test body rest', _, .branch htest hbody hrest', by simp, ?_⟩
      rw [Chain.eraseLiterals, Chain.eraseLiterals, herase]
    · obtain ⟨body', hbody', herase, -⟩ :=
        Template.Written.remove hbody hd hbehind.of_append_right
      refine ⟨.branch test body' rest, _, .branch htest hbody' hrest, by simp, ?_⟩
      rw [Chain.eraseLiterals, Chain.eraseLiterals, herase]

/-- What is left of a chain keeps its directives. -/
theorem Chain.Rest.remove {u v : List Char} {x : Char} : {rest : Chain} → {s : List Char} →
    Chain.Rest rest s → s = u ++ x :: v → Loose u x v →
    ∃ rest', Chain.Rest rest' (u ++ v) ∧ rest'.eraseLiterals = rest.eraseLiterals
  | chain, _, .further hchain, htext, hloose => by
    obtain ⟨chain', s', hchain', htext', herase⟩ :=
      Chain.Written.remove hchain (by decide : '|' ≠ '\n') htext hloose
    rw [← htext']
    exact ⟨chain', .further hchain', herase⟩
  | .otherwise body, _, .otherwise hbody, htext, hloose => by
    obtain ⟨c, rfl, hc, hbehind⟩ :=
      (sealed_braces (by decide : '|' ≠ '\n')).behind htext hloose
    obtain ⟨d, hd, rfl, hwithin⟩ := (sealed_braces (by decide : '.' ≠ '\n')).before hc hbehind
    obtain ⟨body', hbody', herase, -⟩ := Template.Written.remove hbody hd hwithin
    have hrest := Chain.Rest.otherwise hbody'
    rw [List.append_assoc] at hrest
    refine ⟨.otherwise body', hrest, ?_⟩
    rw [Chain.eraseLiterals, Chain.eraseLiterals, herase]
  | _, _, .done, htext, hloose => by
    have hsealed := sealed_braces (by decide : '.' ≠ '\n')
    rw [htext] at hsealed
    exact absurd hloose hsealed.not_loose

/-- A template keeps its directives, and begins with literal text only if it did so before. -/
theorem Template.Written.remove {u v : List Char} {x : Char} : {t : Template} → {s : List Char} →
    Template.Written t s → s = u ++ x :: v → Loose u x v →
    ∃ t', Template.Written t' (u ++ v) ∧ Template.eraseLiterals t' = Template.eraseLiterals t ∧
      (Template.beginsLiteral t = false → Template.beginsLiteral t' = false)
  | _, _, .nil, htext, _ => by simp at htext
  | node :: nodes, _, .cons hnode hnodes hapart, htext, hloose => by
    obtain ⟨c, rfl, hc⟩ | ⟨c, hc, rfl⟩ := Text.append_eq_append_cons htext
    · obtain ⟨nodes', hnodes', herase, hbegins⟩ :=
        Template.Written.remove hnodes hc hloose.of_append_left
      rw [List.append_assoc]
      refine ⟨node :: nodes', .cons hnode hnodes' fun hlit => hbegins (hapart hlit), ?_, id⟩
      rw [Template.eraseLiterals, Template.eraseLiterals, herase]
    · rw [← List.append_assoc]
      obtain ⟨hlit, hnil⟩ | ⟨node', hnode', herase, hlit⟩ :=
        Node.Written.remove hnode hc hloose.of_append_right
      · -- nothing but the literal is gone
        rw [hnil, List.nil_append]
        refine ⟨nodes, hnodes, ?_, fun _ => hapart hlit⟩
        rw [Template.eraseLiterals, Node.eraseLiterals_of_isLiteral hlit, List.nil_append]
      · refine ⟨node' :: nodes, .cons hnode' hnodes ?_, ?_, ?_⟩
        · rw [hlit]
          exact hapart
        · rw [Template.eraseLiterals, Template.eraseLiterals, herase]
        · show node.isLiteral = false → node'.isLiteral = false
          rw [hlit]
          exact id

end

/-! ## Normal forms -/

theorem Template.Written.exists_normalChars {t : Template} (h : Template.Written t s) :
    ∃ t', Template.Written t' (Text.normalChars s) ∧
      Template.eraseLiterals t' = Template.eraseLiterals t := by
  apply Text.of_padded (P := fun s => ∃ t', Template.Written t' s ∧
    Template.eraseLiterals t' = Template.eraseLiterals t) ?_ ⟨t, h, rfl⟩
  rintro r s hpadded ⟨t', ht', herase⟩
  obtain ⟨u, x, v, rfl, hs, hloose⟩ := hpadded.exists_loose
  obtain ⟨t'', ht'', herase', -⟩ := ht'.remove hs hloose
  exact ⟨t'', ht'', herase'.trans herase⟩

/-- Normalising changes nothing of what is written in a text. Let a text be parsed under whatever
limits; then so is its normal form, under the same limits. A condition, a value expression and an
assignment list are parsed as the same tree, the first two since they are in normal form. A
template is parsed as a tree that has the same directives in the same places, and so the same
expressions, tests and quoted texts in them: without literal text, at every level, the two trees
are one. -/
theorem normalize_keeps_trees (src : String) (limits : Limits) :
    (∀ t, Condition.parse src limits = .ok t →
      Condition.parse (Text.normalize src) limits = .ok t) ∧
    (∀ e, Expression.parse src limits = .ok e →
      Expression.parse (Text.normalize src) limits = .ok e) ∧
    (∀ list, Assignment.parseAll src limits = .ok list →
      Assignment.parseAll (Text.normalize src) limits = .ok list) ∧
    ∀ t, Template.parse src limits = .ok t →
      ∃ t', Template.parse (Text.normalize src) limits = .ok t' ∧
        Template.eraseLiterals t' = Template.eraseLiterals t := by
  have hchars : (Text.normalize src).toList = Text.normalChars src.toList := String.toList_ofList
  have hbytes := Text.utf8ByteSize_normalize_le src
  refine ⟨?_, ?_, ?_, ?_⟩
  · intro t h
    obtain ⟨-, ht, -⟩ := Condition.parse_eq_ok_iff.mp h
    rw [Text.normalize_eq_self_iff.mpr ht.sealed.isNormal]
    exact h
  · intro e h
    obtain ⟨-, he⟩ := Expression.parse_eq_ok_iff.mp h
    rw [Text.normalize_eq_self_iff.mpr he.sealed.isNormal]
    exact h
  · intro list h
    rw [Assignment.parseAll_eq_ok_iff] at h ⊢
    rw [hchars]
    exact ⟨hbytes.trans h.1, h.2.normalChars⟩
  · intro t h
    obtain ⟨hfits, ht, hdeep⟩ := Template.parse_eq_ok_iff.mp h
    obtain ⟨t', ht', herase⟩ := ht.exists_normalChars
    refine ⟨t', Template.parse_eq_ok_iff.mpr ⟨hbytes.trans hfits, ?_, ?_⟩, herase⟩
    · rw [hchars]
      exact ht'
    · rw [← Template.nesting_eraseLiterals, herase, Template.nesting_eraseLiterals]
      exact hdeep

/-- In the template one literal is cut short on both sides of a line end, one loses its blank, and
the last vanishes; the blanks between quotes stay, as they do in the list. -/
theorem normalize_keeps_trees_blanks :
    let src := " a\x7b \n\t=\x7b?b\x7d\x7b=\" c \"\x7d\n \x7b.\x7d\r\n"
    let insertion : Node := .substitution (.operand (.text " c "))
    let t : Template := [.literal " a\x7b \n\t=", .conditional
      (.branch [[.present false "b"]] [insertion, .literal "\n "] .done), .literal "\r\n"]
    let lines := "a: \" b \" \t\n\nc: a\n"
    let list : List Assignment := [⟨"a", .operand (.text " b ")⟩, ⟨"c", .operand (.lookup "a")⟩]
    Template.parse src {} = .ok t ∧
      Text.normalize src = "a\x7b\n=\x7b?b\x7d\x7b=\" c \"\x7d\n\x7b.\x7d" ∧
      (∃ t', Template.parse (Text.normalize src) {} = .ok t' ∧ Template.eraseLiterals t' =
        [.conditional (.branch [[.present false "b"]] [insertion] .done)]) ∧
      Assignment.parseAll lines {} = .ok list ∧
      Text.normalize lines = "a: \" b \"\n\nc: a" ∧
      Assignment.parseAll (Text.normalize lines) {} = .ok list := by
  intro src insertion t lines list
  have hliteral : ∀ s, s ≠ [] → (∀ o ∈ Parser.openers, ¬ o <:+: s) →
      Node.Written (.literal (String.ofList s)) s := fun s hne hs => .literal ⟨hne, hs⟩
  have hname : IsName "b" ['b'] := ⟨by decide, by decide⟩
  have htest : Condition.Written [[.present false "b"]] ['b'] :=
    .one (.one (.present false hname (.inl rfl)))
  have hquoted : Expression.Written (.operand (.text " c ")) ['"', ' ', 'c', ' ', '"'] :=
    .text ⟨by decide, by decide, by decide⟩
  have hinsertion : Node.Written insertion ('\x7b' :: '=' :: ['"', ' ', 'c', ' ', '"', '\x7d']) :=
    .substitution ⟨[], _, [], blanks_nil, hquoted, blanks_nil, rfl⟩
  have hbody : Template.Written [insertion, .literal "\n "]
      (('\x7b' :: '=' :: ['"', ' ', 'c', ' ', '"', '\x7d']) ++ (['\n', ' '] ++ [])) :=
    .cons hinsertion (.cons (hliteral ['\n', ' '] (by decide) (by decide)) .nil fun _ => rfl) nofun
  have hchain := Chain.Written.branch ⟨[], _, [], blanks_nil, htest, blanks_nil, rfl⟩ hbody .done
  have hlast := hliteral ['\r', '\n'] (by decide) (by decide)
  have hwritten := Template.Written.cons
    (hliteral [' ', 'a', '\x7b', ' ', '\n', '\t', '='] (by decide) (by decide))
    (.cons (.conditional hchain) (.cons hlast .nil fun _ => rfl) nofun) fun _ => rfl
  have ht : Template.parse src {} = .ok t := by
    refine Template.parse_eq_ok_iff.mpr ⟨by decide +kernel, ?_, by decide⟩
    refine Eq.mp (congrArg (Template.Written t) ?_) hwritten
    decide +kernel
  have hlist : Assignment.parseAll lines {} = .ok list := by decide +kernel
  obtain ⟨-, -, -, htemplate⟩ := normalize_keeps_trees src {}
  obtain ⟨-, -, hlines, -⟩ := normalize_keeps_trees lines {}
  exact ⟨ht, by decide +kernel, htemplate t ht, hlist, by decide +kernel, hlines list hlist⟩

end Stencil

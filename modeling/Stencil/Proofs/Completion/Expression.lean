/-
# Stencil.Proofs.Completion.Expression -- completing expressions

Every note that is left by the parsers of value expressions and conditions can be
completed to an expression or condition, also those of alternatives that were given up.
Two places need care. A sum is tried only where no word for a truth value was read, and
this is what keeps its completion from beginning with such a word. And a round of a
repetition that fails is completed behind all the rounds before it, by one item more
(`Joined.append`).
-/
import Stencil.Proofs.Completion
import Stencil.Proofs.Expression.Condition

namespace Stencil

open Parse

namespace Parse.Parser

variable {α β : Type} {c : Cursor} {K : List Char → Prop}

/-! ## Operands -/

/-- Every note of a variable or number is completed by a name of one letter or by one digit. -/
theorem term_completes : term.Completes c (fun s => s = ['a'] ∨ s = ['0']) c :=
  completes_orElse (completes_map (identifier_completes.imp fun _ => .inl)) fun _ =>
    completes_map (number_completes.imp fun _ => .inr)

theorem exists_term {s : List Char} (h : s = ['a'] ∨ s = ['0']) : ∃ a, Operand.Term a s := by
  obtain ⟨v, hv⟩ := isNumber_zero
  rcases h with rfl | rfl
  · exact ⟨_, .lookup isName_a⟩
  · exact ⟨_, .number hv⟩

theorem term_explains : term.Explains Operand.Term where
  sound := term_reads.sound
  completes _ := term_completes.imp fun _ => exists_term

/-- A quoted text is tried where there is neither variable nor number, and is completed on its
own. -/
theorem operand_explains : operand.Explains Operand.Written where
  sound := operand_reads.sound
  completes c := by
    refine completes_orElse ?_ fun _ => completes_map ?_
    · exact (term_explains.completes c).imp fun s ⟨a, ha⟩ => ⟨a, .term ha⟩
    · exact quotedText_completes.imp fun s ⟨body, hq⟩ => ⟨_, .text hq⟩

theorem comparison_explains : comparison.Explains Comparison.Spelling where
  sound := comparison_reads.sound
  completes _ := comparison_completes.imp fun _ h => ⟨.lt, h ▸ .lt⟩

theorem additive_explains : additive.Explains Additive.Spelling where
  sound := additive_reads.sound
  completes _ := additive_completes.imp fun _ h => ⟨.plus, h ▸ .plus⟩

/-- Behind its first operand, two operands with an operator between them are completed to
what the first can begin. -/
theorem binary_completes {side : Parser α} {op : Parser β} {Side : α → List Char → Prop}
    {Op : β → List Char → Prop} (hside : side.Explains Side) (hop : op.Explains Op)
    {y₀ : α} {u₀ : List Char} (hy₀ : Side y₀ u₀) (hfirst : side.Completes c K c)
    (hK : ∀ x mid s, side.outcome c = .matched x mid → c.Spans s mid → Side x s →
      ∀ w o t w' y u, Blanks w → Op o t → Blanks w' → Side y u →
        K (s ++ (w ++ (t ++ (w' ++ u))))) :
    (binary side op).Completes c K c := by
  refine completes_bind hfirst ?_
  intro x c₁ hx
  obtain ⟨s, hs, hX⟩ := hside.sound hx
  have hrest := hK x c₁ s hx hs hX
  refine completes_blanks hs ?_
  intro w c₂ hs hw
  refine completes_read hop hs ?_ ?_
  · -- one more operand completes the operator
    intro o t ho
    refine ⟨u₀, ?_⟩
    rw [List.append_assoc]
    exact hrest w o t [] y₀ u₀ hw ho blanks_nil hy₀
  intro o t c₃ hs ho
  refine completes_blanks hs ?_
  intro w' c₄ hs hw'
  refine completes_return ((hside.completes c₄).behind hs ?_)
  rintro u ⟨y, hy⟩
  simp only [List.append_assoc]
  exact hrest w o t w' y u hw ho hw' hy

/-! ## Value expressions -/

/-- A word that is followed by more of a name fails without a note, so that only the word itself has
to be completed. -/
theorem word_completes {word : String} {b : Bool} (hq : '\'' ∉ word.toList)
    (hword : TruthWord b word.toList) :
    (do keyword word; return b : Parser Bool).Completes c (fun s => ∃ b, TruthWord b s) c := by
  refine completes_return (completes_bind ?_ fun _ _ _ => (silent_notBefore _).completes)
  refine (token_completes hq).imp ?_
  intro s hs
  exact ⟨b, hs ▸ hword⟩

/-- All four words are noted at one place, and each is a truth value. -/
theorem truth_completes : truth.Completes c (fun s => ∃ b, TruthWord b s) c :=
  completes_orElse (word_completes (by simp) .true) fun _ =>
    completes_orElse (word_completes (by simp) .false) fun _ =>
      completes_orElse (word_completes (by simp) .yes) fun _ =>
        word_completes (by simp) .no

theorem not_truthWord {s : List Char} (h : s = ['a'] ∨ s = ['0']) (b : Bool) :
    ¬ TruthWord b s := by
  rintro (_ | _ | _ | _) <;> simp at h

theorem expression_a : Expression.Written (.operand (.lookup "a")) ['a'] :=
  .lookup isName_a (not_truthWord (.inl rfl))

/-- Where no word for a truth value was read, a sum is completed: its first operand is no such word,
whether it was read or is a completion itself. -/
theorem arithmetic_completes (ht : truth.outcome c = .failed) :
    arithmetic.Completes c (fun s => ∃ e, Expression.Written e s) c := by
  have ha : Operand.Term (.lookup "a") ['a'] := .lookup isName_a
  refine completes_return (binary_completes term_explains additive_explains ha ?_ ?_)
  · apply term_completes.extend
    intro s hs
    obtain ⟨x, hx⟩ := exists_term hs
    exact ⟨_, _, .arithmetic hx (not_truthWord hs) blanks_nil .plus blanks_nil ha⟩
  · intro x mid s hm hs hx w o t w' y u hw ho hw' hy
    exact ⟨_, .arithmetic hx (not_truthWord_of_failed ht hm hs) hw ho hw' hy⟩

/-- Value expressions are read, and each of their notes is completed to one. -/
theorem expression_explains : expression.Explains Expression.Written where
  sound := expression_reads.sound
  completes c := by
    refine completes_orElse (completes_map ?_) fun ht => ?_
    · exact truth_completes.imp fun s ⟨b, hb⟩ => ⟨_, .truth hb⟩
    refine completes_orElse (arithmetic_completes (map_failed_iff.mp ht)) fun _ => ?_
    refine completes_map (completes_orElse (completes_map ?_) fun _ =>
      completes_orElse (completes_map ?_) fun _ => completes_map ?_)
    · obtain ⟨v, hv⟩ := isNumber_zero
      exact number_completes.imp fun s h => ⟨.operand (.number v), h ▸ .number hv⟩
    · exact quotedText_completes.imp fun s ⟨body, hq⟩ => ⟨_, .text hq⟩
    · exact identifier_completes.imp fun s h => ⟨_, h ▸ expression_a⟩

/-! ## What stands between blanks, and items with marks between them -/

/-- What is inside is completed and closed at once; behind it, only the closing token is missed. -/
theorem enclosed_explains {inner : Parser α} {close : String} {x : Char} {L : α → List Char → Prop}
    (h : inner.Explains L) (hclose : close.toList = [x]) (hx : x ≠ '\'') :
    (enclosed inner close).Explains (Enclosed L x) where
  sound := enclosed_sound hclose h.sound
  completes c := by
    refine completes_blanks (Cursor.spans_nil c) ?_
    intro w c₁ hs hw
    refine completes_read h hs ?_ ?_
    · intro a u ha
      exact ⟨[x], a, w, u, [], hw, ha, blanks_nil, rfl⟩
    intro a u c₂ hs ha
    refine completes_blanks hs ?_
    intro w' c₃ hs hw'
    refine completes_return ((token_completes (by simp [hclose, Ne.symm hx])).behind hs ?_)
    intro t ht
    refine ⟨a, w, u, w', hw, ha, hw', ?_⟩
    rw [ht, hclose]
    simp only [List.append_assoc, List.nil_append]

section Joined

variable {item : Parser α} {mark : String} {m : Char} {Item : α → List Char → Prop}

/-- One round of a repetition is completed behind the items before it. -/
theorem further_completes (h : item.Explains Item) (hm : mark.toList = [m]) (hq : m ≠ '\'')
    {a₀ : α} {t₀ : List Char} (ha₀ : Item a₀ t₀) {as : List α} {s : List Char} {o : Cursor}
    (hs : o.Spans s c) (hjoined : Joined m Item as s) :
    (further mark item).Completes o (fun s => ∃ as, Joined m Item as s) c := by
  refine completes_blanks hs ?_
  intro w c₁ hs hw
  refine completes_token (by simp [hm, Ne.symm hq]) hs ?_ ?_
  · refine ⟨t₀, as ++ [a₀], ?_⟩
    rw [hm, List.append_assoc]
    exact hjoined.append hw (.inl rfl) blanks_nil (.one ha₀)
  intro c₂ hs
  rw [hm] at hs
  -- a second mark may follow, but it is not missed
  refine completes_bind (silent_accept _).completes ?_
  intro doubled c₃ hdoubled
  have hmarks : ∃ ms, o.Spans (s ++ w ++ ms) c₃ ∧ (ms = [m] ∨ ms = [m, m]) := by
    obtain ⟨-, hmark⟩ | ⟨-, rfl, -⟩ := accept_matched_iff.mp hdoubled
    · rw [hm] at hmark
      have hs := hs.trans hmark
      rw [List.append_assoc] at hs
      exact ⟨_, hs, .inr rfl⟩
    · exact ⟨_, hs, .inl rfl⟩
  obtain ⟨ms, hs, hms⟩ := hmarks
  refine completes_blanks hs ?_
  intro w' c₄ hs hw'
  refine (h.completes c₄).behind hs ?_
  rintro t ⟨b, hb⟩
  refine ⟨as ++ [b], ?_⟩
  simp only [List.append_assoc]
  exact hjoined.append hw hms hw' (.one hb)

/-- Items with marks between them are completed if one item is, and if there is some item to put
behind a mark. -/
theorem joined_explains (h : item.Explains Item) (hm : mark.toList = [m]) (hq : m ≠ '\'')
    {a₀ : α} {t₀ : List Char} (ha₀ : Item a₀ t₀) : (joined mark item).Explains (Joined m Item) where
  sound := joined_sound hm h.sound
  completes c := by
    rw [joined_eq]
    refine completes_read h (Cursor.spans_nil c) ?_ ?_
    · intro a u ha
      exact ⟨[], [a], .one (by rwa [List.append_nil])⟩
    intro a u c₁ hs ha
    refine completes_return (completes_many ?_)
    intro as c₂ hr
    obtain ⟨s, hs, hjoined⟩ := joined_of_reached hm h.sound hr hs ha
    exact further_completes h hm hq ha₀ hs hjoined

end Joined

/-! ## Conditions -/

section Conditions

variable {inside : Parser Condition} {n : Nat}

theorem atom_a : Atom.Written (.present false "a") ['a'] := .present false isName_a (.inl rfl)

theorem condition_a : Condition.Written [[.present false "a"]] ['a'] := .one (.one atom_a)

/-- A comparison is completed by the shortest of operators and operands. -/
theorem comparing_completes : comparing.Completes c (fun s => ∃ a, Atom.Written a s) c := by
  have ha : Operand.Written (.lookup "a") ['a'] := .term (.lookup isName_a)
  refine completes_return (binary_completes operand_explains comparison_explains ha ?_ ?_)
  · refine (operand_explains.completes c).extend ?_
    rintro s ⟨x, hx⟩
    exact ⟨_, _, .compare hx blanks_nil .lt blanks_nil ha⟩
  · intro x mid s _ _ hx w o t w' y u hw ho hw' hy
    exact ⟨_, .compare hx hw ho hw' hy⟩

/-- Behind the name of a variable there is nothing more to be missed: the question mark may be left
out. -/
theorem presence_completes {inverted : Bool} : (presence inverted).Completes c (· = ['a']) c :=
  completes_bind identifier_completes fun _ _ _ => completes_return (silent_accept _).completes

/-- What completes the inside of a group completes the group behind its parenthesis. -/
theorem atom_explains (hinside : inside.Reads (InGroup n) (fun _ => True))
    (h : ∀ c, inside.Completes c (fun s => ∃ t, Enclosed Condition.Written ')' t s) c) :
    (atom inside).Explains Atom.Written where
  sound hm := by
    obtain ⟨s, hs, ha, -⟩ := atom_sound hinside hm
    exact ⟨s, hs, ha⟩
  completes c := by
    refine completes_orElse comparing_completes fun _ => ?_
    refine completes_bind (silent_accept _).completes ?_
    intro inverted c₁ hbang
    have hs := accept_bang_spans hbang
    refine completes_orElse ?_ fun _ => ?_
    · refine presence_completes.behind hs ?_
      rintro _ rfl
      exact ⟨_, .present inverted isName_a (.inl rfl)⟩
    -- neither operator nor name: a parenthesis and the shortest condition would do
    refine completes_token (by simp) hs ?_ ?_
    · exact ⟨['a', ')'], _, .group inverted blanks_nil condition_a blanks_nil⟩
    intro c₂ hs
    refine completes_return ((h c₂).behind hs ?_)
    rintro _ ⟨t, w, u, w', hw, hu, hw', rfl⟩
    refine ⟨.group inverted t, ?_⟩
    rw [List.append_assoc]
    exact .group inverted hw hu hw'

theorem conjunction_explains (hinside : inside.Reads (InGroup n) (fun _ => True))
    (h : ∀ c, inside.Completes c (fun s => ∃ t, Enclosed Condition.Written ')' t s) c) :
    (conjunction inside).Explains Conjunction.Written :=
  joined_explains (atom_explains hinside h) rfl (by decide) atom_a

theorem disjunction_explains (hinside : inside.Reads (InGroup n) (fun _ => True))
    (h : ∀ c, inside.Completes c (fun s => ∃ t, Enclosed Condition.Written ')' t s) c) :
    (disjunction inside).Explains Condition.Written :=
  joined_explains (conjunction_explains hinside h) rfl (by decide) (.one atom_a)

/-- Conditions are read, and each of their notes is completed to one, at any number of levels. -/
theorem condition_explains (n : Nat) : (condition n).Explains Condition.Written := by
  induction n with
  | zero =>
    apply disjunction_explains tooDeep_reads_inGroup
    intro c
    exact Frontier.completable_none
  | succ n ih =>
    -- inside a group, a condition of less depth is completed
    have hinside : (enclosed (condition n) ")").Explains (Enclosed Condition.Written ')') :=
      enclosed_explains ih rfl (by decide)
    exact disjunction_explains (group_reads (condition_reads n)) hinside.completes

end Conditions

end Parse.Parser

end Stencil

/-
# Stencil.Proofs.Expression.Condition -- conditions as they are read

The parser of conditions with the depth `n` reads exactly the written conditions whose
nesting is at most `n`. The ordered choices and the repetitions of the parser commit to
what they matched first, and this never loses a reading: an atom that begins like a
comparison without being one is followed by something that no operator begins with, and a
mark behind an item is never the end of a condition.

The proof goes up the grammar once. `joined_reads` is the one argument about repetition,
for conjunctions and disjunctions alike, `enclosed_reads` the one about what stands in
parentheses or braces, and `condition_reads` closes the recursion through groups by
induction on the depth.
-/
import Stencil.Proofs.Expression.Value
import Stencil.Proofs.Nesting

namespace Stencil

open Parse

/-! ## How atoms begin -/

/-- What an atom begins with. -/
def isAtomStart (x : Char) : Bool := isOperandStart x || x == '!' || x == '('

theorem atomStart_not_blank {x : Char} (h : isAtomStart x = true) : Text.isBlank x = false := by
  cases hb : Text.isBlank x with
  | false => rfl
  | true =>
    simp only [Text.isBlank, Bool.or_eq_true, beq_iff_eq] at hb
    rcases hb with rfl | rfl <;> cases h

theorem clear_bang {p : Char → Bool} (inverted : Bool) {s : List Char} (hp : p '!' = false)
    (h : Clear p s) : Clear p (bang inverted ++ s) := by
  cases inverted with
  | false => exact h
  | true => exact clear_cons.mpr hp

theorem leads_bang (inverted : Bool) {s : List Char} (h : Leads isAtomStart s) :
    Leads isAtomStart (bang inverted ++ s) := by
  cases inverted with
  | false => exact h
  | true => exact ⟨'!', s, rfl, by decide⟩

theorem Atom.Written.leads {a : Atom} {s : List Char} (h : a.Written s) :
    Leads isAtomStart s := by
  cases h with
  | compare ha => exact (ha.leads.imp (by simp +contextual [isAtomStart])).append _
  | present inverted hname =>
    refine leads_bang inverted ((hname.leads.imp ?_).append _)
    simp +contextual [isAtomStart, isOperandStart]
  | group inverted => exact leads_bang inverted ⟨'(', _, rfl, by decide⟩

theorem Joined.leads {α : Type} {mark : Char} {Item : α → List Char → Prop} {start : Char → Bool}
    (hi : ∀ a s, Item a s → Leads start s) {as : List α} {s : List Char}
    (h : Joined mark Item as s) : Leads start s := by
  cases h with
  | one ha => exact hi _ _ ha
  | more ha => exact (hi _ _ ha).append _

theorem Conjunction.Written.leads {t : Conjunction} {s : List Char} (h : Conjunction.Written t s) :
    Leads isAtomStart s := Joined.leads (fun _ _ => Atom.Written.leads) h

theorem Condition.Written.leads {t : Condition} {s : List Char} (h : Condition.Written t s) :
    Leads isAtomStart s := Joined.leads (fun _ _ => Conjunction.Written.leads) h

namespace Parse.Parser

variable {α : Type} {c next : Cursor}

/-! ## What stands between blanks -/

theorem enclosed_sound {inner : Parser α} {close : String} {x : Char} (hclose : close.toList = [x])
    {L : α → List Char → Prop}
    (hinner : ∀ {c : Cursor} {a : α} {next : Cursor}, inner.outcome c = .matched a next →
      ∃ s, c.Spans s next ∧ L a s)
    {a : α} (h : (enclosed inner close).outcome c = .matched a next) :
    ∃ s, c.Spans s next ∧ Enclosed L x a s := by
  simp only [enclosed, bind_matched_iff, pure_matched_iff, blanks_matched_iff,
    token_matched_iff, hclose] at h
  obtain ⟨-, c₁, ⟨w, hs₁, hw, -⟩, a, c₂, ha, -, c₃, ⟨w', hs₃, hw', -⟩, -, c₄, hs₄, rfl, rfl⟩ := h
  obtain ⟨u, hs₂, ha⟩ := hinner ha
  exact ⟨_, hs₁.trans (hs₂.trans (hs₃.trans hs₄)), w, u, w', hw, ha, hw', rfl⟩

/-- What reads `L` in front of the stops reads it between blanks up to a closing sign, if the sign
is one of the stops. Whatever follows the sign does not matter. -/
theorem enclosed_reads {inner : Parser α} (close : String) (x : Char) {stops : List Char}
    {L : α → List Char → Prop} {start : Char → Bool} (hinner : inner.Reads L (Before stops))
    (hlead : ∀ a s, L a s → Leads start s)
    (hblank : ∀ x, start x = true → Text.isBlank x = false)
    (hclose : close.toList = [x]) (hx : x ∈ stops) (hb : Text.isBlank x = false) :
    (enclosed inner close).Reads (Enclosed L x) (fun _ => True) where
  sound h := enclosed_sound hclose hinner.sound h
  complete {c a next s} hs ha _ := by
    obtain ⟨w, u, w', hw, ha, hw', rfl⟩ := ha
    obtain ⟨c₁, hs₁, hs⟩ := hs.split
    obtain ⟨c₂, hs₂, hs⟩ := hs.split
    obtain ⟨c₃, hs₃, hs₄⟩ := hs.split
    -- what stands behind each part lets it be read up to its end
    have h₁ : Clear Text.isBlank c₁.rest := by
      rw [hs₂.1]
      exact ((hlead a u ha).append _).clear hblank
    have h₂ : Before stops c₂.rest := by
      rw [hs₃.1, hs₄.1]
      exact hw'.before_append (before_cons hx hb)
    have h₃ : Clear Text.isBlank c₃.rest := by
      rw [hs₄.1]
      exact clear_cons.mpr hb
    simp only [enclosed, bind_matched_iff, pure_matched_iff, token_matched_iff, hclose]
    exact ⟨(), c₁, blanks_complete hs₁ hw h₁, a, c₂, hinner.complete hs₂ ha h₂,
      (), c₃, blanks_complete hs₃ hw' h₃, (), next, hs₄, rfl, rfl⟩

/-! ## Items with marks between them -/

section Joined

variable {mark : String} {m : Char} {item : Parser α} {Item : α → List Char → Prop}
  {stops : List Char} {start : Char → Bool}

/-- One round of `joined`: a mark that may be doubled, and an item. -/
def further (mark : String) (item : Parser α) : Parser α := do
  blanks
  token mark
  let _ ← accept mark
  blanks
  item

theorem joined_eq (mark : String) (item : Parser α) :
    joined mark item = (do return (← item) :: (← many (further mark item))) := rfl

theorem further_matched {a : α} (hm : mark.toList = [m])
    (h : (further mark item).outcome c = .matched a next) :
    ∃ w ms w' mid, c.Spans (w ++ (ms ++ w')) mid ∧ Blanks w ∧ (ms = [m] ∨ ms = [m, m]) ∧
      Blanks w' ∧ item.outcome mid = .matched a next := by
  simp only [further, bind_matched_iff, blanks_matched_iff, token_matched_iff,
    accept_matched_iff, hm] at h
  obtain ⟨-, c₁, ⟨w, hw, hblank, -⟩, -, c₂, hmark, doubled, c₃, hdoubled, -, c₄,
    ⟨w', hw', hblank', -⟩, ha⟩ := h
  obtain ⟨-, hmark'⟩ | ⟨-, rfl, -⟩ := hdoubled
  · exact ⟨w, [m] ++ [m], w', c₄, hw.trans ((hmark.trans hmark').trans hw'), hblank, .inr rfl,
      hblank', ha⟩
  · exact ⟨w, [m], w', c₄, hw.trans (hmark.trans hw'), hblank, .inl rfl, hblank', ha⟩

/-- Behind its blanks and its mark, a round is its item. -/
theorem further_outcome (hm : mark.toList = [m]) {w ms w' : List Char} {mid : Cursor}
    (hs : c.Spans (w ++ (ms ++ w')) mid) (hw : Blanks w) (hms : ms = [m] ∨ ms = [m, m])
    (hw' : Blanks w') (hb : Text.isBlank m = false) (hblank : Clear Text.isBlank mid.rest)
    (hmark : Clear (· == m) mid.rest) : (further mark item).outcome c = item.outcome mid := by
  obtain ⟨c₁, hs₁, hs⟩ := hs.split
  obtain ⟨c₂, hs₂, hs₃⟩ := hs.split
  have h₁ : Clear Text.isBlank c₁.rest := by
    rw [hs₂.1]
    rcases hms with rfl | rfl <;> exact clear_cons.mpr hb
  have h₂ : Clear (· == m) c₂.rest := by
    rw [hs₃.1]
    exact hw'.clear_eq hb hmark
  rw [further, bind_of_matched (blanks_complete hs₁ hw h₁)]
  rcases hms with rfl | rfl
  · -- a single mark is not taken for a doubled one
    have hno : ¬ mark.toList <+: c₂.rest := by
      rw [hm]
      exact h₂.not_begun
    rw [bind_of_matched (token_complete (hm ▸ hs₂)),
      bind_of_matched (accept_missing hno),
      bind_of_matched (blanks_complete hs₃ hw' hblank)]
  · obtain ⟨c', hs', hs''⟩ := Cursor.Spans.split (s := [m]) hs₂
    rw [bind_of_matched (token_complete (hm ▸ hs')),
      bind_of_matched (accept_there (hm ▸ hs'')),
      bind_of_matched (blanks_complete hs₃ hw' hblank)]

/-- No round begins where no mark follows the blanks. -/
theorem further_failed (hm : mark.toList = [m]) (h : Before stops c.rest) (hno : m ∉ stops) :
    (further mark item).outcome c = .failed := by
  have hstops : stops.any (· == m) = false := by
    rw [List.any_eq_false]
    intro x hx heq
    exact hno (beq_iff_eq.mp heq ▸ hx)
  obtain ⟨mid, hblanks, hclear⟩ := blanks_of_clearBehind (h.clearBehind hstops)
  rw [further, bind_of_matched hblanks]
  apply bind_failed
  apply token_failed
  rw [hm]
  exact hclear.not_begun

/-- Every round takes its mark at least. -/
theorem further_advances (hm : mark.toList = [m]) (hmoves : ∀ c a next,
    item.outcome c = .matched a next → ∃ s, c.Spans s next) : (further mark item).Advances := by
  apply advances_of_outcome
  intro c a next h
  obtain ⟨w, ms, w', mid, hs, -, hms, -, ha⟩ := further_matched hm h
  obtain ⟨s, hs'⟩ := hmoves _ _ _ ha
  have hlen := (hs.trans hs').length
  rcases hms with rfl | rfl <;> simp at hlen <;> omega

/-- Round by round a repetition adds items behind a first one. -/
theorem joined_of_reached (hm : mark.toList = [m])
    (hitem : ∀ {c : Cursor} {a : α} {next : Cursor}, item.outcome c = .matched a next →
      ∃ s, c.Spans s next ∧ Item a s)
    {as : List α} {mid last : Cursor} (hr : Reached (further mark item) as mid last) {a : α}
    {s : List Char} {c : Cursor} (hs : c.Spans s mid) (ha : Item a s) :
    ∃ s', c.Spans s' last ∧ Joined m Item (a :: as) s' := by
  induction hr generalizing a s c with
  | start => exact ⟨s, hs, .one ha⟩
  | step h _ ih =>
    obtain ⟨w, ms, w', mid', hs', hw, hms, hw', hb⟩ := further_matched hm h
    obtain ⟨t, ht, hb⟩ := hitem hb
    obtain ⟨t', ht', hjoined⟩ := ih ht hb
    refine ⟨s ++ (w ++ (ms ++ (w' ++ t'))), ?_, .more ha hw hms hw' hjoined⟩
    have hspan := hs.trans (hs'.trans ht')
    simpa only [List.append_assoc] using hspan

/-- What is read by items with marks is joined, whatever the items are. -/
theorem joined_sound (hm : mark.toList = [m])
    (hitem : ∀ {c : Cursor} {a : α} {next : Cursor}, item.outcome c = .matched a next →
      ∃ s, c.Spans s next ∧ Item a s)
    {as : List α} (h : (joined mark item).outcome c = .matched as next) :
    ∃ s, c.Spans s next ∧ Joined m Item as s := by
  simp only [joined_eq, bind_matched_iff, pure_matched_iff] at h
  obtain ⟨a, mid, ha, as, last, has, rfl, rfl⟩ := h
  obtain ⟨s, hs, ha⟩ := hitem ha
  exact joined_of_reached hm hitem (many_reached has) hs ha

/-- The argument about repetition, for both marks: in front of a mark an item ends, so that each
round reads the whole of one further item, and the last round stops at what no mark begins. -/
theorem joined_reads (mark : String) (m : Char) (hm : mark.toList = [m])
    (hitem : item.Reads Item (Before (m :: stops)))
    (hlead : ∀ a s, Item a s → Leads start s)
    (hblank : ∀ x, start x = true → Text.isBlank x = false) (hmark : start m = false)
    (hb : Text.isBlank m = false) (hno : m ∉ stops) :
    (joined mark item).Reads (Joined m Item) (Before stops) where
  sound h := joined_sound hm hitem.sound h
  complete {c as next s} hs hjoined hf := by
    have hadv : (further mark item).Advances := further_advances hm fun c a next h =>
      (hitem.sound h).imp fun _ h => h.1
    have hf' : Before (m :: stops) next.rest := hf.imp fun x hx => by simp [hx]
    -- a first item, and as many rounds as there are further ones
    suffices h : ∃ a others mid, as = a :: others ∧ item.outcome c = .matched a mid ∧
        (further mark item).many.outcome mid = .matched others next by
      obtain ⟨a, others, mid, rfl, ha, hothers⟩ := h
      simp only [joined_eq, bind_matched_iff, pure_matched_iff]
      exact ⟨a, mid, ha, others, next, hothers, rfl, rfl⟩
    induction hjoined generalizing c with
    | one ha =>
      exact ⟨_, [], next, rfl, hitem.complete hs ha hf', many_stops hadv (further_failed hm hf hno)⟩
    | @more a as s w ms w' t ha hw hms hw' hjoined ih =>
      obtain ⟨mid, hs₁, hs₂⟩ := hs.split
      obtain ⟨mid', hs₃, hs₄⟩ := Cursor.Spans.split (s := w ++ (ms ++ w'))
        (by simpa only [List.append_assoc] using hs₂)
      obtain ⟨b, others, mid'', rfl, hb', hothers⟩ := ih hs₄
      have ht : Leads start (t ++ next.rest) := (hjoined.leads hlead).append _
      have hround : (further mark item).outcome mid = .matched b mid'' := by
        rw [further_outcome hm hs₃ hw hms hw' hb, hb']
        · rw [hs₄.1]
          exact ht.clear hblank
        · rw [hs₄.1]
          exact ht.clear_eq hmark
      have hmid : Before (m :: stops) mid.rest := by
        rw [hs₂.1, List.append_assoc]
        apply hw.before_append
        rcases hms with rfl | rfl <;> exact before_cons (by simp) hb
      exact ⟨a, b :: others, mid, rfl, hitem.complete hs₁ ha hmid,
        many_goes_on hadv hround hothers⟩

end Joined

/-! ## Atoms -/

/-- What may follow an atom. -/
def atomStops : List Char := ['&', '|', ')', '\x7d']

/-- What may follow a conjunction. -/
def conjunctionStops : List Char := ['|', ')', '\x7d']

/-- What may follow a condition. -/
def conditionStops : List Char := [')', '\x7d']

theorem comparing_sound {a : Atom} (h : comparing.outcome c = .matched a next) :
    ∃ s, c.Spans s next ∧ a.Written s ∧ a.nesting = 0 := by
  simp only [comparing, bind_matched_iff, pure_matched_iff] at h
  obtain ⟨⟨a, op, b⟩, mid, h, rfl, rfl⟩ := h
  obtain ⟨-, s, w, o, w', t, -, -, hs, ha, hw, hop, hw', hb⟩ :=
    binary_sound operand_reads comparison_reads h
  exact ⟨_, hs, .compare ha hw hop hw' hb, rfl⟩

/-- A comparison fails behind a name if no operator follows. -/
theorem comparing_failed_of_name {name : String} {s : List Char} (hs : c.Spans s next)
    (hname : IsName name s) (hf : Clear isOperandRest next.rest)
    (hclear : ClearBehind isOperatorStart next.rest) : comparing.outcome c = .failed := by
  have hm := operand_reads.complete hs (.term (.lookup hname)) hf
  exact bind_failed (binary_failed hm comparison_failed hclear)

theorem comparing_failed (h : Clear isOperandStart c.rest) : comparing.outcome c = .failed :=
  bind_failed (bind_failed (operand_failed h))

/-- An exclamation mark is read if it is there. -/
theorem accept_bang {inverted : Bool} (h : c.Spans (bang inverted) next)
    (hno : inverted = false → Clear (· == '!') c.rest) :
    (accept "!").outcome c = .matched inverted next := by
  cases inverted with
  | true => exact accept_there h
  | false =>
    refine accept_matched_iff.mpr (.inr ⟨rfl, Cursor.spans_nil_iff.mp h, ?_⟩)
    exact (hno rfl).not_begun

theorem accept_bang_spans {inverted : Bool} (h : (accept "!").outcome c = .matched inverted next) :
    c.Spans (bang inverted) next := by
  obtain ⟨rfl, hs⟩ | ⟨rfl, rfl, -⟩ := accept_matched_iff.mp h
  · exact hs
  · exact Cursor.spans_nil _

/-- Behind an opening parenthesis, a group of nesting at most `n`. -/
def InGroup (n : Nat) : Condition → List Char → Prop :=
  Enclosed (fun t s => Condition.Written t s ∧ Condition.nesting t < n) ')'

/-- Each of the three alternatives reads a written atom, and none deeper than its group. -/
theorem atom_sound {inside : Parser Condition} {n : Nat}
    (hinside : inside.Reads (InGroup n) (fun _ => True)) {a : Atom}
    (h : (atom inside).outcome c = .matched a next) :
    ∃ s, c.Spans s next ∧ a.Written s ∧ a.nesting ≤ n := by
  simp only [atom, orElse_matched_iff, bind_matched_iff] at h
  obtain h | ⟨-, inverted, mid, hbang, h⟩ := h
  · obtain ⟨s, hs, ha, hn⟩ := comparing_sound h
    exact ⟨s, hs, ha, by omega⟩
  · have hbang' := accept_bang_spans hbang
    obtain h | ⟨-, h⟩ := h
    · simp only [presence, bind_matched_iff, pure_matched_iff, accept_matched_iff] at h
      obtain ⟨name, c₁, h, asked, c₂, hask, rfl, rfl⟩ := h
      obtain ⟨s, hs, hname⟩ := identifier_reads.sound h
      obtain ⟨-, hask⟩ | ⟨-, rfl, -⟩ := hask
      · exact ⟨_, hbang'.trans (hs.trans hask), .present inverted hname (.inr rfl), Nat.zero_le n⟩
      · exact ⟨_, hbang'.trans (hs.trans (Cursor.spans_nil _)), .present inverted hname (.inl rfl),
          Nat.zero_le n⟩
    · simp only [group, bind_matched_iff, pure_matched_iff, token_matched_iff] at h
      obtain ⟨-, c₁, hopen, inner, c₂, hinner, rfl, rfl⟩ := h
      obtain ⟨s, hs, w, u, w', hw, ⟨hu, hn⟩, hw', rfl⟩ := hinside.sound hinner
      refine ⟨_, hbang'.trans (hopen.trans hs), .group inverted hw hu hw', ?_⟩
      rw [Atom.nesting]
      omega

/-- A comparison fails where a variable is asked about. -/
theorem comparing_failed_of_present {inverted : Bool} {name : String} {s ask : List Char}
    (hs : c.Spans (bang inverted ++ (s ++ ask)) next) (hname : IsName name s)
    (hask : ask = [] ∨ ask = ['?']) (hf : Before atomStops next.rest) :
    comparing.outcome c = .failed := by
  cases inverted with
  | true =>
    -- no operand begins with the exclamation mark
    apply comparing_failed
    rw [hs.1]
    exact clear_cons.mpr rfl
  | false =>
    -- the name is read as an operand, but no operator follows
    obtain ⟨mid, hs, hask'⟩ := Cursor.Spans.split (s := s) hs
    apply comparing_failed_of_name hs hname
    · rw [hask'.1]
      rcases hask with rfl | rfl
      · exact hf.clear (fun x => operandRest_of_blank) rfl
      · exact clear_cons.mpr rfl
    · rw [hask'.1]
      rcases hask with rfl | rfl
      · exact hf.clearBehind rfl
      · exact clearBehind_cons rfl rfl

theorem presence_failed {inverted : Bool} (h : Clear isNameStart c.rest) :
    (presence inverted).outcome c = .failed := bind_failed (identifier_failed h)

/-- A name is asked about with or without the question mark. -/
theorem presence_complete {inverted : Bool} {name : String} {s ask : List Char}
    (hs : c.Spans (s ++ ask) next) (hname : IsName name s) (hask : ask = [] ∨ ask = ['?'])
    (hf : Before atomStops next.rest) :
    (presence inverted).outcome c = .matched (.present inverted name) next := by
  obtain ⟨mid, hs, hask'⟩ := hs.split
  have hmid : Clear isNameRest mid.rest := by
    rw [hask'.1]
    rcases hask with rfl | rfl
    · have hrest : Clear isOperandRest next.rest :=
        hf.clear (fun _ => operandRest_of_blank) rfl
      exact hrest.nameRest
    · exact clear_cons.mpr rfl
  rw [presence, bind_of_matched (identifier_reads.complete hs hname hmid)]
  rcases hask with rfl | rfl
  · obtain rfl := Cursor.spans_nil_iff.mp hask'
    have hno : ¬ "?".toList <+: next.rest :=
      (hf.clear_eq (x := '?') rfl (by decide)).not_begun
    rw [bind_of_matched (accept_missing hno), outcome_pure]
  · rw [bind_of_matched (accept_there hask'), outcome_pure]

/-- A written atom is read by its own alternative, since those tried before it fail: a comparison
for want of an operator or an operand, a presence for want of a name. -/
theorem atom_complete {inside : Parser Condition} {n : Nat}
    (hinside : inside.Reads (InGroup n) (fun _ => True)) {a : Atom} {s : List Char}
    (hs : c.Spans s next) (ha : a.Written s) (hn : a.nesting ≤ n)
    (hf : Before atomStops next.rest) : (atom inside).outcome c = .matched a next := by
  unfold atom
  cases ha with
  | compare ha hw hop hw' hb =>
    have hrest : Clear isOperandRest next.rest :=
      hf.clear (fun x => operandRest_of_blank) rfl
    have hm := binary_complete operand_reads comparison_reads (fun _ _ => Operand.Written.leads)
      (fun _ _ => Comparison.Spelling.leads) (fun _ => id) hs ha hw hop hw' hb hrest
    apply orElse_of_matched
    rw [comparing, bind_of_matched hm, outcome_pure]
  | @present inverted name s ask hname hask =>
    obtain ⟨mid, hbang, hs'⟩ := hs.split
    have haccept : (accept "!").outcome c = .matched inverted mid := by
      refine accept_bang hbang ?_
      rintro rfl
      rw [hs.1]
      exact ((hname.leads.append _).append _).clear_eq rfl
    rw [orElse_of_failed (comparing_failed_of_present hs hname hask hf), bind_of_matched haccept]
    exact orElse_of_matched (presence_complete hs' hname hask hf)
  | @group inverted inner w u w' hw hu hw' =>
    obtain ⟨c₁, hbang, hs⟩ := hs.split
    obtain ⟨c₂, hopen, hs⟩ := Cursor.Spans.split (s := ['(']) hs
    -- neither alternative that is tried before begins with a parenthesis
    have hc : Clear isOperandStart c.rest := by
      rw [hbang.1, hopen.1]
      exact clear_bang inverted rfl (clear_cons.mpr rfl)
    have haccept : (accept "!").outcome c = .matched inverted c₁ := by
      refine accept_bang hbang ?_
      rintro rfl
      rw [hbang.1, hopen.1]
      exact clear_cons.mpr rfl
    have hname : (presence inverted).outcome c₁ = .failed := by
      apply presence_failed
      rw [hopen.1]
      exact clear_cons.mpr rfl
    rw [Atom.nesting] at hn
    have hinner := hinside.complete hs ⟨w, u, w', hw, ⟨hu, by omega⟩, hw', rfl⟩ trivial
    rw [orElse_of_failed (comparing_failed hc), bind_of_matched haccept, orElse_of_failed hname,
      group, bind_of_matched (token_complete hopen), bind_of_matched hinner,
      outcome_pure]

theorem atom_reads {inside : Parser Condition} {n : Nat}
    (hinside : inside.Reads (InGroup n) (fun _ => True)) :
    (atom inside).Reads (fun a s => a.Written s ∧ a.nesting ≤ n) (Before atomStops) where
  sound := atom_sound hinside
  complete hs ha hf := atom_complete hinside hs ha.1 ha.2 hf

theorem atom_failed {inside : Parser Condition} (h : Clear isAtomStart c.rest) :
    (atom inside).outcome c = .failed := by
  have hoperand : Clear isOperandStart c.rest := h.imp (by simp +contextual [isAtomStart])
  have hbang : Clear (· == '!') c.rest := h.imp (by simp +contextual [isAtomStart])
  have hopen : Clear (· == '(') c.rest := h.imp (by simp +contextual [isAtomStart])
  have haccept : (accept "!").outcome c = .matched false c :=
    accept_bang (Cursor.spans_nil c) fun _ => hbang
  rw [atom, orElse_of_failed (comparing_failed hoperand), bind_of_matched haccept,
    orElse_of_failed (presence_failed hoperand.termStart.nameStart)]
  exact bind_failed (token_failed hopen.not_begun)

/-! ## Conditions -/

theorem conjunction_reads {inside : Parser Condition} {n : Nat}
    (hinside : inside.Reads (InGroup n) (fun _ => True)) :
    (conjunction inside).Reads
      (fun t s => Conjunction.Written t s ∧ Conjunction.nesting t ≤ n)
      (Before conjunctionStops) := by
  have h := joined_reads "&" '&' rfl (atom_reads hinside)
    (fun _ _ ha => ha.1.leads) (fun x => atomStart_not_blank) rfl rfl (by decide)
  refine h.imp ?_ (fun _ => id)
  intro t s
  rw [joined_and_iff, Conjunction.nesting_le_iff]
  rfl

theorem disjunction_reads {inside : Parser Condition} {n : Nat}
    (hinside : inside.Reads (InGroup n) (fun _ => True)) :
    (disjunction inside).Reads
      (fun t s => Condition.Written t s ∧ Condition.nesting t ≤ n)
      (Before conditionStops) := by
  have h := joined_reads "|" '|' rfl (conjunction_reads hinside)
    (fun _ _ ha => ha.1.leads) (fun x => atomStart_not_blank) rfl rfl (by decide)
  refine h.imp ?_ (fun _ => id)
  intro t s
  rw [joined_and_iff, Condition.nesting_le_iff]
  rfl

/-- A condition fails, at whatever depth, where no atom begins. -/
theorem condition_failed (n : Nat) (h : Clear isAtomStart c.rest) :
    (condition n).outcome c = .failed := by
  have hdisjunction : ∀ inside, (disjunction inside).outcome c = .failed := by
    intro inside
    rw [disjunction, joined_eq]
    apply bind_failed
    rw [conjunction, joined_eq]
    exact bind_failed (atom_failed h)
  cases n with
  | zero => exact hdisjunction _
  | succ n => exact hdisjunction _

/-- No group fits below the last level, and none is read there. -/
theorem tooDeep_reads_inGroup : (tooDeep : Parser Condition).Reads (InGroup 0) (fun _ => True) where
  sound h := by cases h
  complete := by
    rintro c t next s - ⟨w, u, w', -, ⟨-, hn⟩, -⟩
    exact absurd hn (Nat.not_lt_zero _)

theorem group_reads {inner : Parser Condition} {n : Nat}
    (h : inner.Reads (fun t s => Condition.Written t s ∧ Condition.nesting t ≤ n)
      (Before conditionStops)) :
    (enclosed inner ")").Reads (InGroup (n + 1)) (fun _ => True) := by
  have henclosed := enclosed_reads ")" ')' h (fun _ _ ht => ht.1.leads)
    (fun x => atomStart_not_blank) rfl (by decide) rfl
  refine henclosed.imp ?_ (fun _ => id)
  intro t s
  simp only [InGroup, Nat.lt_succ_iff]

/-- With the depth `n`, exactly the conditions of nesting at most `n` are read. -/
theorem condition_reads (n : Nat) :
    (condition n).Reads (fun t s => Condition.Written t s ∧ Condition.nesting t ≤ n)
      (Before conditionStops) := by
  induction n with
  | zero => exact disjunction_reads tooDeep_reads_inGroup
  | succ n ih => exact disjunction_reads (n := n + 1) (group_reads ih)

end Parse.Parser

/-! ## Whole texts -/

/-- Each item is written in a part of the text. -/
theorem Joined.exists_item {α : Type} {mark : Char} {Item : α → List Char → Prop} {as : List α}
    {s : List Char} (h : Joined mark Item as s) :
    ∀ a ∈ as, ∃ t, Item a t ∧ t.length ≤ s.length := by
  induction h with
  | one ha => simpa using ⟨_, ha, Nat.le_refl _⟩
  | more ha _ _ _ _ ih =>
    rw [List.forall_mem_cons]
    refine ⟨⟨_, ha, by simp⟩, ?_⟩
    intro b hb
    obtain ⟨t, ht, hlen⟩ := ih b hb
    refine ⟨t, ht, ?_⟩
    simp only [List.length_append]
    omega

/-- Groups cannot nest deeper than their text is long. -/
theorem Condition.Written.nesting_le_length {t : Condition} {s : List Char}
    (h : Condition.Written t s) : Condition.nesting t ≤ s.length := by
  -- the text inside a group is shorter than the group
  induction hn : s.length using Nat.strongRecOn generalizing t s with
  | ind n ih =>
    rw [Condition.nesting_le_iff]
    intro term hterm
    obtain ⟨s₁, h₁, hlen₁⟩ := Joined.exists_item h term hterm
    rw [Conjunction.nesting_le_iff]
    intro atom hatom
    obtain ⟨s₂, h₂, hlen₂⟩ := Joined.exists_item h₁ atom hatom
    cases h₂ with
    | compare => exact Nat.zero_le _
    | present => exact Nat.zero_le _
    | group _ _ hu _ =>
      simp only [List.length_append, List.length_cons] at hlen₂
      have := ih _ (by omega) hu rfl
      rw [Atom.nesting]
      omega

/-- A text is parsed as a condition exactly if it is within its bound, writes the condition
and the condition does not nest too deeply. -/
theorem Condition.parse_eq_ok_iff {src : String} {limits : Limits} {t : Condition} :
    Condition.parse src limits = .ok t ↔
      src.utf8ByteSize ≤ limits.maxBytes ∧ Condition.Written t src.toList ∧
        Condition.nesting t ≤ limits.maxDepth := by
  rw [Condition.parse, Parse.parse_eq_ok_iff,
    (Parser.condition_reads limits.maxDepth).whole_eq_ok_iff (before_nil _)]

/-- The written conditions are the accepted ones. -/
theorem Condition.written_iff_accepted {t : Condition} {s : List Char} :
    Condition.Written t s ↔ ∃ limits, Condition.parse (String.ofList s) limits = .ok t := by
  simp only [Condition.parse_eq_ok_iff, String.toList_ofList]
  constructor
  · intro ht
    exact ⟨⟨(String.ofList s).utf8ByteSize, Condition.nesting t⟩, Nat.le_refl _, ht, Nat.le_refl _⟩
  · rintro ⟨limits, -, ht, -⟩
    exact ht

/-- No text writes two conditions. -/
theorem Condition.Written.unique {s : List Char} {t t' : Condition} (h : Condition.Written t s)
    (h' : Condition.Written t' s) : t = t' := by
  -- a depth that suffices for both
  have hreads := Parser.condition_reads (max (Condition.nesting t) (Condition.nesting t'))
  exact hreads.unique (before_nil _) ⟨h, Nat.le_max_left ..⟩ ⟨h', Nat.le_max_right ..⟩

/-- A text is parsed as the condition that it writes, and as nothing else: under any limits if
the condition nests no deeper than they allow, and so under all that are as large as the text.
There is at most one such condition. -/
theorem condition_parse_iff_written (src : String) (limits : Limits) (t : Condition) :
    (Condition.parse src limits = .ok t ↔
      src.utf8ByteSize ≤ limits.maxBytes ∧ Condition.Written t src.toList ∧
        Condition.nesting t ≤ limits.maxDepth) ∧
    (src.utf8ByteSize ≤ limits.maxBytes → src.utf8ByteSize ≤ limits.maxDepth →
      (Condition.parse src limits = .ok t ↔ Condition.Written t src.toList)) ∧
    ∀ t', Condition.Written t src.toList → Condition.Written t' src.toList → t = t' := by
  refine ⟨Condition.parse_eq_ok_iff, ?_, fun _ => Condition.Written.unique⟩
  intro hbytes hdepth
  rw [Condition.parse_eq_ok_iff]
  constructor
  · rintro ⟨-, ht, -⟩
    exact ht
  · intro ht
    have hn := ht.nesting_le_length
    have hlen := length_le_utf8ByteSize src
    exact ⟨hbytes, ht, by omega⟩

theorem condition_parse_bang_or_group :
    Condition.parse "!a?|| (b &c)" {} =
        .ok [[.present true "a"], [.group false [[.present false "b", .present false "c"]]]] ∧
      ∀ t, Condition.Written t "!a?|| (b &c)".toList →
        [[.present true "a"], [.group false [[.present false "b", .present false "c"]]]] = t := by
  have hname : ∀ x : Char, isNameStart x = true → IsName (String.ofList [x]) [x] :=
    fun x hx => isName_iff.mpr ⟨x, [], rfl, hx, by simp, rfl⟩
  have ha : Atom.Written (.present true "a") ['!', 'a', '?'] :=
    .present true (hname 'a' rfl) (.inr rfl)
  have hb : Atom.Written (.present false "b") ['b'] :=
    .present false (hname 'b' rfl) (.inl rfl)
  have hc : Atom.Written (.present false "c") ['c'] :=
    .present false (hname 'c' rfl) (.inl rfl)
  have hblank : Blanks [' '] := by decide
  have hinner : Condition.Written [[.present false "b", .present false "c"]] ['b', ' ', '&', 'c'] :=
    .one (.more hb hblank (.inl rfl) blanks_nil (.one hc))
  have hgroup := Atom.Written.group false blanks_nil hinner blanks_nil
  have hfirst : Conjunction.Written [.present true "a"] ['!', 'a', '?'] := .one ha
  have hlast : Condition.Written [[.group false [[.present false "b", .present false "c"]]]]
      ['(', 'b', ' ', '&', 'c', ')'] := .one (.one hgroup)
  have hwritten : Condition.Written _ _ :=
    Joined.more hfirst blanks_nil (.inr rfl) hblank hlast
  have hmain := condition_parse_iff_written "!a?|| (b &c)" {}
    [[.present true "a"], [.group false [[.present false "b", .present false "c"]]]]
  exact ⟨(hmain.2.1 (by decide) (by decide)).mpr hwritten, fun t => hmain.2.2 t hwritten⟩

end Stencil

/-
# Stencil.Proofs.Template.Reading -- templates as they are read

The parser of templates with the depth `n` reads exactly the written templates whose
nesting is at most `n`, wherever the text ends behind them or the next branch or the end
of a chain follows. It never fails; that a text is no template shows in what is left.

One level of the recursion is proved over any parsers that read conditions and
templates (`chain_reads`, `nodes_reads`), and `template_reads` climbs the levels. In a
chain, the branch without a test is at first taken for one with a test. That reading
fails and is not fatal, because no condition begins with a closing brace
(`another_failed`).
-/
import Stencil.Proofs.Expression.Condition
import Stencil.Proofs.Template.Literal

namespace Stencil

open Parse

/-! ## How the texts begin -/

/-- What may follow a template: the end of the text, or of a branch. -/
def TemplateEnds (rest : List Char) : Prop :=
  rest = [] ∨ ['\x7b', '|'] <+: rest ∨ ['\x7b', '.', '\x7d'] <+: rest

/-- Literals end wherever a template does. -/
theorem TemplateEnds.stops {rest : List Char} (h : TemplateEnds rest) : Stops rest := by
  obtain h | h | h := h
  · exact .inl h
  · exact .inr (Parser.atOpener_iff.mpr ⟨_, by simp [Parser.openers], h⟩)
  · exact .inr (Parser.atOpener_iff.mpr ⟨_, by simp [Parser.openers], h⟩)

theorem Node.Written.ne_nil {node : Node} {s : List Char} (h : node.Written s) : s ≠ [] := by
  cases h with
  | literal h => exact h.1
  | substitution => simp
  | conditional => simp

/-- Every other node begins with an opener. -/
theorem Node.Written.stops {node : Node} {s : List Char} (h : node.Written s)
    (hno : node.isLiteral = false) (rest : List Char) : Stops (s ++ rest) := by
  cases h with
  | literal => cases hno
  | substitution => exact .inr (by simp [Parser.atOpener, Parser.openers])
  | conditional => exact .inr (by simp [Parser.atOpener, Parser.openers])

/-- A template that begins without a literal begins where literals end. -/
theorem Template.Written.stops {t : Template} {s rest : List Char} (h : Template.Written t s)
    (hno : Template.beginsLiteral t = false) (hends : TemplateEnds rest) : Stops (s ++ rest) := by
  cases h with
  | nil => exact hends.stops
  | cons hnode _ _ =>
    rw [List.append_assoc]
    exact hnode.stops hno _

/-- Behind a branch, whatever comes next ends its body. -/
theorem Chain.Rest.templateEnds {rest : Chain} {u : List Char} (h : Chain.Rest rest u)
    (tail : List Char) : TemplateEnds (u ++ tail) := by
  cases h with
  | further => exact .inr (.inl ⟨_, rfl⟩)
  | otherwise => exact .inr (.inl ⟨_, rfl⟩)
  | done => exact .inr (.inr ⟨_, rfl⟩)

namespace Parse.Parser

variable {c next : Cursor} {n : Nat} {test : Parser Condition} {body : Parser Template}
  {inside : Parser Chain}

/-! ## Branches -/

/-- One more branch with a test, in front of which stands its opener. -/
def another (test : Parser Condition) (body : Parser Template) : Parser (Condition × Template) := do
  token "\x7b|"
  branch test body

/-- A branch without a test. -/
def lastBranch (body : Parser Template) : Parser Template := do
  token "\x7b|\x7d"
  body

theorem chain_eq : chain test body = (do
    let first ← branch test body
    let others ← many (another test body)
    let last ← optional (lastBranch body)
    token "\x7b.\x7d"
    return .ofBranches (first :: others) last) := rfl

/-- What is asked of the parsers for tests and bodies, so that they nest at most `n` deep. -/
structure ReadsBranches (n : Nat) (test : Parser Condition) (body : Parser Template) : Prop where
  test_reads : test.Reads (fun t s => Condition.Written t s ∧ Condition.nesting t ≤ n)
    (Before conditionStops)
  body_reads : body.Reads (fun t s => Template.Written t s ∧ Template.nesting t ≤ n) TemplateEnds
  /-- No test begins with a closing brace, at whatever depth. -/
  test_failed {c : Cursor} : Clear isAtomStart c.rest → test.outcome c = .failed

theorem ReadsBranches.enclosed (h : ReadsBranches n test body) :
    (enclosed test "\x7d").Reads
      (Enclosed (fun t s => Condition.Written t s ∧ Condition.nesting t ≤ n) '\x7d')
      (fun _ => True) :=
  enclosed_reads "\x7d" '\x7d' h.test_reads (fun _ _ ht => ht.1.leads)
    (fun _ => atomStart_not_blank) rfl (by decide) rfl

/-- A branch that was read is a test up to its brace and a body, neither nested too deeply. -/
theorem branch_sound (h : ReadsBranches n test body) {t : Condition} {b : Template}
    (hm : (branch test body).outcome c = .matched (t, b) next) :
    ∃ s u, c.Spans (s ++ u) next ∧ Enclosed Condition.Written '\x7d' t s ∧
      Template.Written b u ∧ Condition.nesting t ≤ n ∧ Template.nesting b ≤ n := by
  simp only [branch, bind_matched_iff, pure_matched_iff] at hm
  obtain ⟨t', mid, ht, b', last, hb, heq, rfl⟩ := hm
  cases heq
  obtain ⟨s, hs, w, v, w', hw, ⟨hv, ht⟩, hw', rfl⟩ := h.enclosed.sound ht
  obtain ⟨u, hu, hb, hbn⟩ := h.body_reads.sound hb
  exact ⟨_, u, hs.trans hu, ⟨w, v, w', hw, hv, hw', rfl⟩, hb, ht, hbn⟩

/-- A branch is read to its end if something follows that ends its body. -/
theorem branch_complete (h : ReadsBranches n test body) {t : Condition} {b : Template}
    {s u : List Char} (hs : c.Spans (s ++ u) next) (ht : Enclosed Condition.Written '\x7d' t s)
    (hb : Template.Written b u) (htn : Condition.nesting t ≤ n) (hbn : Template.nesting b ≤ n)
    (hf : TemplateEnds next.rest) : (branch test body).outcome c = .matched (t, b) next := by
  obtain ⟨mid, hs, hu⟩ := hs.split
  obtain ⟨w, v, w', hw, hv, hw', rfl⟩ := ht
  have hm := h.enclosed.complete hs ⟨w, v, w', hw, ⟨hv, htn⟩, hw', rfl⟩ trivial
  rw [branch, bind_of_matched hm, bind_of_matched (h.body_reads.complete hu ⟨hb, hbn⟩ hf),
    outcome_pure]

/-! ## Chains -/

theorem another_advances (h : ReadsBranches n test body) : (another test body).Advances := by
  apply advances_of_outcome
  rintro c ⟨t, b⟩ next hm
  simp only [another, bind_matched_iff, token_matched_iff] at hm
  obtain ⟨-, mid, hopen, hm⟩ := hm
  obtain ⟨s, u, hs, -⟩ := branch_sound h hm
  have hlen := (hopen.trans hs).length
  simp at hlen
  omega

/-- A branch without a test is not taken for one with a test. -/
theorem another_failed_of_last (h : ReadsBranches n test body) {rest : List Char}
    (hrest : c.rest = '\x7b' :: '|' :: '\x7d' :: rest) :
    (another test body).outcome c = .failed := by
  have hopen : c.Spans "\x7b|".toList (c.advance 2 ('\x7d' :: rest)) := Cursor.spans_advance hrest
  have hclear : ∀ p : Char → Bool, p '\x7d' = false → Clear p (c.advance 2 ('\x7d' :: rest)).rest :=
    fun p hp => clear_cons.mpr hp
  -- the opener of a further branch is there, but no test behind it
  rw [another, bind_of_matched (token_complete hopen), branch]
  apply bind_failed
  rw [enclosed, bind_of_matched (blanks_complete (Cursor.spans_nil _) blanks_nil
    (hclear _ rfl))]
  exact bind_failed (h.test_failed (hclear _ rfl))

/-- The branches that a repetition has read stand in front of what ends the chain. -/
theorem rest_of_reached (h : ReadsBranches n test body) {bs : List (Condition × Template)}
    {last : Option Template} {mid : Cursor} (hr : Reached (another test body) bs c mid)
    (hend : ∃ u, mid.Spans u next ∧ Chain.Rest (.ofBranches [] last) u ∧
      Chain.nesting (.ofBranches [] last) ≤ n) :
    ∃ u, c.Spans u next ∧ Chain.Rest (.ofBranches bs last) u ∧
      Chain.nesting (.ofBranches bs last) ≤ n := by
  induction hr with
  | start => exact hend
  | @step b bs c mid' mid hb _ ih =>
    obtain ⟨u, hu, hrest, hn⟩ := ih hend
    simp only [another, bind_matched_iff, token_matched_iff] at hb
    obtain ⟨-, c₁, hopen, hb⟩ := hb
    obtain ⟨s, t, hs, ht, hbody, htn, hbn⟩ := branch_sound h hb
    have hrest' : Chain.Rest (.branch b.1 b.2 (.ofBranches bs last))
        ('\x7b' :: '|' :: (s ++ (t ++ u))) := .further (.branch ht hbody hrest)
    refine ⟨_, ?_, hrest', ?_⟩
    · have hspan := hopen.trans (hs.trans hu)
      rwa [List.append_assoc] at hspan
    · show Chain.nesting (.branch b.1 b.2 (.ofBranches bs last)) ≤ n
      rw [Chain.nesting]
      omega

/-- What is read behind all branches with a test can end a chain, once it is closed. -/
theorem lastly_sound (h : ReadsBranches n test body) {last : Option Template}
    (hm : (optional (lastBranch body)).outcome c = .matched last next) :
    ∃ u, c.Spans u next ∧ Chain.Rest (.ofBranches [] last) (u ++ ['\x7b', '.', '\x7d']) ∧
      Chain.nesting (.ofBranches [] last) ≤ n := by
  simp only [optional, orElse_matched_iff, map_matched_iff, pure_matched_iff, lastBranch,
    bind_matched_iff, token_matched_iff] at hm
  obtain ⟨b, ⟨-, c₁, hopen, hb⟩, rfl⟩ | ⟨-, rfl, rfl⟩ := hm
  · obtain ⟨t, ht, hbody, hn⟩ := h.body_reads.sound hb
    exact ⟨_, hopen.trans ht, .otherwise hbody, hn⟩
  · exact ⟨[], Cursor.spans_nil _, .done, Nat.zero_le n⟩

/-- Behind a branch, the rest of a chain is read from `c` up to `next`. -/
def RestRead (test : Parser Condition) (body : Parser Template) (rest : Chain) (c next : Cursor) :
    Prop :=
  ∃ bs last mid mid', rest = .ofBranches bs last ∧
    (another test body).many.outcome c = .matched bs mid ∧
    (optional (lastBranch body)).outcome mid = .matched last mid' ∧
    mid'.Spans ['\x7b', '.', '\x7d'] next

theorem RestRead.branch (h : ReadsBranches n test body) {t : Condition} {b : Template}
    {rest : Chain} {mid : Cursor} (hb : (another test body).outcome c = .matched (t, b) mid)
    (hrest : RestRead test body rest mid next) : RestRead test body (.branch t b rest) c next := by
  obtain ⟨bs, last, mid₁, mid₂, rfl, hmany, hlast, hclose⟩ := hrest
  exact ⟨(t, b) :: bs, last, mid₁, mid₂, rfl, many_goes_on (another_advances h) hb hmany, hlast,
    hclose⟩

theorem RestRead.otherwise (h : ReadsBranches n test body) {b : Template} {t : List Char}
    (hs : c.Spans ('\x7b' :: '|' :: '\x7d' :: (t ++ ['\x7b', '.', '\x7d'])) next)
    (hb : Template.Written b t) (hn : Template.nesting b ≤ n) :
    RestRead test body (.otherwise b) c next := by
  have hfail := another_failed_of_last h hs.1
  obtain ⟨c₁, hopen, hs⟩ := Cursor.Spans.split (s := ['\x7b', '|', '\x7d']) hs
  obtain ⟨c₂, hbody, hclose⟩ := hs.split
  have hends : TemplateEnds c₂.rest := by
    rw [hclose.1]
    exact Chain.Rest.done.templateEnds _
  -- no further branch, then the one without a test
  refine ⟨[], some b, c, c₂, rfl, many_stops (another_advances h) hfail, ?_, hclose⟩
  apply orElse_of_matched
  apply map_of_matched
  rw [lastBranch, bind_of_matched (token_complete hopen)]
  exact h.body_reads.complete hbody ⟨hb, hn⟩ hends

theorem RestRead.done (h : ReadsBranches n test body)
    (hs : c.Spans ['\x7b', '.', '\x7d'] next) : RestRead test body .done c next := by
  have hanother : (another test body).outcome c = .failed := by
    refine bind_failed (token_failed ?_)
    rw [hs.1]
    simp
  have hlast : (lastBranch body).outcome c = .failed := by
    refine bind_failed (token_failed ?_)
    rw [hs.1]
    simp
  refine ⟨[], none, c, c, rfl, many_stops (another_advances h) hanother, ?_, hs⟩
  rw [optional, orElse_of_failed (map_failed hlast), outcome_pure]

/-- The rest of a chain is read branch by branch, up to its end. -/
theorem rest_complete (h : ReadsBranches n test body) : (rest : Chain) → {c : Cursor} →
    {u : List Char} → c.Spans u next → Chain.Rest rest u → Chain.nesting rest ≤ n →
    RestRead test body rest c next
  | .branch t b rest, c, _, hs, hrest, hn => by
    obtain ⟨hchain⟩ := hrest
    cases hchain with
    | @branch _ _ _ s v u ht hb hrest =>
      obtain ⟨c₁, hopen, hs⟩ := Cursor.Spans.split (s := ['\x7b', '|']) hs
      obtain ⟨c₂, hbranch, hu⟩ := Cursor.Spans.split (s := s ++ v)
        (by rw [List.append_assoc]; exact hs)
      rw [Chain.nesting, Nat.max_le, Nat.max_le] at hn
      obtain ⟨htn, hbn, hn⟩ := hn
      have hends : TemplateEnds c₂.rest := by
        rw [hu.1]
        exact hrest.templateEnds _
      refine RestRead.branch h ?_ (rest_complete h rest hu hrest hn)
      rw [another, bind_of_matched (token_complete hopen)]
      exact branch_complete h hbranch ht hb htn hbn hends
  | .otherwise _, _, _, hs, hrest, hn => by
    cases hrest with
    | further hchain => cases hchain
    | otherwise hb => exact .otherwise h hs hb hn
  | .done, _, _, hs, hrest, _ => by
    cases hrest with
    | further hchain => cases hchain
    | done => exact .done h hs

/-- Behind the opener of a conditional, a chain of nesting less than `n`. -/
def InChain (n : Nat) (chain : Chain) (s : List Char) : Prop :=
  Chain.Written chain s ∧ Chain.nesting chain < n

/-- A chain nests as deeply as its tests and bodies, and its end needs nothing to follow. -/
theorem chain_reads (h : ReadsBranches n test body) :
    (chain test body).Reads (InChain (n + 1)) (fun _ => True) where
  sound {c chain next} hm := by
    simp only [chain_eq, bind_matched_iff, pure_matched_iff, token_matched_iff] at hm
    obtain ⟨⟨t, b⟩, c₁, hb, bs, c₂, hmany, last, c₃, hlast, -, c₄, hclose, rfl, rfl⟩ := hm
    obtain ⟨s, u, hs, ht, hb, htn, hbn⟩ := branch_sound h hb
    obtain ⟨w, hw, hend, hnend⟩ := lastly_sound h hlast
    obtain ⟨v, hv, hrest, hn⟩ := rest_of_reached h (many_reached hmany)
      ⟨_, hw.trans hclose, hend, hnend⟩
    have hspan := hs.trans hv
    rw [List.append_assoc] at hspan
    refine ⟨_, hspan, .branch ht hb hrest, ?_⟩
    show Chain.nesting (.branch t b (.ofBranches bs last)) < n + 1
    rw [Chain.nesting]
    omega
  complete {c chain next s} hs hchain _ := by
    obtain ⟨hchain, hn⟩ := hchain
    cases hchain with
    | @branch t b rest s v u ht hb hrest =>
      obtain ⟨mid, hbranch, hu⟩ := Cursor.Spans.split (s := s ++ v)
        (by rw [List.append_assoc]; exact hs)
      rw [Chain.nesting] at hn
      have hends : TemplateEnds mid.rest := by
        rw [hu.1]
        exact hrest.templateEnds _
      obtain ⟨bs, last, c₂, c₃, rfl, hmany, hlast, hclose⟩ :=
        rest_complete h rest hu hrest (by omega)
      have hfirst := branch_complete h hbranch ht hb (by omega) (by omega) hends
      rw [chain_eq, bind_of_matched hfirst, bind_of_matched hmany, bind_of_matched hlast,
        bind_of_matched (token_complete hclose), outcome_pure]
      rfl

/-! ## Nodes -/

/-- A substitution is read just if an expression stands between its braces. -/
theorem substitution_matched_iff {node : Node} :
    substitution.outcome c = .matched node next ↔
      ∃ e s, c.Spans ('\x7b' :: '=' :: s) next ∧ Enclosed Expression.Written '\x7d' e s ∧
        node = .substitution e := by
  have hreads := enclosed_reads "\x7d" '\x7d' expression_reads (fun _ _ => Expression.Written.leads)
    (fun _ => operandStart_not_blank) rfl (by decide) rfl
  simp only [substitution, bind_matched_iff, token_matched_iff, map_matched_iff]
  constructor
  · rintro ⟨-, mid, hopen, e, he, rfl⟩
    obtain ⟨s, hs, he⟩ := hreads.sound he
    exact ⟨e, s, hopen.trans hs, he, rfl⟩
  · rintro ⟨e, s, hs, he, rfl⟩
    obtain ⟨mid, hopen, hs⟩ := Cursor.Spans.split (s := ['\x7b', '=']) hs
    exact ⟨(), mid, hopen, e, hreads.complete hs he trivial, rfl⟩

theorem substitution_failed (h : ¬ ['\x7b', '='] <+: c.rest) : substitution.outcome c = .failed :=
  bind_failed (token_failed h)

/-- Each kind of node is read as itself. Only a literal depends on what follows, where it must
stop. -/
theorem node_matched_iff (hinside : inside.Reads (InChain n) (fun _ => True)) {a : Node} :
    (node inside).outcome c = .matched a next ↔
      ∃ s, c.Spans s next ∧ a.Written s ∧ a.nesting ≤ n ∧
        (a.isLiteral = true → Stops next.rest) := by
  simp only [node, orElse_matched_iff, literal_matched_iff, substitution_matched_iff,
    bind_matched_iff, token_matched_iff, map_matched_iff]
  constructor
  · rintro (⟨s, hs, hlit, hstop, rfl⟩ | ⟨-, ⟨e, s, hs, he, rfl⟩ |
      ⟨-, -, mid, hopen, chain, hchain, rfl⟩⟩)
    · exact ⟨s, hs, .literal hlit, Nat.zero_le n, fun _ => hstop⟩
    · exact ⟨_, hs, .substitution he, Nat.zero_le n, nofun⟩
    · obtain ⟨s, hs, hchain, hn⟩ := hinside.sound hchain
      exact ⟨_, hopen.trans hs, .conditional hchain, hn, nofun⟩
  · rintro ⟨s, hs, ha, hn, hstop⟩
    -- each kind of node stops the readers that are tried before its own
    cases ha with
    | literal hlit => exact .inl ⟨s, hs, hlit, hstop rfl, rfl⟩
    | substitution he =>
      refine .inr ⟨literal_failed ?_, .inl ⟨_, _, hs, he, rfl⟩⟩
      rw [hs.1]
      exact Node.Written.stops (.substitution he) rfl _
    | conditional hchain =>
      have hliteral : literal.outcome c = .failed := by
        apply literal_failed
        rw [hs.1]
        exact Node.Written.stops (.conditional hchain) rfl _
      have hsubstitution : substitution.outcome c = .failed := by
        apply substitution_failed
        rw [hs.1]
        simp
      obtain ⟨mid, hopen, hs⟩ := Cursor.Spans.split (s := ['\x7b', '?']) hs
      exact .inr ⟨hliteral, .inr ⟨hsubstitution, (), mid, hopen, _,
        hinside.complete hs ⟨hchain, hn⟩ trivial, rfl⟩⟩

theorem node_failed (h : TemplateEnds c.rest) : (node inside).outcome c = .failed := by
  have hno : ∀ x, x = '=' ∨ x = '?' → ¬ ['\x7b', x] <+: c.rest := by
    rintro x hx ⟨rest, hrest⟩
    rw [← hrest] at h
    rcases hx with rfl | rfl <;> simp [TemplateEnds] at h
  rw [node, orElse_of_failed (literal_failed h.stops),
    orElse_of_failed (substitution_failed (hno _ (.inl rfl)))]
  exact bind_failed (token_failed (hno _ (.inr rfl)))

theorem node_advances (hinside : inside.Reads (InChain n) (fun _ => True)) :
    (node inside).Advances := by
  apply advances_of_outcome
  intro c a next h
  obtain ⟨s, hs, ha, -⟩ := (node_matched_iff hinside).mp h
  have hlen := hs.length
  have hpos := List.length_pos_iff.mpr ha.ne_nil
  omega

/-! ## Templates -/

/-- The nodes that a repetition has read make up a template: no two literals stand next to each
other. -/
theorem template_of_reached (hinside : inside.Reads (InChain n) (fun _ => True)) {t : Template}
    (hr : Reached (node inside) t c next) :
    ∃ s, c.Spans s next ∧ Template.Written t s ∧ Template.nesting t ≤ n := by
  induction hr with
  | start c => exact ⟨[], Cursor.spans_nil c, .nil, Nat.zero_le n⟩
  | @step a t c mid last ha hr ih =>
    obtain ⟨s, hs, ha, han, hstop⟩ := (node_matched_iff hinside).mp ha
    obtain ⟨u, hu, ht, htn⟩ := ih
    refine ⟨s ++ u, hs.trans hu, .cons ha ht ?_, Nat.max_le.mpr ⟨han, htn⟩⟩
    -- the first literal would not have ended in front of a second
    intro hlit
    cases hr with
    | start => rfl
    | @step b t _ mid' _ hb _ =>
      obtain ⟨v, hv, hb, -, hstop'⟩ := (node_matched_iff hinside).mp hb
      show b.isLiteral = false
      cases hb with
      | literal hlit' =>
        have hno := hlit'.not_stops (hstop' rfl)
        rw [← hv.1] at hno
        exact absurd (hstop hlit) hno
      | substitution => rfl
      | conditional => rfl

/-- Templates are read in front of whatever ends them. -/
theorem nodes_reads (hinside : inside.Reads (InChain n) (fun _ => True)) :
    (many (node inside)).Reads (fun t s => Template.Written t s ∧ Template.nesting t ≤ n)
      TemplateEnds where
  sound h := template_of_reached hinside (many_reached h)
  complete {c t next s} hs ht hf := by
    obtain ⟨ht, hn⟩ := ht
    refine many_of_reached (node_advances hinside) ?_ (node_failed hf)
    -- node by node; no literal follows a literal, so that each ends where its successor begins
    induction t generalizing c s with
    | nil =>
      cases ht
      rw [Cursor.spans_nil_iff.mp hs]
      exact .start _
    | cons a t ih =>
      cases ht with
      | @cons _ _ s u ha ht hlit =>
        obtain ⟨mid, hs, hu⟩ := hs.split
        obtain ⟨han, htn⟩ := Nat.max_le.mp hn
        refine .step ((node_matched_iff hinside).mpr ⟨s, hs, ha, han, ?_⟩) (ih hu ht htn)
        intro h
        rw [hu.1]
        exact ht.stops (hlit h) hf

theorem tooDeep_reads_inChain : (tooDeep : Parser Chain).Reads (InChain 0) (fun _ => True) where
  sound h := by cases h
  complete := by
    rintro c chain next s - ⟨-, hn⟩
    exact absurd hn (Nat.not_lt_zero _)

/-- With the depth `n`, exactly the templates of nesting at most `n` are read. -/
theorem template_reads (n : Nat) :
    (template n).Reads (fun t s => Template.Written t s ∧ Template.nesting t ≤ n) TemplateEnds := by
  induction n with
  | zero => exact nodes_reads tooDeep_reads_inChain
  | succ n ih => exact nodes_reads (chain_reads ⟨condition_reads n, ih, condition_failed n⟩)

end Parse.Parser

/-! ## Whole texts -/

theorem Enclosed.length {α : Type} {L : α → List Char → Prop} {close : Char} {a : α}
    {s : List Char} (h : Enclosed L close a s) : ∃ u, L a u ∧ u.length < s.length := by
  obtain ⟨w, u, w', -, ha, -, rfl⟩ := h
  refine ⟨u, ha, ?_⟩
  simp only [List.length_append, List.length_singleton]
  omega

mutual

theorem Node.Written.nesting_le_length {node : Node} {s : List Char} :
    node.Written s → node.nesting ≤ s.length
  | .literal _ => Nat.zero_le _
  | .substitution _ => Nat.zero_le _
  | .conditional h => by
    have := Chain.Written.nesting_le_length h
    simp only [Node.nesting, List.length_cons]
    omega

theorem Chain.Written.nesting_le_length {chain : Chain} {s : List Char} :
    Chain.Written chain s → chain.nesting ≤ s.length
  | .branch ht hb hrest => by
    obtain ⟨u, ht, hlen⟩ := ht.length
    have := ht.nesting_le_length
    have := Template.Written.nesting_le_length hb
    have := Chain.Rest.nesting_le_length hrest
    simp only [Chain.nesting, List.length_append]
    omega

theorem Chain.Rest.nesting_le_length {rest : Chain} {u : List Char} :
    Chain.Rest rest u → rest.nesting ≤ u.length
  | .further h => by
    have := Chain.Written.nesting_le_length h
    simp only [List.length_cons]
    omega
  | .otherwise h => by
    have := Template.Written.nesting_le_length h
    simp only [Chain.nesting, List.length_cons, List.length_append]
    omega
  | .done => Nat.zero_le _

/-- Conditionals and groups cannot nest deeper than their text is long. -/
theorem Template.Written.nesting_le_length {t : Template} {s : List Char} :
    Template.Written t s → Template.nesting t ≤ s.length
  | .nil => Nat.zero_le _
  | .cons h ht _ => by
    have := Node.Written.nesting_le_length h
    have := Template.Written.nesting_le_length ht
    simp only [Template.nesting, List.length_append]
    omega

end

/-- A text is parsed as a template exactly if it is within its bound, writes the template
and the template does not nest too deeply. -/
theorem Template.parse_eq_ok_iff {src : String} {limits : Limits} {t : Template} :
    Template.parse src limits = .ok t ↔
      src.utf8ByteSize ≤ limits.maxBytes ∧ Template.Written t src.toList ∧
        Template.nesting t ≤ limits.maxDepth := by
  rw [Template.parse, Parse.parse_eq_ok_iff,
    (Parser.template_reads limits.maxDepth).whole_eq_ok_iff (.inl rfl)]

/-- No text writes two templates. -/
theorem Template.Written.unique {s : List Char} {t t' : Template} (h : Template.Written t s)
    (h' : Template.Written t' s) : t = t' := by
  -- a depth that suffices for both
  have hreads := Parser.template_reads (max (Template.nesting t) (Template.nesting t'))
  exact hreads.unique (.inl rfl) ⟨h, Nat.le_max_left ..⟩ ⟨h', Nat.le_max_right ..⟩

/-- A text is parsed as the template that it writes, and as nothing else: under any limits if
the template nests no deeper than they allow, and so under all that are as large as the text.
There is at most one such template. What stands in its directives are just the texts that are
accepted by themselves. -/
theorem template_parse_iff_written (src : String) (limits : Limits) (t : Template) :
    (Template.parse src limits = .ok t ↔
      src.utf8ByteSize ≤ limits.maxBytes ∧ Template.Written t src.toList ∧
        Template.nesting t ≤ limits.maxDepth) ∧
    (src.utf8ByteSize ≤ limits.maxBytes → src.utf8ByteSize ≤ limits.maxDepth →
      (Template.parse src limits = .ok t ↔ Template.Written t src.toList)) ∧
    (∀ t', Template.Written t src.toList → Template.Written t' src.toList → t = t') ∧
    (∀ e s, Expression.Written e s ↔
      ∃ limits, Expression.parse (String.ofList s) limits = .ok e) ∧
    ∀ test s, Condition.Written test s ↔
      ∃ limits, Condition.parse (String.ofList s) limits = .ok test := by
  refine ⟨Template.parse_eq_ok_iff, ?_, fun _ => Template.Written.unique,
    fun _ _ => Expression.written_iff_accepted, fun _ _ => Condition.written_iff_accepted⟩
  intro hbytes hdepth
  rw [Template.parse_eq_ok_iff]
  constructor
  · rintro ⟨-, ht, -⟩
    exact ht
  · intro ht
    have hn := ht.nesting_le_length
    have hlen := length_le_utf8ByteSize src
    exact ⟨hbytes, ht, by omega⟩

theorem template_parse_else_branch :
    let t : Template := [.literal "a\x7b", .conditional (.branch [[.present false "b"]]
      [.substitution (.operand (.text "\x7d"))] (.otherwise [.literal "c"]))]
    Template.parse "a\x7b\x7b?b\x7d\x7b=\"\x7d\" \x7d\x7b|\x7dc\x7b.\x7d" {} = .ok t ∧
      ∀ t', Template.Written t' "a\x7b\x7b?b\x7d\x7b=\"\x7d\" \x7d\x7b|\x7dc\x7b.\x7d".toList →
        t = t' := by
  intro t
  have hb : IsName "b" ['b'] := isName_iff.mpr ⟨'b', [], rfl, by decide, by simp, rfl⟩
  have htest : Condition.Written [[.present false "b"]] ['b'] :=
    .one (.one (.present false hb (.inl rfl)))
  have hquoted : Expression.Written (.operand (.text "\x7d")) ['"', '\x7d', '"'] :=
    .text ⟨by decide, by decide, rfl⟩
  have hinsert : Node.Written (.substitution (.operand (.text "\x7d")))
      ['\x7b', '=', '"', '\x7d', '"', ' ', '\x7d'] :=
    .substitution ⟨[], _, [' '], blanks_nil, hquoted, by decide, rfl⟩
  have hliteral : ∀ s, s ≠ [] → Plain s [] → Node.Written (.literal (String.ofList s)) s :=
    fun s hne hs => .literal ⟨hne, (Parser.plain_iff (.inl rfl)).mp hs⟩
  have hfirst := hliteral ['a', '\x7b'] (by simp) ⟨rfl, rfl, trivial⟩
  have hlast := hliteral ['c'] (by simp) ⟨rfl, trivial⟩
  have hchain := Chain.Written.branch ⟨[], _, [], blanks_nil, htest, blanks_nil, rfl⟩
    (.cons hinsert .nil (by simp [Node.isLiteral])) (.otherwise (.cons hlast .nil fun _ => rfl))
  have hwritten := Template.Written.cons hfirst
    (.cons (.conditional hchain) .nil (by simp [Node.isLiteral])) fun _ => rfl
  have hmain :=
    template_parse_iff_written "a\x7b\x7b?b\x7d\x7b=\"\x7d\" \x7d\x7b|\x7dc\x7b.\x7d" {} t
  exact ⟨(hmain.2.1 (by decide) (by decide)).mpr hwritten, fun t' => hmain.2.2.1 t' hwritten⟩

end Stencil

/-
# Stencil.Proofs.Completion.Template -- completing templates

A template is completed by a directive, for literal text is never missing. Inside a chain
this is done branch by branch: a chain that has been read up to some branch is *open*, it
can still be ended in every way in which a chain can end (`OpenChain`), and each note in
a later branch is completed to one of these ends.
-/
import Stencil.Proofs.Completion.Expression
import Stencil.Proofs.Template.Reading

namespace Stencil

open Parse

/-! ## Longer templates and chains -/

/-- One node more, if it is no literal. -/
theorem Template.Written.snoc {t : Template} {node : Node} {s u : List Char}
    (h : Template.Written t s) (hnode : node.Written u) (hno : node.isLiteral = false) :
    Template.Written (t ++ [node]) (s ++ u) := by
  induction t generalizing s with
  | nil =>
    cases h
    have h := Template.Written.cons hnode .nil (by simp [hno])
    rwa [List.append_nil] at h
  | cons first t ih =>
    cases h with
    | @cons _ _ s₁ s₂ hfirst ht hlit =>
      rw [List.append_assoc]
      refine .cons hfirst (ih ht) ?_
      intro h
      cases t with
      | nil => exact hno
      | cons second t => exact hlit h

/-- The text of the branches of a chain up to one of them: however a chain may end behind a
branch, this one may. -/
def OpenChain (s : List Char) : Prop :=
  ∀ rest u, Chain.Rest rest u → ∃ chain, Chain.Written chain (s ++ u)

/-- The first branch opens a chain. -/
theorem openChain_first {test : Condition} {body : Template} {s t : List Char}
    (ht : Enclosed Condition.Written '\x7d' test s) (hb : Template.Written body t) :
    OpenChain (s ++ t) := by
  intro rest u hrest
  refine ⟨.branch test body rest, ?_⟩
  rw [List.append_assoc]
  exact .branch ht hb hrest

/-- A further branch keeps it open. -/
theorem OpenChain.further {test : Condition} {body : Template} {s t u : List Char}
    (h : OpenChain s) (ht : Enclosed Condition.Written '\x7d' test t)
    (hb : Template.Written body u) : OpenChain (s ++ ('\x7b' :: '|' :: (t ++ u))) := by
  intro rest v hrest
  obtain ⟨chain, hchain⟩ := h _ _ (.further (.branch ht hb hrest))
  refine ⟨chain, ?_⟩
  simpa only [List.append_assoc, List.cons_append] using hchain

theorem chain_a :
    Chain.Written (.branch [[.present false "a"]] [] .done) ['a', '\x7d', '\x7b', '.', '\x7d'] := by
  have ha : Enclosed Condition.Written '\x7d' [[.present false "a"]] ['a', '\x7d'] :=
    ⟨[], ['a'], [], blanks_nil, Parser.condition_a, blanks_nil, rfl⟩
  have hchain := Chain.Written.branch ha .nil .done
  exact hchain

namespace Parse.Parser

variable {o c : Cursor} {K : List Char → Prop} {n : Nat} {test : Parser Condition}
  {body : Parser Template} {inside : Parser Chain}

/-! ## Chains -/

/-- A branch is completed by the end of its chain. -/
theorem branch_completes (ht : test.Explains Condition.Written)
    (hb : body.Explains Template.Written) {s : List Char} (hs : o.Spans s c)
    (hK : ∀ t b u v, Enclosed Condition.Written '\x7d' t u → Template.Written b v →
      K (s ++ (u ++ (v ++ ['\x7b', '.', '\x7d'])))) :
    (branch test body).Completes o K c := by
  have htest : (enclosed test "\x7d").Explains (Enclosed Condition.Written '\x7d') :=
    enclosed_explains ht rfl (by decide)
  refine completes_read htest hs ?_ ?_
  · intro t u ht
    exact ⟨_, hK t [] u [] ht .nil⟩
  intro t u c₁ hs ht
  refine completes_return ((hb.completes c₁).lift hs ?_)
  rintro v ⟨b, hb⟩
  refine ⟨['\x7b', '.', '\x7d'], ?_⟩
  rw [List.append_assoc]
  exact hK t b u v ht hb

/-- The branches that a repetition has read leave the chain open. -/
theorem openChain_of_reached (h : ReadsBranches n test body) {bs : List (Condition × Template)}
    {mid : Cursor} (hr : Reached (another test body) bs c mid) {s : List Char} (hs : o.Spans s c)
    (hopen : OpenChain s) : ∃ s, o.Spans s mid ∧ OpenChain s := by
  induction hr generalizing s with
  | start => exact ⟨s, hs, hopen⟩
  | step hb _ ih =>
    simp only [another, bind_matched_iff, token_matched_iff] at hb
    obtain ⟨-, c₁, hmark, hb⟩ := hb
    obtain ⟨t, u, hspan, ht, hbody, -, -⟩ := branch_sound h hb
    have hopen' := hopen.further ht hbody
    exact ih (hs.trans (hmark.trans hspan)) hopen'

/-- A further branch is completed, and the chain is ended behind it. -/
theorem another_completes (ht : test.Explains Condition.Written)
    (hb : body.Explains Template.Written) {s : List Char} (hs : o.Spans s c) (hopen : OpenChain s) :
    (another test body).Completes o (fun s => ∃ chain, Chain.Written chain s) c := by
  refine completes_token (by simp) hs ?_ ?_
  · exact ⟨_, hopen _ _ (.further chain_a)⟩
  intro c₁ hs
  refine branch_completes ht hb hs ?_
  intro t b u v ht hb
  have hend := Chain.Rest.further (.branch ht hb .done)
  rw [List.append_assoc]
  exact hopen _ _ hend

/-- So is a branch without a test. -/
theorem lastBranch_completes (hb : body.Explains Template.Written) {s : List Char}
    (hs : o.Spans s c) (hopen : OpenChain s) :
    (lastBranch body).Completes o (fun s => ∃ chain, Chain.Written chain s) c := by
  refine completes_token (by simp) hs ?_ ?_
  · exact ⟨_, hopen _ _ (.otherwise .nil)⟩
  intro c₁ hs
  refine (hb.completes c₁).lift hs ?_
  rintro u ⟨b, hb⟩
  refine ⟨['\x7b', '.', '\x7d'], ?_⟩
  rw [List.append_assoc]
  exact hopen _ _ (.otherwise hb)

/-- Chains are read, and each of their notes is completed to one. -/
theorem chain_explains (h : ReadsBranches n test body) (ht : test.Explains Condition.Written)
    (hb : body.Explains Template.Written) : (chain test body).Explains Chain.Written where
  sound hm := by
    obtain ⟨s, hs, hchain, -⟩ := (chain_reads h).sound hm
    exact ⟨s, hs, hchain⟩
  completes c := by
    rw [chain_eq]
    refine completes_bind (branch_completes ht hb (Cursor.spans_nil c) ?_) ?_
    · intro t b u v ht hb
      have hchain := Chain.Written.branch ht hb .done
      exact ⟨_, hchain⟩
    -- from here on the chain is open
    rintro ⟨t, b⟩ c₁ hm
    obtain ⟨u, v, hs, ht', hb', -⟩ := branch_sound h hm
    have hopen := openChain_first ht' hb'
    refine completes_bind (completes_many ?_) ?_
    · intro bs c₂ hr
      obtain ⟨s, hs, hopen⟩ := openChain_of_reached h hr hs hopen
      exact another_completes ht hb hs hopen
    intro bs c₂ hm
    obtain ⟨s, hs, hopen⟩ := openChain_of_reached h (many_reached hm) hs hopen
    refine completes_bind ?_ ?_
    · exact completes_orElse (completes_map (lastBranch_completes hb hs hopen)) fun _ =>
        (silent_pure _).completes
    -- only the end of the chain is left
    intro last c₃ hm
    obtain ⟨w, hw, hend, -⟩ := lastly_sound h hm
    refine completes_return ((token_completes (by simp)).behind (hs.trans hw) ?_)
    rintro _ rfl
    rw [List.append_assoc]
    exact hopen _ _ hend

/-! ## Templates -/

/-- A substitution is completed by the expression in it, and closed. -/
theorem substitution_completes :
    substitution.Completes c (fun s => ∃ a, Node.Written a s ∧ a.isLiteral = false) c := by
  have hinner : (enclosed expression "\x7d").Explains (Enclosed Expression.Written '\x7d') :=
    enclosed_explains expression_explains rfl (by decide)
  refine completes_token (by simp) (Cursor.spans_nil c) ?_ ?_
  · refine ⟨['a', '\x7d'], .substitution (.operand (.lookup "a")), ?_, rfl⟩
    exact .substitution ⟨[], _, [], blanks_nil, expression_a, blanks_nil, rfl⟩
  intro c₁ hs
  refine completes_map ((hinner.completes c₁).behind hs ?_)
  rintro s ⟨e, he⟩
  exact ⟨.substitution e, .substitution he, rfl⟩

theorem silent_literalChar : literalChar.Silent := by
  rintro ⟨place, _ | ⟨x, rest⟩⟩
  · rfl
  · simp only [literalChar]
    split <;> rfl

/-- Of literal text nothing is ever missing. -/
theorem literal_completes : literal.Completes o K c :=
  completes_bind silent_literalChar.completes fun _ _ _ =>
    completes_return (completes_many fun _ _ _ => silent_literalChar.completes)

/-- Whatever a node misses, a directive is completed by it. -/
theorem node_completes (h : ∀ c, inside.Completes c (fun s => ∃ chain, Chain.Written chain s) c) :
    (node inside).Completes c (fun s => ∃ a, Node.Written a s ∧ a.isLiteral = false) c := by
  refine completes_orElse literal_completes fun _ => ?_
  refine completes_orElse substitution_completes fun _ => ?_
  refine completes_token (by simp) (Cursor.spans_nil c) ?_ ?_
  · exact ⟨_, _, .conditional chain_a, rfl⟩
  intro c₁ hs
  refine completes_map ((h c₁).behind hs ?_)
  rintro s ⟨chain, hchain⟩
  exact ⟨.conditional chain, .conditional hchain, rfl⟩

/-- Behind the nodes that were read, a template is completed by one directive more. -/
theorem nodes_explains (hinside : inside.Reads (InChain n) (fun _ => True))
    (h : ∀ c, inside.Completes c (fun s => ∃ chain, Chain.Written chain s) c) :
    (many (node inside)).Explains Template.Written where
  sound hm := by
    obtain ⟨s, hs, ht, -⟩ := (nodes_reads hinside).sound hm
    exact ⟨s, hs, ht⟩
  completes c := by
    refine completes_many ?_
    intro t mid hr
    obtain ⟨s, hs, ht, -⟩ := template_of_reached hinside hr
    refine (node_completes h).behind hs ?_
    rintro u ⟨a, ha, hno⟩
    exact ⟨_, ht.snoc ha hno⟩

/-- Templates are read, and each of their notes is completed to one, at any number of levels. -/
theorem template_explains (n : Nat) : (template n).Explains Template.Written := by
  induction n with
  | zero =>
    apply nodes_explains tooDeep_reads_inChain
    intro c
    exact Frontier.completable_none
  | succ n ih =>
    have hreads : ReadsBranches n (condition n) (template n) :=
      ⟨condition_reads n, template_reads n, condition_failed n⟩
    have hchain := chain_explains hreads (condition_explains n) ih
    exact nodes_explains (chain_reads hreads) hchain.completes

end Parse.Parser

end Stencil

/-
# Stencil.Proofs.Engine.Branching -- chains of branches as texts

A chain is put together from texts: tests that are accepted as conditions by themselves, and
bodies that are accepted as templates by themselves. Rendering it is deciding its tests one
after the other, up to the first that holds, and rendering the body that belongs to it. So
no text put into a chain can reach into another one, whatever braces, quoted texts and
chains of its own it has, and what lies behind the decision is not looked at.

The texts are in normal form. So is the chain then, since the braces between them are
neither blanks nor line ends.
-/
import Stencil.Proofs.Engine.Operation
import Stencil.Proofs.Template.Reading
import Stencil.Proofs.Text.Normal

namespace Stencil

/-! ## Chains as texts -/

/-- The test and the body of a branch, as texts. -/
structure BranchText where
  test : String
  body : String

/-- A branch without its opener. -/
def BranchText.text (b : BranchText) : String := b.test ++ "\x7d" ++ b.body

/-- A chain as texts: a first branch, further ones, and perhaps a body without a test. -/
structure ChainText where
  first : BranchText
  others : List BranchText
  last : Option String

namespace ChainText

/-- The end of a chain, behind its branches. -/
def ending : Option String → String
  | some body => "\x7b|\x7d" ++ body ++ "\x7b.\x7d"
  | none => "\x7b.\x7d"

/-- What is left of a chain behind a branch. -/
def behind (last : Option String) : List BranchText → String
  | [] => ending last
  | b :: bs => "\x7b|" ++ b.text ++ behind last bs

/-- The text of a chain. -/
def text (c : ChainText) : String := "\x7b?" ++ c.first.text ++ behind c.last c.others

/-- The branches of a chain that have a test. -/
def branches (c : ChainText) : List BranchText := c.first :: c.others

/-! ### Their characters -/

variable {last : Option String} {b : BranchText} {bs : List BranchText} {tail : List Char}

theorem toList_ending_none : (ending none).toList = ['\x7b', '.', '\x7d'] := rfl

theorem toList_ending_some (body : String) : (ending (some body)).toList =
    '\x7b' :: '|' :: '\x7d' :: (body.toList ++ ['\x7b', '.', '\x7d']) := by
  simp [ending]

theorem toList_branch (b : BranchText) :
    b.text.toList ++ tail = b.test.toList ++ ['\x7d'] ++ (b.body.toList ++ tail) := by
  simp [BranchText.text]

theorem toList_behind_cons : (behind last (b :: bs)).toList =
    '\x7b' :: '|' :: (b.text.toList ++ (behind last bs).toList) := by
  simp [behind]

theorem toList_text (c : ChainText) :
    c.text.toList = '\x7b' :: '?' :: (c.first.text.toList ++ (behind c.last c.others).toList) := by
  simp [text]

/-! ### Chains in normal form -/

theorem behind_ends (last : Option String) (bs : List BranchText) :
    ∃ front, (behind last bs).toList = front ++ ['\x7d'] := by
  induction bs with
  | nil =>
    cases last with
    | none => exact ⟨['\x7b', '.'], rfl⟩
    | some body =>
      refine ⟨'\x7b' :: '|' :: '\x7d' :: (body.toList ++ ['\x7b', '.']), ?_⟩
      rw [behind, toList_ending_some]
      simp
  | cons b bs ih =>
    obtain ⟨front, hfront⟩ := ih
    refine ⟨'\x7b' :: '|' :: (b.text.toList ++ front), ?_⟩
    rw [toList_behind_cons, hfront]
    simp

theorem leads_behind (last : Option String) (bs : List BranchText) :
    Leads Text.isSolid (behind last bs).toList := by
  cases bs with
  | nil =>
    cases last with
    | none => exact ⟨_, _, toList_ending_none, rfl⟩
    | some body => exact ⟨_, _, toList_ending_some body, rfl⟩
  | cons b bs => exact ⟨_, _, toList_behind_cons, rfl⟩

/-- The texts that a branch is put together from are in normal form. -/
def IsNormalBranch (b : BranchText) : Prop :=
  Text.normalize b.test = b.test ∧ Text.normalize b.body = b.body

theorem tight_of_normal {s : String} (h : Text.normalize s = s) : Text.Tight s.toList :=
  (Text.normalize_eq_self_iff.mp h).tight

theorem tight_branch (h : IsNormalBranch b) (htail : Text.Tight tail)
    (hlead : Leads Text.isSolid tail) : Text.Tight (b.text.toList ++ tail) := by
  have hbody := (tight_of_normal h.2).append htail hlead
  rw [toList_branch, List.append_assoc, List.singleton_append]
  exact (tight_of_normal h.1).append (hbody.cons rfl) ⟨_, _, rfl, rfl⟩

theorem tight_behind (hbs : ∀ b ∈ bs, IsNormalBranch b)
    (hlast : ∀ body ∈ last, Text.normalize body = body) : Text.Tight (behind last bs).toList := by
  have hdone : Text.Tight ['\x7b', '.', '\x7d'] := Text.tight_of_no_lineEnd (by decide)
  induction bs with
  | nil =>
    cases last with
    | none => exact hdone
    | some body =>
      rw [behind, toList_ending_some]
      have hbody := (tight_of_normal (hlast body rfl)).append hdone ⟨_, _, rfl, rfl⟩
      exact ((hbody.cons rfl).cons rfl).cons rfl
  | cons b bs ih =>
    obtain ⟨hb, hbs⟩ := List.forall_mem_cons.mp hbs
    rw [toList_behind_cons]
    exact ((tight_branch hb (ih hbs) (leads_behind last bs)).cons rfl).cons rfl

/-- A chain of texts in normal form is in normal form. -/
theorem normalize_text (c : ChainText) (hbs : ∀ b ∈ c.branches, IsNormalBranch b)
    (hlast : ∀ body ∈ c.last, Text.normalize body = body) : Text.normalize c.text = c.text := by
  obtain ⟨hfirst, hothers⟩ := List.forall_mem_cons.mp hbs
  rw [Text.normalize_eq_self_iff]
  refine ⟨⟨?_, ?_⟩, ?_⟩
  · rw [toList_text]
    exact clear_cons.mpr rfl
  · obtain ⟨front, hfront⟩ := behind_ends c.last c.others
    rw [toList_text, hfront, ← List.append_assoc, ← List.cons_append, ← List.cons_append,
      List.reverse_append]
    exact clear_cons.mpr rfl
  · rw [toList_text]
    exact ((tight_branch hfirst (tight_behind hothers hlast) (leads_behind _ _)).cons rfl).cons rfl

end ChainText

/-! ## The branch that is taken -/

namespace BranchText

/-- The body of the first branch whose test holds, or else the last body, if there is one. -/
def chosen (holds : String → Bool) (last : Option String) (bs : List BranchText) : Option String :=
  ((bs.find? (holds ·.test)).map (·.body)).or last

/-- The tests up to the first that holds, and including it. -/
def decided (holds : String → Bool) (bs : List BranchText) : List String :=
  (bs.takeWhile (!holds ·.test) ++ (bs.find? (holds ·.test)).toList).map (·.test)

variable (holds : String → Bool) {last : Option String} {b : BranchText} {bs : List BranchText}

theorem chosen_nil : chosen holds last [] = last := rfl

theorem chosen_of_holds (h : holds b.test = true) : chosen holds last (b :: bs) = some b.body := by
  simp [chosen, h]

theorem chosen_of_not_holds (h : holds b.test = false) :
    chosen holds last (b :: bs) = chosen holds last bs := by
  simp [chosen, h]

theorem decided_of_holds (h : holds b.test = true) : decided holds (b :: bs) = [b.test] := by
  simp [decided, h]

theorem decided_of_not_holds (h : holds b.test = false) :
    decided holds (b :: bs) = b.test :: decided holds bs := by
  simp [decided, h]

end BranchText

namespace Engine

variable {e : Engine} {vars : Option Store} {depth : Nat} {src : String}

/-! ## The parts of a chain -/

/-- The engine accepts a text in normal form as a condition; its variables play no part in that. -/
def AcceptsTest (e : Engine) (src : String) : Prop :=
  Text.normalize src = src ∧ (e.conditional src none).answer.isOk = true

/-- The engine accepts a text in normal form as a template; its variables play no part in that. -/
def AcceptsBody (e : Engine) (src : String) : Prop :=
  Text.normalize src = src ∧ (e.transform src none).answer.isOk = true

instance : Decidable (e.AcceptsTest src) := inferInstanceAs (Decidable (_ ∧ _))

instance : Decidable (e.AcceptsBody src) := inferInstanceAs (Decidable (_ ∧ _))

/-- The text is the test `t`, and is treated as `t`. -/
structure Decides (e : Engine) (vars : Option Store) (depth : Nat) (src : String)
    (t : Condition) : Prop where
  written : Condition.Written t src.toList
  nesting : Condition.nesting t ≤ depth
  answer : (e.conditional src vars).answer =
    .ok (Condition.eval (vars.getD e.vars).lookup t).value
  reads : e.conditionalReads src vars = (Condition.eval (vars.getD e.vars).lookup t).reads

/-- The text is the body `t`, and is treated as `t`. -/
structure Renders (e : Engine) (vars : Option Store) (depth : Nat) (src : String)
    (t : Template) : Prop where
  written : Template.Written t src.toList
  nesting : Template.nesting t ≤ depth
  answer : (e.transform src vars).answer =
    .ok (Text.collapse (Template.render (vars.getD e.vars).lookup t).value)
  reads : e.transformReads src vars = (Template.render (vars.getD e.vars).lookup t).reads

theorem Decides.holds {t : Condition} (h : e.Decides vars depth src t) :
    e.holds src vars = (Condition.eval (vars.getD e.vars).lookup t).value := by
  rw [Engine.holds, h.answer]

theorem exists_of_map_isOk {α β : Type} {f : α → β} {r : Except Parse.Failure α}
    (h : (r.map f).isOk = true) : ∃ a, r = .ok a := by
  cases r with
  | error => cases h
  | ok a => exact ⟨a, rfl⟩

theorem renders_of_parse {t : Template} (hn : Text.normalize src = src)
    (h : Template.parse src e.limits = .ok t) (hdepth : Template.nesting t ≤ depth) :
    e.Renders vars depth src t where
  written := (Template.parse_eq_ok_iff.mp h).2.1
  nesting := hdepth
  answer := by
    rw [transform_answer, hn, h]
    rfl
  reads := by
    rw [transformReads, looked, hn, h]
    rfl

/-- A test that is accepted under lower limits. -/
theorem AcceptsTest.decides {limits : Limits} (h : AcceptsTest { e with limits } src)
    (vars : Option Store) (hbytes : src.utf8ByteSize ≤ e.limits.maxBytes)
    (hdepth : limits.maxDepth ≤ e.limits.maxDepth) :
    ∃ t, e.Decides vars limits.maxDepth src t := by
  obtain ⟨hn, hok⟩ := h
  rw [conditional_answer, hn] at hok
  obtain ⟨t, ht⟩ := exists_of_map_isOk hok
  obtain ⟨-, hwritten, hnest⟩ := Condition.parse_eq_ok_iff.mp ht
  have hparse : Condition.parse src e.limits = .ok t :=
    Condition.parse_eq_ok_iff.mpr ⟨hbytes, hwritten, hnest.trans hdepth⟩
  refine ⟨t, hwritten, hnest, ?_, ?_⟩
  · rw [conditional_answer, hn, hparse]
    rfl
  · rw [conditionalReads, looked, hn, hparse]
    rfl

/-- A body that is accepted under lower limits. -/
theorem AcceptsBody.renders {limits : Limits} (h : AcceptsBody { e with limits } src)
    (vars : Option Store) (hbytes : src.utf8ByteSize ≤ e.limits.maxBytes)
    (hdepth : limits.maxDepth ≤ e.limits.maxDepth) :
    ∃ t, e.Renders vars limits.maxDepth src t := by
  obtain ⟨hn, hok⟩ := h
  rw [transform_answer, hn] at hok
  obtain ⟨t, ht⟩ := exists_of_map_isOk hok
  obtain ⟨-, hwritten, hnest⟩ := Template.parse_eq_ok_iff.mp ht
  exact ⟨t, renders_of_parse hn
    (Template.parse_eq_ok_iff.mpr ⟨hbytes, hwritten, hnest.trans hdepth⟩) hnest⟩

/-! ## Branch by branch -/

/-- The answer for the body that is taken, if any. -/
def answerFor (e : Engine) (vars : Option Store) : Option String → Except Parse.Failure String
  | some body => (e.transform body vars).answer
  | none => .ok ""

theorem answerFor_some {body : String} :
    e.answerFor vars (some body) = (e.transform body vars).answer := rfl

/-- The tree of what is left of a chain does what its texts do one by one. -/
structure Follows (e : Engine) (vars : Option Store) (depth : Nat) (last : Option String)
    (bs : List BranchText) (chain : Chain) : Prop where
  nesting : Chain.nesting chain ≤ depth
  tests : ∀ b ∈ bs, (e.conditional b.test vars).answer = .ok (e.holds b.test vars)
  answer : e.answerFor vars (BranchText.chosen (e.holds · vars) last bs) =
    .ok (Text.collapse (Chain.render (vars.getD e.vars).lookup chain).value)
  reads : (BranchText.decided (e.holds · vars) bs).flatMap (e.conditionalReads · vars) ++
      (BranchText.chosen (e.holds · vars) last bs).toList.flatMap (e.transformReads · vars) =
    (Chain.render (vars.getD e.vars).lookup chain).reads

variable {last : Option String} {b : BranchText} {bs : List BranchText} {test : Condition}
  {body : Template} {rest : Chain}

theorem follows_done : e.Follows vars depth none [] .done :=
  ⟨Nat.zero_le _, nofun, rfl, rfl⟩

theorem follows_otherwise (h : e.Renders vars depth src body) :
    e.Follows vars depth (some src) [] (.otherwise body) where
  nesting := h.nesting
  tests := nofun
  answer := by
    rw [BranchText.chosen_nil, answerFor_some, h.answer, Chain.render]
  reads := by
    rw [BranchText.chosen_nil, Chain.render, ← h.reads]
    simp [BranchText.decided]

/-- A branch in front of what is left of a chain: its test decides between its body and the
rest. -/
theorem Follows.branch (hrest : e.Follows vars depth last bs rest)
    (htest : e.Decides vars depth b.test test) (hbody : e.Renders vars depth b.body body) :
    e.Follows vars depth last (b :: bs) (.branch test body rest) where
  nesting := Nat.max_le.mpr ⟨htest.nesting, Nat.max_le.mpr ⟨hbody.nesting, hrest.nesting⟩⟩
  tests := by
    refine List.forall_mem_cons.mpr ⟨?_, hrest.tests⟩
    rw [htest.holds, htest.answer]
  answer := by
    rw [Chain.render, Traced.value_bind, ← htest.holds]
    cases h : e.holds b.test vars with
    | true =>
      rw [BranchText.chosen_of_holds (e.holds · vars) h, answerFor_some, hbody.answer, if_pos rfl]
    | false =>
      rw [BranchText.chosen_of_not_holds (e.holds · vars) h, hrest.answer,
        if_neg Bool.false_ne_true]
  reads := by
    rw [Chain.render, Traced.reads_bind, ← htest.holds, ← htest.reads]
    cases h : e.holds b.test vars with
    | true =>
      rw [BranchText.chosen_of_holds (e.holds · vars) h,
        BranchText.decided_of_holds (e.holds · vars) h, if_pos rfl, ← hbody.reads]
      simp
    | false =>
      rw [BranchText.chosen_of_not_holds (e.holds · vars) h,
        BranchText.decided_of_not_holds (e.holds · vars) h, List.flatMap_cons, List.append_assoc,
        hrest.reads, if_neg Bool.false_ne_true]

/-! ## Whole chains -/

/-- The engine accepts all that a branch is put together from. -/
def AcceptsBranch (e : Engine) (b : BranchText) : Prop :=
  e.AcceptsTest b.test ∧ e.AcceptsBody b.body

instance : Decidable (e.AcceptsBranch b) := inferInstanceAs (Decidable (_ ∧ _))

/-- The engine accepts all that a chain is put together from, each text by itself. -/
structure AcceptsParts (e : Engine) (c : ChainText) : Prop where
  branches : ∀ b ∈ c.branches, e.AcceptsBranch b
  last : ∀ body ∈ c.last, e.AcceptsBody body

/-- A branch in front of what is left of a chain, with its text. -/
theorem exists_branch {limits : Limits} (h : AcceptsBranch { e with limits } b)
    {tail : List Char} (hwritten : Chain.Rest rest tail)
    (hfollows : e.Follows vars limits.maxDepth last bs rest)
    (hbytes : b.text.utf8ByteSize ≤ e.limits.maxBytes)
    (hdepth : limits.maxDepth ≤ e.limits.maxDepth) :
    ∃ chain, Chain.Written chain (b.text.toList ++ tail) ∧
      e.Follows vars limits.maxDepth last (b :: bs) chain := by
  simp only [BranchText.text, String.utf8ByteSize_append] at hbytes
  obtain ⟨test, htest⟩ := h.1.decides vars (by omega) hdepth
  obtain ⟨body, hbody⟩ := h.2.renders vars (by omega) hdepth
  refine ⟨.branch test body rest, ?_, hfollows.branch htest hbody⟩
  rw [ChainText.toList_branch]
  exact .branch ⟨[], _, [], blanks_nil, htest.written, blanks_nil, rfl⟩ hbody.written hwritten

/-- What is left of a chain, with its text. -/
theorem exists_rest (vars : Option Store) {limits : Limits}
    (hbs : ∀ b ∈ bs, AcceptsBranch { e with limits } b)
    (hlast : ∀ body ∈ last, AcceptsBody { e with limits } body)
    (hbytes : (ChainText.behind last bs).utf8ByteSize ≤ e.limits.maxBytes)
    (hdepth : limits.maxDepth ≤ e.limits.maxDepth) :
    ∃ rest, Chain.Rest rest (ChainText.behind last bs).toList ∧
      e.Follows vars limits.maxDepth last bs rest := by
  induction bs with
  | nil =>
    cases last with
    | none => exact ⟨.done, .done, follows_done⟩
    | some src =>
      simp only [ChainText.behind, ChainText.ending, String.utf8ByteSize_append] at hbytes
      obtain ⟨body, hbody⟩ := (hlast src rfl).renders vars (by omega) hdepth
      refine ⟨.otherwise body, ?_, follows_otherwise hbody⟩
      rw [ChainText.behind, ChainText.toList_ending_some]
      exact .otherwise hbody.written
  | cons b bs ih =>
    simp only [ChainText.behind, String.utf8ByteSize_append] at hbytes
    obtain ⟨hb, hbs⟩ := List.forall_mem_cons.mp hbs
    obtain ⟨rest, hrest, hfollows⟩ := ih hbs (by omega)
    obtain ⟨chain, hchain, hfollows⟩ := exists_branch hb hrest hfollows (by omega) hdepth
    refine ⟨chain, ?_, hfollows⟩
    rw [ChainText.toList_behind_cons]
    exact .further hchain

end Engine

/-- A chain of accepted texts is accepted, as a template that is nothing but this chain. -/
theorem Engine.chain_renders {e : Engine} (vars : Option Store) {limits : Limits} {c : ChainText}
    (h : AcceptsParts { e with limits } c) (hbytes : c.text.utf8ByteSize ≤ e.limits.maxBytes)
    (hdepth : limits.maxDepth < e.limits.maxDepth) :
    ∃ chain, e.Renders vars e.limits.maxDepth c.text [.conditional chain] ∧
      e.Follows vars limits.maxDepth c.last c.branches chain := by
  have hn := c.normalize_text (fun b hb => ⟨(h.branches b hb).1.1, (h.branches b hb).2.1⟩)
    fun body hbody => (h.last body hbody).1
  -- each part is within the bound, as the whole text is
  have hsize := hbytes
  simp only [ChainText.text, String.utf8ByteSize_append] at hsize
  obtain ⟨hfirst, hothers⟩ := List.forall_mem_cons.mp h.branches
  obtain ⟨rest, hrest, hfollows⟩ :=
    exists_rest vars hothers h.last (by omega) (Nat.le_of_lt hdepth)
  obtain ⟨chain, hchain, hfollows⟩ :=
    exists_branch hfirst hrest hfollows (by omega) (Nat.le_of_lt hdepth)
  refine ⟨chain, ?_, hfollows⟩
  have hwritten : Template.Written [.conditional chain] c.text.toList := by
    have h := Template.Written.cons (.conditional hchain) .nil nofun
    rw [List.append_nil] at h
    rw [ChainText.toList_text]
    exact h
  have hnest : Template.nesting [.conditional chain] ≤ e.limits.maxDepth := by
    have := hfollows.nesting
    simp only [Template.nesting, Node.nesting]
    omega
  exact renders_of_parse hn (Template.parse_eq_ok_iff.mpr ⟨hbytes, hwritten, hnest⟩) hnest

/-- A chain that is put together from texts does what the texts do by themselves. The texts are
in normal form and are accepted, under some limits, as conditions or as templates; the engine's
own limits allow the whole text, and one more level. Then the chain is rendered, and as the body
of the first branch whose test holds, or else as the last body, or else as nothing. The names
that are read are those of the tests up to this branch, and then those of its body. -/
theorem transform_chain (e : Engine) (vars : Option Store) (limits : Limits) (c : ChainText)
    (h : Engine.AcceptsParts { e with limits } c)
    (hbytes : c.text.utf8ByteSize ≤ e.limits.maxBytes)
    (hdepth : limits.maxDepth < e.limits.maxDepth) :
    let chosen := BranchText.chosen (e.holds · vars) c.last c.branches
    let decided := BranchText.decided (e.holds · vars) c.branches
    (∀ b ∈ c.branches, (e.conditional b.test vars).answer = .ok (e.holds b.test vars)) ∧
    (∃ out, (e.transform c.text vars).answer = .ok out) ∧
    (e.transform c.text vars).answer =
      (match chosen with
      | some body => (e.transform body vars).answer
      | none => .ok "") ∧
    e.transformReads c.text vars = decided.flatMap (e.conditionalReads · vars) ++
      chosen.toList.flatMap (e.transformReads · vars) := by
  intro chosen decided
  obtain ⟨chain, hrenders, hfollows⟩ := Engine.chain_renders vars h hbytes hdepth
  have hanswer := hrenders.answer
  have hreads := hrenders.reads
  rw [Template.render_singleton, Node.render] at hanswer hreads
  refine ⟨hfollows.tests, ⟨_, hanswer⟩, ?_, ?_⟩
  · rw [hanswer, ← hfollows.answer, Engine.answerFor.eq_def]
  · rw [hreads, ← hfollows.reads]

theorem transform_chain_second_branch :
    let e : Engine := { vars := Store.empty.set "a" (.int 1) }
    let c : ChainText :=
      ⟨⟨"b", "\x7b?a\x7dx\x7b|\x7dy\x7b.\x7d"⟩,
        [⟨"a = 1", "\x7b\x7b=\"\x7b.\x7d\" \x7d"⟩, ⟨"c", "z"⟩], none⟩
    (e.transform c.text none).answer.toOption = some "\x7b\x7b.\x7d" ∧
      e.transformReads c.text none = ["b", "a"] := by
  intro e c
  have hparts : Engine.AcceptsParts { e with limits := ⟨100, 1⟩ } c :=
    ⟨by decide +kernel, by decide +kernel⟩
  obtain ⟨-, -, hanswer, hreads⟩ :=
    transform_chain e none ⟨100, 1⟩ c hparts (by decide +kernel) (by decide)
  rw [hanswer, hreads]
  decide +kernel

end Stencil

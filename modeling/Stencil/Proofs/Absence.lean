/-
# Stencil.Proofs.Absence -- what is missing is not there

A note of something missing is made at a place where that thing does not stand. This holds
of every note, also of those that were made on a reading that was given up, and it stays true
when notes of different readings meet at one place: all of them look at the same text. What
is there but cannot be used, such as a numeral without a finite value, leaves no note at all.

`Frontier.Honest o` says so of the notes in a frontier whose places are counted from the
cursor `o`. Like `Completable` it passes through sequence, choice and repetition without any
change of the origin; unlike it, it asks nothing of the text in front of a note, so that a
parser is honest everywhere or not at all (`Parser.Honest`).
-/
import Mathlib.Data.List.Nodup
import Stencil.Assignment.Parser
import Stencil.Proofs.Completion.Template

namespace Stencil.Parse

/-! ## What stands at a place -/

namespace Expected

/-- What can be missing stands at the beginning of a text. A numeral counts whether its value
is finite or not. -/
def Stands : Expected → List Char → Prop
  | text token, cs => token.toList <+: cs
  | identifier, cs => ∃ name s, IsName name s ∧ s <+: cs
  | number, cs => ∃ s, Numeral s ∧ s <+: cs
  | comparison, cs => ∃ op s, Comparison.Spelling op s ∧ s <+: cs
  | additive, cs => ∃ op s, Additive.Spelling op s ∧ s <+: cs
  | endOfInput, cs => cs = []

/-- A token without a quotation mark in it, or a named thing. -/
def Plain : Expected → Prop
  | text token => '\'' ∉ token.toList
  | _ => True

/-- The one name that begins and ends with a quotation mark is not a quoted token. -/
theorem describe_text_ne_additive {token : String} (ht : '\'' ∉ token.toList) :
    (text token).describe ≠ additive.describe := by
  intro h
  have hchars := congrArg String.toList h
  have hquoted : token.toList ++ ['\''] = ['+', '\'', ' ', 'o', 'r', ' ', '\'', '-', '\''] := by
    simpa [describe] using hchars
  have htoken : token.toList = ['+', '\'', ' ', 'o', 'r', ' ', '\'', '-'] := by
    simpa using congrArg List.dropLast hquoted
  rw [htoken] at ht
  exact ht (by simp)

/-- Different things have different names. -/
theorem describe_inj {e e' : Expected} (he : e.Plain) (he' : e'.Plain)
    (h : e.describe = e'.describe) : e = e' := by
  have hchars := congrArg String.toList h
  cases e with
  | text token =>
    cases e' with
    | text other =>
      have htoken : token.toList = other.toList := by simpa [describe] using hchars
      rw [String.toList_inj.mp htoken]
    | additive => exact absurd h (describe_text_ne_additive he)
    | _ => simp [describe] at hchars
  | additive =>
    cases e' with
    | text other => exact absurd h.symm (describe_text_ne_additive he')
    | additive => rfl
    | _ => simp [describe] at hchars
  | _ => cases e' <;> simp [describe] at hchars ⊢

/-- What a message names is what one thing that can be missing is. -/
theorem exists_of_named {entry : String} {s : List Char} (h : Named entry s) :
    ∃ e : Expected, e.Plain ∧ e.describe = entry ∧ ∀ rest, e.Stands (s ++ rest) := by
  cases h with
  | @token token ht => exact ⟨.text token, ht, rfl, fun rest => List.prefix_append _ rest⟩
  | identifier hs =>
    exact ⟨.identifier, trivial, rfl, fun rest => ⟨_, s, hs, List.prefix_append s rest⟩⟩
  | number hs =>
    exact ⟨.number, trivial, rfl, fun rest => ⟨s, hs.1, List.prefix_append s rest⟩⟩
  | comparison hs =>
    exact ⟨.comparison, trivial, rfl, fun rest => ⟨_, s, hs, List.prefix_append s rest⟩⟩
  | additive hs =>
    exact ⟨.additive, trivial, rfl, fun rest => ⟨_, s, hs, List.prefix_append s rest⟩⟩

/-- What does not stand somewhere, its name in a message does not describe either. -/
theorem not_begins_of_not_stands {e : Expected} {cs : List Char} (he : e.Plain)
    (h : ¬ e.Stands cs) : ¬ Begins e.describe cs := by
  rintro ⟨s, rest, hs, rfl⟩
  obtain ⟨e', he', heq, hstands⟩ := exists_of_named hs
  obtain rfl := describe_inj he' he heq
  exact h (hstands rest)

end Expected

/-! ## Frontiers -/

namespace Frontier

/-- Everything noted is noted once, and does not stand where it is noted. Places are counted
from the cursor `o`. -/
structure Honest (o : Cursor) (f : Frontier) : Prop where
  nodup : f.wanted.Nodup
  absent {e : Expected} : e ∈ f.wanted →
    e.Plain ∧ ∃ s c, o.Spans s c ∧ f.place = c.place ∧ ¬ e.Stands c.rest

variable {o c : Cursor} {s : List Char}

theorem honest_none : none.Honest o := ⟨List.nodup_nil, nofun⟩

/-- One note is honest if what it names does not stand at its place. -/
theorem honest_missing {e : Expected} (hs : o.Spans s c) (he : e.Plain)
    (h : ¬ e.Stands c.rest) : (missing c.place e).Honest o where
  nodup := List.nodup_singleton e
  absent hmem := by
    rw [List.mem_singleton.mp hmem]
    exact ⟨he, s, c, hs, rfl, h⟩

/-- Where two frontiers meet at one place, what both have noted is kept once. -/
theorem nodup_merge {f g : Frontier} (hf : f.wanted.Nodup) (hg : g.wanted.Nodup) :
    (f.merge g).wanted.Nodup := by
  rcases Nat.lt_trichotomy f.place g.place with hlt | heq | hgt
  · rwa [merge_of_lt hlt]
  · rw [merge_of_eq heq]
    refine hf.append (hg.filter _) ?_
    intro e he he'
    simp [he] at he'
  · rwa [merge_of_gt hgt]

/-- Put together, the notes of two readings from one origin are honest: each is kept with its own
place. -/
theorem Honest.merge {f g : Frontier} (hf : f.Honest o) (hg : g.Honest o) :
    (f.merge g).Honest o where
  nodup := nodup_merge hf.nodup hg.nodup
  absent hmem := by
    obtain ⟨hmem, hplace⟩ | ⟨hmem, hplace⟩ := mem_merge hmem
    · rw [hplace]
      exact hf.absent hmem
    · rw [hplace]
      exact hg.absent hmem

/-- Counted from an earlier origin. -/
theorem Honest.behind {f : Frontier} (h : f.Honest c) (hs : o.Spans s c) : f.Honest o where
  nodup := h.nodup
  absent hmem := by
    obtain ⟨he, t, c', ht, hplace, hno⟩ := h.absent hmem
    exact ⟨he, s ++ t, c', hs.trans ht, hplace, hno⟩

/-- In a whole text, what is noted does not stand behind the place of the notes. -/
theorem Honest.not_stands {f : Frontier} {text : List Char} (h : f.Honest ⟨0, text⟩)
    {e : Expected} (hmem : e ∈ f.wanted) : e.Plain ∧ ¬ e.Stands (text.drop f.place) := by
  obtain ⟨he, s, c, hs, hfplace, hno⟩ := h.absent hmem
  obtain ⟨rfl, hplace⟩ := Cursor.spans_start_iff.mp hs
  rw [hfplace, hplace, List.drop_left]
  exact ⟨he, hno⟩

/-- No two notes of a message are the same. -/
theorem Honest.nodup_describe {f : Frontier} (h : f.Honest o) :
    (f.wanted.map Expected.describe).Nodup :=
  h.nodup.map_on fun _ he _ he' => Expected.describe_inj (h.absent he).1 (h.absent he').1

end Frontier

/-! ## Parsers -/

namespace Parser

variable {α β : Type} {p q : Parser α}

/-- The parser reads forward, and misses nothing that is there. -/
structure Honest (p : Parser α) : Prop where
  forward {c : Cursor} {a : α} {next : Cursor} :
    p.outcome c = .matched a next → ∃ s, c.Spans s next
  notes (c : Cursor) : (p.reply c).frontier.Honest c

/-- A parser without notes has only to read forward. -/
theorem Silent.honest (h : p.Silent)
    (hforward : ∀ c a next, p.outcome c = .matched a next → ∃ s, c.Spans s next) : p.Honest where
  forward := hforward _ _ _
  notes c := by
    rw [h c]
    exact Frontier.honest_none

/-! ### Combinations -/

theorem honest_pure (a : α) : (pure a : Parser α).Honest := by
  refine (silent_pure a).honest ?_
  intro c b next hm
  obtain ⟨-, rfl⟩ := pure_matched_iff.mp hm
  exact ⟨[], Cursor.spans_nil _⟩

theorem honest_tooDeep : (tooDeep : Parser α).Honest := Silent.honest (fun _ => rfl) nofun

theorem Honest.map (h : p.Honest) (f : α → β) : (f <$> p).Honest where
  forward hm := by
    obtain ⟨a, ha, -⟩ := map_matched_iff.mp hm
    exact h.forward ha
  notes c := by
    have hnotes := h.notes c
    rw [reply_map]
    generalize p.reply c = r at hnotes
    rcases r with ⟨_ | _ | _, missed⟩ <;> exact hnotes

/-- The second parser starts behind what the first has read, and its notes are counted from
there. -/
theorem Honest.bind {f : α → Parser β} (h : p.Honest) (hf : ∀ a, (f a).Honest) :
    (p >>= f).Honest where
  forward hm := by
    obtain ⟨a, mid, ha, hb⟩ := bind_matched_iff.mp hm
    obtain ⟨s, hs⟩ := h.forward ha
    obtain ⟨t, ht⟩ := (hf a).forward hb
    exact ⟨s ++ t, hs.trans ht⟩
  notes c := by
    have hnotes := h.notes c
    have hforward := @h.forward c
    rw [reply_bind]
    unfold outcome at hforward
    generalize p.reply c = r at hnotes hforward
    rcases r with ⟨⟨a, mid⟩ | _ | _, missed⟩
    · obtain ⟨s, hs⟩ := hforward rfl
      exact hnotes.merge (((hf a).notes mid).behind hs)
    · exact hnotes
    · exact hnotes

/-- The notes of an alternative that was given up are put together with those of the next, from the
same origin. -/
theorem Honest.orElse (h : p.Honest) (hq : q.Honest) : (p <|> q).Honest where
  forward hm := by
    obtain hm | ⟨-, hm⟩ := orElse_matched_iff.mp hm
    · exact h.forward hm
    · exact hq.forward hm
  notes c := by
    have hnotes := h.notes c
    rw [reply_orElse]
    generalize p.reply c = r at hnotes
    rcases r with ⟨_ | _ | _, missed⟩
    · exact hnotes
    · exact hnotes.merge (hq.notes c)
    · exact hnotes

/-- Rounds of a repetition read forward together. -/
theorem Honest.reached (h : p.Honest) {as : List α} {c last : Cursor}
    (hr : Reached p as c last) : ∃ s, c.Spans s last := by
  induction hr with
  | start c => exact ⟨[], Cursor.spans_nil c⟩
  | step hm _ ih =>
    obtain ⟨s, hs⟩ := h.forward hm
    obtain ⟨t, ht⟩ := ih
    exact ⟨s ++ t, hs.trans ht⟩

/-- A repetition is honest with the notes of all its rounds, the last and failed one included. -/
theorem Honest.many (h : p.Honest) : p.many.Honest where
  forward hm := h.reached (many_reached hm)
  notes c := by
    -- what the rounds before have missed, and where they have led
    let I : Cursor → List α → Frontier → Prop := fun mid read missed =>
      missed.Honest c ∧ Reached p read.reverse c mid
    have hmerge {mid read missed reply} (hI : I mid read missed) (hreply : p.reply mid = reply) :
        (missed.merge reply.frontier).Honest c := by
      obtain ⟨s, hs⟩ := h.reached hI.2
      exact hI.1.merge (hreply ▸ (h.notes mid).behind hs)
    exact manyFrom_induction (I := I) (P := fun r => r.frontier.Honest c)
      (fun hI hreply => ⟨hmerge hI hreply, hI.2.round hreply⟩) And.left hmerge hmerge c.rest
      ⟨Frontier.honest_none, .start c⟩

theorem Honest.optional (h : p.Honest) : p.optional.Honest := (h.map _).orElse (honest_pure _)

/-! ### Lexemes -/

/-- Whoever fails with a note of `e` has looked for `e` and not found it. -/
theorem honest_want {e : Expected} {c : Cursor} (he : e.Plain) (h : ¬ e.Stands c.rest) :
    ((want e : Parser α).reply c).frontier.Honest c :=
  Frontier.honest_missing (Cursor.spans_nil c) he h

theorem honest_takeWhile (f : Char → Bool) : (takeWhile f).Honest :=
  (silent_takeWhile f).honest fun _ _ _ hm => ⟨_, (takeWhile_matched_iff.mp hm).1⟩

theorem honest_blanks : blanks.Honest := (honest_takeWhile _).map _

theorem honest_accept (s : String) : (accept s).Honest := by
  refine (silent_accept s).honest ?_
  intro c b next hm
  obtain ⟨-, hs⟩ | ⟨-, rfl, -⟩ := accept_matched_iff.mp hm
  · exact ⟨_, hs⟩
  · exact ⟨[], Cursor.spans_nil _⟩

theorem honest_notBefore (f : Char → Bool) : (notBefore f).Honest := by
  refine (silent_notBefore f).honest ?_
  intro c u next hm
  obtain ⟨rfl, -⟩ := notBefore_matched_iff.mp hm
  exact ⟨[], Cursor.spans_nil _⟩

/-- A token without a quotation mark is missed only where it does not stand. -/
theorem honest_token {t : String} (ht : '\'' ∉ t.toList) : (token t).Honest where
  forward hm := ⟨_, token_matched_iff.mp hm⟩
  notes c := by
    rw [token]
    simp only
    split
    · exact Frontier.honest_none
    · rename_i hno
      exact honest_want (α := Unit) (e := .text t) ht (strip?_eq_none_iff.mp hno)

/-- A name is missed only where no name begins, and so where none stands. -/
theorem honest_identifier : identifier.Honest := by
  have hone : (one .identifier isNameStart).Honest := by
    refine ⟨fun hm => ⟨_, (one_matched_iff.mp hm).1⟩, ?_⟩
    intro c
    have hwant : Clear isNameStart c.rest →
        ((want .identifier : Parser Char).reply c).frontier.Honest c := by
      intro hclear
      refine honest_want (e := .identifier) trivial ?_
      -- a name that stood here would begin with what `hclear` excludes
      rintro ⟨name, s, hname, hs⟩
      exact hname.leads.not_isPrefix hclear hs
    rcases c with ⟨place, _ | ⟨x, rest⟩⟩
    · exact hwant clear_nil
    · simp only [one]
      split
      · exact Frontier.honest_none
      · rename_i hx
        exact hwant (clear_cons.mpr (Bool.eq_false_iff.mpr hx))
  exact hone.bind fun _ => (honest_takeWhile _).bind fun _ => honest_pure _

theorem honest_keyword {word : String} (h : '\'' ∉ word.toList) : (keyword word).Honest :=
  (honest_token h).bind fun _ => honest_notBefore _

/-- A number is missed only where the scanner takes nothing. A numeral whose value is not finite is
passed over in silence. -/
theorem honest_number : number.Honest where
  forward hm := by
    obtain ⟨s, hs, -⟩ := number_reads.sound hm
    exact ⟨s, hs⟩
  notes c := by
    rw [number]
    simp only
    split
    · rename_i hnone
      refine honest_want (α := Value) (e := .number) trivial ?_
      rintro ⟨s, hs, hprefix⟩
      exact scanNumeral_ne_nil hs hprefix (List.isEmpty_iff.mp hnone)
    · -- a numeral without a finite value leaves no note
      split
      · exact Frontier.honest_none
      · exact Frontier.honest_none

theorem honest_quotedText : quotedText.Honest :=
  (honest_token (by simp)).bind fun _ => (honest_takeWhile _).bind fun _ =>
    (honest_token (by simp)).bind fun _ => honest_pure _

/-- A table leaves its note when all of its spellings were looked for in vain. -/
theorem spelling_notes {e : Expected} (he : e.Plain) (table : List (String × α)) {c : Cursor}
    (h : (∀ entry ∈ table, ¬ entry.1.toList <+: c.rest) → ¬ e.Stands c.rest) :
    ((spelling e table).reply c).frontier.Honest c := by
  -- what is left of the table, when the spellings before it do not stand there
  induction table with
  | nil => exact honest_want he (h (List.forall_mem_nil _))
  | cons entry table ih =>
    cases hstrip : strip? entry.1.toList c.rest with
    | some rest =>
      have haccept : (accept entry.1).reply c =
          ⟨.matched true (c.advance entry.1.length rest), .none⟩ := by simp [accept, hstrip]
      rw [spelling, reply_bind, haccept]
      exact Frontier.honest_none.merge Frontier.honest_none
    | none =>
      have haccept : (accept entry.1).reply c = ⟨.matched false c, .none⟩ := by
        simp [accept, hstrip]
      have hno : ¬ entry.1.toList <+: c.rest := strip?_eq_none_iff.mp hstrip
      rw [spelling, reply_bind, haccept]
      refine Frontier.honest_none.merge (ih fun htable => h ?_)
      exact List.forall_mem_cons.mpr ⟨hno, htable⟩

/-- A table is honest if one of its spellings stands wherever the thing does that it misses. -/
theorem spelling_honest {e : Expected} (he : e.Plain) {table : List (String × α)}
    (h : ∀ cs, e.Stands cs → ∃ entry ∈ table, entry.1.toList <+: cs) :
    (spelling e table).Honest where
  forward hm := by
    obtain ⟨s, -, hs⟩ := spelling_sound hm
    exact ⟨_, hs⟩
  notes c := by
    refine spelling_notes he table ?_
    intro hno hstands
    obtain ⟨entry, hmem, hprefix⟩ := h c.rest hstands
    exact hno entry hmem hprefix

theorem honest_comparison : comparison.Honest := by
  refine spelling_honest (e := .comparison) trivial ?_
  rintro cs ⟨op, o, ho, hprefix⟩
  obtain ⟨s, hmem, rfl⟩ := comparisonSpelling_iff.mp ho
  exact ⟨_, hmem, hprefix⟩

theorem honest_additive : additive.Honest := by
  refine spelling_honest (e := .additive) trivial ?_
  rintro cs ⟨op, o, ho, hprefix⟩
  obtain ⟨s, hmem, rfl⟩ := additiveSpelling_iff.mp ho
  exact ⟨_, hmem, hprefix⟩

/-! ### Value expressions -/

theorem honest_term : term.Honest := (honest_identifier.map _).orElse (honest_number.map _)

theorem honest_operand : operand.Honest := honest_term.orElse (honest_quotedText.map _)

/-- Two operands and an operator are honest if each of them is. -/
theorem Honest.binary {side : Parser α} {op : Parser β} (h : side.Honest) (hop : op.Honest) :
    (binary side op).Honest :=
  h.bind fun _ => honest_blanks.bind fun _ => hop.bind fun _ => honest_blanks.bind fun _ =>
    h.bind fun _ => honest_pure _

theorem honest_truth : truth.Honest := by
  have hword : ∀ (word : String) (b : Bool), '\'' ∉ word.toList →
      (do keyword word; return b : Parser Bool).Honest :=
    fun _ _ h => (honest_keyword h).bind fun _ => honest_pure _
  exact (hword _ _ (by simp)).orElse ((hword _ _ (by simp)).orElse
    ((hword _ _ (by simp)).orElse (hword _ _ (by simp))))

theorem honest_arithmetic : arithmetic.Honest :=
  (honest_term.binary honest_additive).bind fun _ => honest_pure _

theorem honest_expression : expression.Honest := by
  have hoperand := (honest_number.map Operand.number).orElse
    ((honest_quotedText.map Operand.text).orElse (honest_identifier.map Operand.lookup))
  exact (honest_truth.map _).orElse (honest_arithmetic.orElse (hoperand.map _))

/-! ### Conditions -/

theorem Honest.enclosed (h : p.Honest) {close : String} (hclose : '\'' ∉ close.toList) :
    (enclosed p close).Honest :=
  honest_blanks.bind fun _ => h.bind fun _ => honest_blanks.bind fun _ =>
    (honest_token hclose).bind fun _ => honest_pure _

/-- A round that fails behind a mark leaves its notes, though what it has read is given back. -/
theorem Honest.joined (h : p.Honest) {mark : String} (hmark : '\'' ∉ mark.toList) :
    (joined mark p).Honest := by
  have hround := honest_blanks.bind fun _ => (honest_token hmark).bind fun _ =>
    (honest_accept mark).bind fun _ => honest_blanks.bind fun _ => h
  exact h.bind fun _ => hround.many.bind fun _ => honest_pure _

theorem honest_presence (inverted : Bool) : (presence inverted).Honest :=
  honest_identifier.bind fun _ => (honest_accept _).bind fun _ => honest_pure _

theorem atom_honest {inside : Parser Condition} (h : inside.Honest) : (atom inside).Honest := by
  have hcomparing : comparing.Honest :=
    (honest_operand.binary honest_comparison).bind fun _ => honest_pure _
  have hgroup : ∀ inverted, (group inside inverted).Honest :=
    fun _ => (honest_token (by simp)).bind fun _ => h.bind fun _ => honest_pure _
  exact hcomparing.orElse ((honest_accept _).bind fun inverted =>
    (honest_presence inverted).orElse (hgroup inverted))

theorem disjunction_honest {inside : Parser Condition} (h : inside.Honest) :
    (disjunction inside).Honest :=
  ((atom_honest h).joined (by simp)).joined (by simp)

/-- Conditions are honest at any number of levels. Where no level is left, a group leaves no note at
all. -/
theorem condition_honest (n : Nat) : (condition n).Honest := by
  induction n with
  | zero => exact disjunction_honest honest_tooDeep
  | succ n ih => exact disjunction_honest (ih.enclosed (by simp))

/-! ### Templates -/

theorem honest_literal : literal.Honest := by
  have hchar : literalChar.Honest :=
    silent_literalChar.honest fun _ _ _ hm => ⟨_, (literalChar_matched_iff.mp hm).1⟩
  exact hchar.bind fun _ => hchar.many.bind fun _ => honest_pure _

theorem honest_substitution : substitution.Honest :=
  (honest_token (by simp)).bind fun _ => (honest_expression.enclosed (by simp)).map _

/-- A conditional is honest if its tests and bodies are. -/
theorem chain_honest {test : Parser Condition} {body : Parser Template} (ht : test.Honest)
    (hb : body.Honest) : (chain test body).Honest := by
  have hbranch : (branch test body).Honest :=
    (ht.enclosed (by simp)).bind fun _ => hb.bind fun _ => honest_pure _
  have hothers := ((honest_token (t := "\x7b|") (by simp)).bind fun _ => hbranch).many
  have hlast := ((honest_token (t := "\x7b|\x7d") (by simp)).bind fun _ => hb).optional
  exact hbranch.bind fun _ => hothers.bind fun _ => hlast.bind fun _ =>
    (honest_token (by simp)).bind fun _ => honest_pure _

theorem nodes_honest {inside : Parser Chain} (h : inside.Honest) :
    (many (node inside)).Honest := by
  have hconditional := (honest_token (t := "\x7b?") (by simp)).bind fun _ => h.map Node.conditional
  exact (honest_literal.orElse (honest_substitution.orElse hconditional)).many

/-- Templates are honest at any number of levels. -/
theorem template_honest (n : Nat) : (template n).Honest := by
  induction n with
  | zero => exact nodes_honest honest_tooDeep
  | succ n ih => exact nodes_honest (chain_honest (condition_honest n) ih)

/-! ### Assignment lists -/

theorem honest_assignment : assignment.Honest :=
  honest_identifier.bind fun _ => honest_blanks.bind fun _ => (honest_token (by simp)).bind fun _ =>
    honest_blanks.bind fun _ => honest_expression.bind fun _ => honest_blanks.bind fun _ =>
    honest_pure _

theorem honest_assignments : assignments.Honest := by
  have hline : nextLine.Honest := (honest_token (by simp)).bind fun _ => honest_assignment.optional
  exact honest_assignment.bind fun _ => hline.many.bind fun _ => honest_pure _

end Parser

end Stencil.Parse

/-
# Stencil.Proofs.Outcome -- what a parser reads, apart from what it misses

Whether a parser matches, and where it stops, never depends on the notes that it
leaves. `outcome` forgets them, and each combination of parsers has one equation for
its outcome.

A match is described by the text between two cursors: `c.Spans s next` says that `s`
stands at `c` and ends at `next`. `Reads p L F` is the exact description of a parser
by a language: whatever `p` matches is a text of `L`, and a text of `L` is matched as
a whole if what follows it satisfies `F`. The condition on what follows is what an
ordered choice and a longest match need and a grammar does not know.
-/
import Stencil.Parse.Repetition

namespace Stencil.Parse

variable {α β : Type}

/-! ## Texts between cursors -/

/-- The text `s` stands at `c` and ends at `next`. -/
def Cursor.Spans (c : Cursor) (s : List Char) (next : Cursor) : Prop :=
  c.rest = s ++ next.rest ∧ next.place = c.place + s.length

namespace Cursor

variable {c mid next : Cursor} {s t : List Char}

theorem spans_nil (c : Cursor) : c.Spans [] c := ⟨rfl, rfl⟩

@[simp] theorem spans_nil_iff : c.Spans [] next ↔ next = c := by
  constructor
  · rintro ⟨hrest, hplace⟩
    cases c
    cases next
    simp_all
  · rintro rfl
    exact spans_nil _

/-- A text in front of a cursor ends exactly where the text has been advanced over. -/
theorem spans_advance {rest : List Char} (h : c.rest = s ++ rest) :
    c.Spans s (c.advance s.length rest) := ⟨h, rfl⟩

/-- Texts that follow each other are put together. -/
theorem Spans.trans (h : c.Spans s mid) (h' : mid.Spans t next) : c.Spans (s ++ t) next := by
  obtain ⟨hrest, hplace⟩ := h
  obtain ⟨hrest', hplace'⟩ := h'
  refine ⟨?_, ?_⟩
  · rw [hrest, hrest', List.append_assoc]
  · rw [hplace', hplace, List.length_append, Nat.add_assoc]

/-- A text that is put together ends its first part at some cursor. -/
theorem Spans.split (h : c.Spans (s ++ t) next) : ∃ mid, c.Spans s mid ∧ mid.Spans t next := by
  obtain ⟨hrest, hplace⟩ := h
  refine ⟨⟨c.place + s.length, t ++ next.rest⟩, ⟨?_, rfl⟩, rfl, ?_⟩
  · rw [hrest, List.append_assoc]
  · rw [hplace, List.length_append, Nat.add_assoc]

theorem Spans.length (h : c.Spans s next) : c.rest.length = s.length + next.rest.length := by
  rw [h.1, List.length_append]

/-- From the beginning of a text, the place counts the characters in front of it. -/
theorem spans_start_iff {text : List Char} :
    Cursor.Spans ⟨0, text⟩ s c ↔ text = s ++ c.rest ∧ c.place = s.length := by
  simp only [Spans, Nat.zero_add]

/-- A cursor and a text determine where the text ends. -/
theorem Spans.unique {next' : Cursor} (h : c.Spans s next) (h' : c.Spans s next') :
    next = next' := by
  obtain ⟨hrest, hplace⟩ := h
  obtain ⟨hrest', hplace'⟩ := h'
  have hr : next.rest = next'.rest := List.append_cancel_left (hrest.symm.trans hrest')
  cases next
  cases next'
  simp_all

end Cursor

/-! ## Outcomes -/

namespace Parser

/-- How a reading ends. -/
def outcome (p : Parser α) (c : Cursor) : Outcome α := (p.reply c).outcome

variable {p : Parser α} {c next : Cursor}

@[simp] theorem outcome_pure (a : α) : (pure a : Parser α).outcome c = .matched a c := rfl

theorem outcome_map (f : α → β) : (f <$> p).outcome c =
    match p.outcome c with
    | .matched a next => .matched (f a) next
    | .failed => .failed
    | .tooDeep => .tooDeep := by
  rw [outcome, outcome, reply_map]
  rcases p.reply c with ⟨_ | _ | _, missed⟩ <;> rfl

/-- In a sequence, the first parser decides whether the second is asked at all, and where it
starts. -/
theorem outcome_bind (f : α → Parser β) : (p >>= f).outcome c =
    match p.outcome c with
    | .matched a next => (f a).outcome next
    | .failed => .failed
    | .tooDeep => .tooDeep := by
  rw [outcome, outcome, reply_bind]
  rcases p.reply c with ⟨_ | _ | _, missed⟩ <;> rfl

/-- The second alternative is tried after a failure only, not after giving up. -/
theorem outcome_orElse (q : Parser α) : (p <|> q).outcome c =
    match p.outcome c with
    | .matched a next => .matched a next
    | .failed => q.outcome c
    | .tooDeep => .tooDeep := by
  rw [outcome, outcome, reply_orElse]
  rcases p.reply c with ⟨_ | _ | _, missed⟩ <;> rfl

/-! ### Matches -/

theorem map_matched_iff {f : α → β} {b : β} :
    (f <$> p).outcome c = .matched b next ↔ ∃ a, p.outcome c = .matched a next ∧ f a = b := by
  rw [outcome_map]
  cases p.outcome c <;> grind

/-- A sequence matches by a match of each part, the second where the first has ended. -/
theorem bind_matched_iff {f : α → Parser β} {b : β} :
    (p >>= f).outcome c = .matched b next ↔
      ∃ a mid, p.outcome c = .matched a mid ∧ (f a).outcome mid = .matched b next := by
  rw [outcome_bind]
  cases p.outcome c <;> grind

/-- An ordered choice matches by its second alternative only where the first has failed. -/
theorem orElse_matched_iff {q : Parser α} {a : α} :
    (p <|> q).outcome c = .matched a next ↔
      p.outcome c = .matched a next ∨ p.outcome c = .failed ∧ q.outcome c = .matched a next := by
  rw [outcome_orElse]
  cases p.outcome c <;> simp

theorem pure_matched_iff {a b : α} :
    (pure a : Parser α).outcome c = .matched b next ↔ b = a ∧ next = c := by
  simp [eq_comm]

/-! ### Failures -/

theorem map_failed_iff {f : α → β} : (f <$> p).outcome c = .failed ↔ p.outcome c = .failed := by
  rw [outcome_map]
  cases p.outcome c <;> simp

theorem map_failed {f : α → β} (h : p.outcome c = .failed) : (f <$> p).outcome c = .failed :=
  map_failed_iff.mpr h

theorem bind_failed {f : α → Parser β} (h : p.outcome c = .failed) :
    (p >>= f).outcome c = .failed := by
  rw [outcome_bind, h]

theorem bind_of_matched {f : α → Parser β} {a : α} (h : p.outcome c = .matched a next) :
    (p >>= f).outcome c = (f a).outcome next := by
  rw [outcome_bind, h]

theorem map_of_matched {f : α → β} {a : α} (h : p.outcome c = .matched a next) :
    (f <$> p).outcome c = .matched (f a) next := by
  rw [outcome_map, h]

theorem orElse_of_matched {q : Parser α} {a : α} (h : p.outcome c = .matched a next) :
    (p <|> q).outcome c = .matched a next := by
  rw [outcome_orElse, h]

theorem orElse_of_failed {q : Parser α} (h : p.outcome c = .failed) :
    (p <|> q).outcome c = q.outcome c := by
  rw [outcome_orElse, h]

/-! ### Parsers that do not give up -/

/-- From a cursor with `P` the parser does not end the whole parse because of its nesting,
and where it ends is `P` again. -/
def Keeps (P : Cursor → Prop) (p : Parser α) : Prop :=
  ∀ c, P c → p.outcome c ≠ .tooDeep ∧ ∀ a next, p.outcome c = .matched a next → P next

section Keeps

variable {P : Cursor → Prop}

theorem keeps_matched (a : α) {c : Cursor} (hc : P c) :
    Outcome.matched a c ≠ .tooDeep ∧ ∀ b next, Outcome.matched a c = .matched b next → P next := by
  refine ⟨nofun, ?_⟩
  rintro b next ⟨⟩
  exact hc

theorem keeps_pure (a : α) : (pure a : Parser α).Keeps P := fun _ hc => keeps_matched a hc

theorem Keeps.map (h : p.Keeps P) (f : α → β) : (f <$> p).Keeps P := by
  intro c hc
  obtain ⟨hne, hnext⟩ := h c hc
  rw [outcome_map]
  cases hp : p.outcome c with
  | matched a next => exact keeps_matched (f a) (hnext a next hp)
  | failed => exact ⟨nofun, nofun⟩
  | tooDeep => exact absurd hp hne

/-- What is kept by each part of a sequence is kept by the whole. -/
theorem Keeps.bind {f : α → Parser β} (h : p.Keeps P) (hf : ∀ a, (f a).Keeps P) :
    (p >>= f).Keeps P := by
  intro c hc
  obtain ⟨hne, hnext⟩ := h c hc
  rw [outcome_bind]
  cases hp : p.outcome c with
  | matched a next => exact hf a next (hnext a next hp)
  | failed => exact ⟨nofun, nofun⟩
  | tooDeep => exact absurd hp hne

theorem Keeps.orElse {q : Parser α} (h : p.Keeps P) (hq : q.Keeps P) : (p <|> q).Keeps P := by
  intro c hc
  obtain ⟨hne, hnext⟩ := h c hc
  rw [outcome_orElse]
  cases hp : p.outcome c with
  | matched a next => exact keeps_matched a (hnext a next hp)
  | failed => exact hq c hc
  | tooDeep => exact absurd hp hne

/-- A repetition keeps what its rounds keep. It ends where one of them has ended, or where it
began. -/
theorem manyFrom_keeps (h : p.Keeps P) (bound : List Char) {c : Cursor} (hc : P c) (read : List α)
    (missed : Frontier) :
    (manyFrom p bound c read missed).outcome ≠ .tooDeep ∧
      ∀ as last, (manyFrom p bound c read missed).outcome = .matched as last → P last := by
  refine manyFrom_induction (I := fun c _ _ => P c)
    (P := fun r => r.outcome ≠ .tooDeep ∧ ∀ as last, r.outcome = .matched as last → P last)
    ?_ (keeps_matched _) (fun hc _ => keeps_matched _ hc) ?_ bound hc
  · intro c read missed a next f hc hreply
    exact (h c hc).2 a next (by rw [outcome, hreply])
  · intro c read missed f hc hreply
    exact absurd (by rw [outcome, hreply]) (h c hc).1

theorem Keeps.many (h : p.Keeps P) : p.many.Keeps P :=
  fun _ hc => manyFrom_keeps h _ hc [] .none

theorem Keeps.optional (h : p.Keeps P) : p.optional.Keeps P :=
  (h.map _).orElse (keeps_pure _)

end Keeps

/-- The parser never ends the whole parse because of its nesting. -/
def Shallow (p : Parser α) : Prop := p.Keeps fun _ => True

/-- Not to give up is all that is asked of a parser without depth. -/
theorem shallow_iff : p.Shallow ↔ ∀ c, p.outcome c ≠ .tooDeep := by
  constructor
  · intro h c
    exact (h c trivial).1
  · intro h c _
    exact ⟨h c, fun _ _ _ => trivial⟩

/-- A parser without depth fails where it does not match. -/
theorem Shallow.failed (h : p.Shallow) (hno : ∀ a next, p.outcome c ≠ .matched a next) :
    p.outcome c = .failed := by
  cases hp : p.outcome c with
  | matched a next => exact absurd hp (hno a next)
  | failed => rfl
  | tooDeep => exact absurd hp (shallow_iff.mp h c)

/-! ## Languages -/

/-- The parser reads the language `L`, whose texts it matches before what satisfies `F`. -/
structure Reads (p : Parser α) (L : α → List Char → Prop) (F : List Char → Prop) : Prop where
  sound {c : Cursor} {a : α} {next : Cursor} :
    p.outcome c = .matched a next → ∃ s, c.Spans s next ∧ L a s
  complete {c : Cursor} {a : α} {next : Cursor} {s : List Char} :
    c.Spans s next → L a s → F next.rest → p.outcome c = .matched a next

/-- Another description of the language, and more known of what follows. -/
theorem Reads.imp {L L' : α → List Char → Prop} {F F' : List Char → Prop} (h : p.Reads L F)
    (hL : ∀ a s, L a s ↔ L' a s) (hF : ∀ rest, F' rest → F rest) : p.Reads L' F' where
  sound hm := by
    obtain ⟨s, hs, ha⟩ := h.sound hm
    exact ⟨s, hs, (hL _ _).mp ha⟩
  complete hs ha hf := h.complete hs ((hL _ _).mpr ha) (hF _ hf)

/-! ## Repetition -/

/-- Reading with `p` again and again leads from one cursor to the other. -/
inductive Reached (p : Parser α) : List α → Cursor → Cursor → Prop
  | start (c : Cursor) : Reached p [] c c
  | step {a : α} {as : List α} {c mid last : Cursor} :
      p.outcome c = .matched a mid → Reached p as mid last → Reached p (a :: as) c last

/-- One round more at the end. -/
theorem Reached.snoc {a : α} {as : List α} {c mid last : Cursor} (h : Reached p as c mid)
    (hm : p.outcome mid = .matched a last) : Reached p (as ++ [a]) c last := by
  induction h with
  | start => exact .step hm (.start _)
  | step hfirst _ ih => exact .step hfirst (ih hm)

/-- The rounds that a repetition has in hand, the last one first, have been read. -/
theorem Reached.round {read : List α} {a : α} {mid : Cursor} {f : Frontier}
    (h : Reached p read.reverse c mid) (hreply : p.reply mid = ⟨.matched a next, f⟩) :
    Reached p (a :: read).reverse c next := by
  rw [List.reverse_cons]
  exact h.snoc (by rw [outcome, hreply])

/-- What a repetition matches was read round by round. -/
theorem many_reached {as : List α} {last : Cursor} (h : p.many.outcome c = .matched as last) :
    Reached p as c last := by
  refine manyFrom_induction (p := p) (I := fun mid read _ => Reached p read.reverse c mid)
    (P := fun r => r.outcome = .matched as last → Reached p as c last)
    Reached.round ?_ ?_ (fun _ _ => nofun) c.rest (.start c) h
  · rintro mid read missed hr ⟨⟩
    exact hr
  · rintro mid read missed f hr - ⟨⟩
    exact hr

theorem advances_of_outcome
    (h : ∀ c a next, p.outcome c = .matched a next → next.rest.length < c.rest.length) :
    p.Advances := by
  intro c a next missed heq
  exact h c a next (by rw [outcome, heq])

/-- A repetition ends in front of what the parser does not match. -/
theorem many_stops (hp : p.Advances) (h : p.outcome c = .failed) :
    p.many.outcome c = .matched [] c := by
  rw [many_eq hp, orElse_of_failed (bind_failed h), outcome_pure]

/-- A repetition never fails, since it may have no rounds at all. -/
theorem many_ne_failed : p.many.outcome c ≠ .failed := manyFrom_outcome_ne_failed _ _ _ _ _

/-- A repetition goes on behind what the parser matches. -/
theorem many_of_matched (hp : p.Advances) {a : α} {mid : Cursor}
    (h : p.outcome c = .matched a mid) :
    p.many.outcome c = ((a :: ·) <$> p.many).outcome mid := by
  -- the rest of the repetition does not fail, so that ending here is not tried
  have hne := many_ne_failed (p := p) (c := mid)
  conv => lhs; rw [many_eq hp]
  rw [outcome_orElse, bind_of_matched h, outcome_bind, outcome_map]
  cases hm : p.many.outcome mid with
  | matched as last => rfl
  | failed => exact absurd hm hne
  | tooDeep => rfl

theorem many_goes_on (hp : p.Advances) {a : α} {as : List α} {mid last : Cursor}
    (h : p.outcome c = .matched a mid) (h' : p.many.outcome mid = .matched as last) :
    p.many.outcome c = .matched (a :: as) last := by
  rw [many_of_matched hp h, map_of_matched h']

/-- Rounds that lead to a failure are all the rounds that there are. -/
theorem many_of_reached (hp : p.Advances) {as : List α} {last : Cursor} (h : Reached p as c last)
    (hfail : p.outcome last = .failed) : p.many.outcome c = .matched as last := by
  induction h with
  | start => exact many_stops hp hfail
  | step hm _ ih => exact many_goes_on hp hm (ih hfail)

/-- A repetition reads as long as the parser matches, and ends where it fails. -/
theorem many_matched_iff (hp : p.Advances) {as : List α} {last : Cursor} :
    p.many.outcome c = .matched as last ↔ Reached p as c last ∧ p.outcome last = .failed := by
  refine ⟨fun h => ⟨many_reached h, ?_⟩, fun ⟨h, hfail⟩ => many_of_reached hp h hfail⟩
  -- round by round, as in each a shorter repetition is left
  have hr := many_reached h
  induction hr with
  | start c =>
    cases hc : p.outcome c with
    | failed => rfl
    | matched a mid =>
      rw [many_of_matched hp hc, map_matched_iff] at h
      obtain ⟨as, -, heq⟩ := h
      cases heq
    | tooDeep =>
      rw [many_eq hp, outcome_orElse, outcome_bind, hc] at h
      cases h
  | step hm _ ih =>
    rw [many_of_matched hp hm, map_matched_iff] at h
    obtain ⟨as, h, heq⟩ := h
    cases heq
    exact ih h

end Parser

end Stencil.Parse

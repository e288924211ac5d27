/-
# Stencil.Proofs.Completion -- what was missing would have helped

A note of something missing is truthful if the text in front of it, followed by what was
missing and perhaps more, is a text of the language that was to be read. This has to hold
of every note, also of those left by readings that were given up long before the end.

`Frontier.Completable o K` says so of the notes in a frontier: each can be completed to a
text of `K`, which is counted from the cursor `o`. As the origin `o` stays the same while
the readings go on, the property passes through sequence, choice and repetition without
any change, and only the leaves have to know what stands in front of them.
-/
import Stencil.Proofs.Expression.Operand

namespace Stencil.Parse

/-! ## What messages name -/

/-- The text is one of those that a message names. A quoted token is named by itself. -/
inductive Named : String → List Char → Prop
  | token {s : String} : '\'' ∉ s.toList → Named ("'" ++ s ++ "'") s.toList
  | identifier {name : String} {s : List Char} : IsName name s → Named "identifier" s
  | number {v : Value} {s : List Char} : IsNumber v s → Named "number" s
  | comparison {op : Comparison} {s : List Char} : op.Spelling s → Named "comparison operator" s
  | additive {op : Additive} {s : List Char} : op.Spelling s → Named "'+' or '-'" s

/-- The text begins with one of those that a message names. -/
def Begins (entry : String) (u : List Char) : Prop := ∃ s rest, Named entry s ∧ u = s ++ rest

theorem Named.begins {entry : String} {s : List Char} (h : Named entry s) : Begins entry s :=
  ⟨s, [], h, (List.append_nil s).symm⟩

theorem Begins.append {entry : String} {u : List Char} (h : Begins entry u) (v : List Char) :
    Begins entry (u ++ v) := by
  obtain ⟨s, rest, hs, rfl⟩ := h
  exact ⟨s, rest ++ v, hs, List.append_assoc ..⟩

/-! ## Frontiers -/

namespace Frontier

/-- What is noted further on or at the same place stays noted. -/
theorem mem_merge {f g : Frontier} {e : Expected} (h : e ∈ (f.merge g).wanted) :
    e ∈ f.wanted ∧ (f.merge g).place = f.place ∨ e ∈ g.wanted ∧ (f.merge g).place = g.place := by
  rcases Nat.lt_trichotomy f.place g.place with hlt | heq | hgt
  · rw [merge_of_lt hlt] at h ⊢
    exact .inr ⟨h, rfl⟩
  · rw [merge_of_eq heq] at h ⊢
    rcases List.mem_append.mp h with h | h
    · exact .inl ⟨h, rfl⟩
    · exact .inr ⟨(List.mem_filter.mp h).1, heq⟩
  · rw [merge_of_gt hgt] at h ⊢
    exact .inl ⟨h, rfl⟩

/-- Every note can be completed to a text of `K`, counted from the cursor `o`; and a
frontier without notes is no frontier yet. -/
structure Completable (o : Cursor) (K : List Char → Prop) (f : Frontier) : Prop where
  completed {e : Expected} : e ∈ f.wanted →
    ∃ s c u, o.Spans s c ∧ f.place = c.place ∧ Begins e.describe u ∧ K (s ++ u)
  place_eq_zero : f.wanted = [] → f.place = 0

variable {o c : Cursor} {s : List Char} {K : List Char → Prop}

theorem completable_none : none.Completable o K := ⟨nofun, fun _ => rfl⟩

/-- One note can be completed if what it names does so at its place. -/
theorem completable_missing {e : Expected} {u : List Char} (hs : o.Spans s c)
    (hu : Begins e.describe u) (hK : K (s ++ u)) : (missing c.place e).Completable o K where
  completed he := by
    rw [List.mem_singleton.mp he]
    exact ⟨s, c, u, hs, rfl, hu, hK⟩
  place_eq_zero := nofun

/-- Notes put together with others are still there. -/
theorem merge_wanted_ne_nil {f g : Frontier} (hf : f.wanted = [] → f.place = 0)
    (hg : g.wanted = [] → g.place = 0) (h : f.wanted ≠ [] ∨ g.wanted ≠ []) :
    (f.merge g).wanted ≠ [] := by
  intro hnil
  rcases Nat.lt_trichotomy f.place g.place with hlt | heq | hgt
  · rw [merge_of_lt hlt] at hnil
    have := hg hnil
    omega
  · rw [merge_of_eq heq, List.append_eq_nil_iff] at hnil
    obtain ⟨hfnil, hgnil⟩ := hnil
    -- nothing of `g` is left out, since `f` wants nothing
    rw [hfnil, List.filter_eq_nil_iff] at hgnil
    have hgnil' : g.wanted = [] := by
      rw [List.eq_nil_iff_forall_not_mem]
      intro e he
      exact hgnil e he rfl
    exact h.elim (absurd hfnil) (absurd hgnil')
  · rw [merge_of_gt hgt] at hnil
    have := hf hnil
    omega

/-- Put together, notes that can be completed from one origin still can. -/
theorem Completable.merge {f g : Frontier} (hf : f.Completable o K) (hg : g.Completable o K) :
    (f.merge g).Completable o K where
  completed he := by
    obtain ⟨he, hplace⟩ | ⟨he, hplace⟩ := mem_merge he
    · rw [hplace]
      exact hf.completed he
    · rw [hplace]
      exact hg.completed he
  place_eq_zero hnil := by
    have hne := mt (merge_wanted_ne_nil hf.place_eq_zero hg.place_eq_zero) (not_not_intro hnil)
    obtain ⟨hfnil, hgnil⟩ := not_or.mp hne
    have := hf.place_eq_zero (Classical.not_not.mp hfnil)
    have := hg.place_eq_zero (Classical.not_not.mp hgnil)
    rw [place_merge]
    omega

/-- From an earlier origin, a text is completed by what it was completed by, and more. -/
theorem Completable.lift {f : Frontier} {P : List Char → Prop} (h : f.Completable c P)
    (hs : o.Spans s c) (hK : ∀ t, P t → ∃ v, K (s ++ (t ++ v))) : f.Completable o K where
  completed he := by
    obtain ⟨t, c', u, ht, hplace, hu, hP⟩ := h.completed he
    obtain ⟨v, hv⟩ := hK _ hP
    refine ⟨s ++ t, c', u ++ v, hs.trans ht, hplace, hu.append v, ?_⟩
    rw [List.append_assoc] at hv ⊢
    exact hv
  place_eq_zero := h.place_eq_zero

end Frontier

/-! ## Parsers -/

namespace Parser

variable {α β : Type} {p q : Parser α} {o c : Cursor} {s : List Char} {K : List Char → Prop}

/-- What the parser misses from `c` on can be completed to texts of `K`. -/
def Completes (p : Parser α) (o : Cursor) (K : List Char → Prop) (c : Cursor) : Prop :=
  (p.reply c).frontier.Completable o K

/-- The parser leaves no notes. -/
def Silent (p : Parser α) : Prop := ∀ c, (p.reply c).frontier = .none

/-- Without notes there is nothing to complete. -/
theorem Silent.completes (h : p.Silent) : p.Completes o K c := by
  rw [Completes, h c]
  exact Frontier.completable_none

theorem silent_pure (a : α) : (pure a : Parser α).Silent := fun _ => rfl

theorem completes_map {f : α → β} (h : p.Completes o K c) : (f <$> p).Completes o K c := by
  rw [Completes, reply_map]
  rw [Completes] at h
  generalize p.reply c = r at h
  rcases r with ⟨_ | _ | _, missed⟩ <;> exact h

/-- In a sequence, only the second parser has to know what the first has read. -/
theorem completes_bind {f : α → Parser β} (h : p.Completes o K c)
    (hf : ∀ a mid, p.outcome c = .matched a mid → (f a).Completes o K mid) :
    (p >>= f).Completes o K c := by
  rw [Completes, reply_bind]
  rw [Completes] at h
  unfold outcome at hf
  generalize p.reply c = r at h hf
  rcases r with ⟨⟨a, mid⟩ | _ | _, missed⟩
  · exact h.merge (hf a mid rfl)
  · exact h
  · exact h

/-- The notes of both alternatives have to be completed, for the first ones are not forgotten. -/
theorem completes_orElse (h : p.Completes o K c)
    (hq : p.outcome c = .failed → q.Completes o K c) : (p <|> q).Completes o K c := by
  rw [Completes, reply_orElse]
  rw [Completes] at h
  unfold outcome at hq
  generalize p.reply c = r at h hq
  rcases r with ⟨⟨a, mid⟩ | _ | _, missed⟩
  · exact h
  · exact h.merge (hq rfl)
  · exact h

/-- Each round of a repetition has to be completed behind the rounds before it, the failed round
too. -/
theorem completes_many (h : ∀ as mid, Reached p as c mid → p.Completes o K mid) :
    p.many.Completes o K c := by
  -- what the rounds before have missed, and where they have led
  let I : Cursor → List α → Frontier → Prop := fun mid read missed =>
    missed.Completable o K ∧ Reached p read.reverse c mid
  have hmerge {mid read missed reply} (hI : I mid read missed) (hreply : p.reply mid = reply) :
      (missed.merge reply.frontier).Completable o K :=
    hI.1.merge (hreply ▸ h _ mid hI.2)
  exact manyFrom_induction (I := I) (P := fun r => r.frontier.Completable o K)
    (fun hI hreply => ⟨hmerge hI hreply, hI.2.round hreply⟩) And.left hmerge hmerge c.rest
    ⟨Frontier.completable_none, .start c⟩

/-- From an earlier origin and with more behind. -/
theorem Completes.lift {P : List Char → Prop} (h : p.Completes c P c) (hs : o.Spans s c)
    (hK : ∀ t, P t → ∃ v, K (s ++ (t ++ v))) : p.Completes o K c :=
  Frontier.Completable.lift h hs hK

/-- From an earlier origin. -/
theorem Completes.behind {P : List Char → Prop} (h : p.Completes c P c) (hs : o.Spans s c)
    (hK : ∀ t, P t → K (s ++ t)) : p.Completes o K c := by
  refine h.lift hs ?_
  intro t ht
  refine ⟨[], ?_⟩
  rw [List.append_nil]
  exact hK t ht

/-- With more behind. -/
theorem Completes.extend {P : List Char → Prop} (h : p.Completes c P c)
    (hK : ∀ t, P t → ∃ v, K (t ++ v)) : p.Completes c K c := h.lift (Cursor.spans_nil c) hK

theorem Completes.imp {P : List Char → Prop} (h : p.Completes c P c) (hK : ∀ t, P t → K t) :
    p.Completes c K c := h.behind (Cursor.spans_nil c) hK

/-- What is returned in the end makes no difference. -/
theorem completes_return {f : α → β} (h : p.Completes o K c) :
    (do return f (← p) : Parser β).Completes o K c :=
  completes_bind h fun _ _ _ => (silent_pure _).completes

/-- The parser reads texts of `L` only, and what it misses can be completed to one. -/
structure Explains (p : Parser α) (L : α → List Char → Prop) : Prop where
  sound {c : Cursor} {a : α} {next : Cursor} :
    p.outcome c = .matched a next → ∃ s, c.Spans s next ∧ L a s
  completes (c : Cursor) : p.Completes c (fun s => ∃ a, L a s) c

/-- In front of what comes next, a text of `L` is missed or read. -/
theorem completes_read {L : α → List Char → Prop} {f : α → Parser β} (h : p.Explains L)
    (hs : o.Spans s c) (hK : ∀ a u, L a u → ∃ v, K (s ++ (u ++ v)))
    (hf : ∀ a u mid, o.Spans (s ++ u) mid → L a u → (f a).Completes o K mid) :
    (p >>= f).Completes o K c := by
  refine completes_bind ((h.completes c).lift hs ?_) ?_
  · rintro u ⟨a, ha⟩
    exact hK a u ha
  · intro a mid hm
    obtain ⟨u, hu, ha⟩ := h.sound hm
    exact hf a u mid (hs.trans hu) ha

/-! ## Lexemes -/

/-- A failure with a note is completed by what it names. -/
theorem want_completes {e : Expected} {u : List Char} (hu : Begins e.describe u) :
    (want e : Parser α).Completes c (· = u) c :=
  Frontier.completable_missing (Cursor.spans_nil c) hu rfl

theorem silent_takeWhile (p : Char → Bool) : (takeWhile p).Silent := fun _ => rfl

theorem silent_blanks : blanks.Silent := fun _ => rfl

/-- In front of what comes next, blanks are never missed. -/
theorem completes_blanks {f : Unit → Parser α} (hs : o.Spans s c)
    (hf : ∀ w mid, o.Spans (s ++ w) mid → Blanks w → (f ()).Completes o K mid) :
    (blanks >>= f).Completes o K c := by
  refine completes_bind silent_blanks.completes ?_
  intro _ mid hm
  obtain ⟨w, hspan, hw, -⟩ := blanks_matched_iff.mp hm
  exact hf w mid (hs.trans hspan) hw

theorem silent_accept (s : String) : (accept s).Silent := by
  intro c
  simp only [accept]
  split <;> rfl

theorem silent_notBefore (p : Char → Bool) : (notBefore p).Silent := by
  rintro ⟨place, _ | ⟨x, rest⟩⟩
  · rfl
  · simp only [notBefore]
    split <;> rfl

/-- A token is completed by itself. -/
theorem token_completes {t : String} (ht : '\'' ∉ t.toList) :
    (token t).Completes c (· = t.toList) c := by
  rw [Completes, token]
  simp only
  split
  · exact Frontier.completable_none
  · exact want_completes (α := Unit) (e := .text t) (Named.token ht).begins

/-- In front of what comes next, a token is missed or read. -/
theorem completes_token {t : String} {f : Unit → Parser α} (ht : '\'' ∉ t.toList)
    (hs : o.Spans s c) (hK : ∃ v, K (s ++ (t.toList ++ v)))
    (hf : ∀ mid, o.Spans (s ++ t.toList) mid → (f ()).Completes o K mid) :
    (token t >>= f).Completes o K c := by
  refine completes_bind ((token_completes ht).lift hs ?_) ?_
  · rintro _ rfl
    exact hK
  · intro _ mid hm
    exact hf mid (hs.trans (token_matched_iff.mp hm))

theorem one_completes {e : Expected} {p : Char → Bool} {u : List Char}
    (hu : Begins e.describe u) : (one e p).Completes c (· = u) c := by
  have hwant := want_completes (α := Char) (c := c) hu
  rcases c with ⟨place, _ | ⟨x, rest⟩⟩
  · exact hwant
  · rw [Completes, one]
    simp only
    split
    · exact Frontier.completable_none
    · exact hwant

theorem isName_a : IsName "a" ['a'] := isName_iff.mpr ⟨'a', [], rfl, by decide, by simp, rfl⟩

/-- Where an identifier is missing, every identifier would do. -/
theorem identifier_completes : identifier.Completes c (· = ['a']) c :=
  completes_bind (one_completes (Named.identifier isName_a).begins) fun _ _ _ =>
    completes_bind (silent_takeWhile _).completes fun _ _ _ => (silent_pure _).completes

theorem isNumber_zero : ∃ v, IsNumber v ['0'] :=
  ⟨_, ⟨[], ['0'], [], .inl rfl, ⟨by simp, by simp⟩, .inl rfl, rfl⟩, rfl⟩

/-- Where a number is missing, every number would do. A numeral whose value is not finite misses
nothing. -/
theorem number_completes : number.Completes c (· = ['0']) c := by
  obtain ⟨v, hv⟩ := isNumber_zero
  rw [Completes, number]
  simp only
  split
  · exact want_completes (α := Value) (e := .number) (Named.number hv).begins
  · split
    · exact Frontier.completable_none
    · exact Frontier.completable_none

/-- A quoted text is completed by quotes, both of them or the closing one. -/
theorem quotedText_completes : quotedText.Completes c (fun s => ∃ body, IsQuoted body s) c := by
  refine completes_token (by simp) (Cursor.spans_nil c) ?_ ?_
  · exact ⟨['"'], "", by simp, by simp, rfl⟩
  intro c₁ hs
  refine completes_bind (silent_takeWhile _).completes ?_
  intro body c₂ hbody
  obtain ⟨hbody, hall, -⟩ := takeWhile_matched_iff.mp hbody
  -- whatever stands behind an opening quote, a closing one ends it
  refine completes_token (by simp) (hs.trans hbody) ?_ fun _ _ => (silent_pure _).completes
  have hno : ∀ x, isQuotable x = false → x ∉ (String.ofList body).toList := by
    intro x hx hmem
    rw [String.toList_ofList] at hmem
    rw [hall x hmem] at hx
    cases hx
  exact ⟨[], String.ofList body, hno _ rfl, hno _ rfl, by simp⟩

/-- A table is completed by anything that its note names. -/
theorem spelling_completes {e : Expected} {u : List Char} (hu : Begins e.describe u)
    (table : List (String × α)) : (spelling e table).Completes c (· = u) c := by
  induction table with
  | nil => exact want_completes hu
  | cons entry table ih =>
    refine completes_bind (silent_accept _).completes ?_
    intro found mid hm
    obtain ⟨rfl, -⟩ | ⟨rfl, rfl, -⟩ := accept_matched_iff.mp hm
    · exact (silent_pure _).completes
    · exact ih

theorem comparison_completes : comparison.Completes c (· = ['<']) c :=
  spelling_completes (e := .comparison) (Named.comparison .lt).begins _

theorem additive_completes : additive.Completes c (· = ['+']) c :=
  spelling_completes (e := .additive) (Named.additive .plus).begins _

end Parser

end Stencil.Parse

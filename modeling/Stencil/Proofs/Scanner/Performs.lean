/-
# Stencil.Proofs.Scanner.Performs -- rules that do what parsers say

`Performs k n φ m p` says of a rule `m` and a parser `p` that from every state that stands at a
cursor and may still go `k` levels down, `m` ends; that it leaves a state behind which is
reached from there; that it has read at least `n` bytes if it succeeds, and left the position
as `φ` says if it fails; and that, unless something was too deep already, its result, where it
stands and what it noted are the reply of `p` at that cursor. A parser that gives up because
of the nesting says only that the flag is set afterwards.

One statement carries all of this because no part of it can be shown alone. A loop ends because
its rounds read something, a round ends because a level deeper everything does, and the flag
answers for the rest of a rule that goes on after a level was refused.

The judgement passes through every way of putting rules together, so that a rule is checked by
naming the judgements of its parts.
-/
import Stencil.Proofs.Scanner.Step

namespace Stencil

namespace Parse

/-! ## Notes by bytes -/

/-- The byte at which a character of a text begins; behind the text one byte for each. -/
def byteOffset : List Char → Nat → Nat
  | _, 0 => 0
  | [], n + 1 => n + 1
  | c :: cs, n + 1 => c.utf8Size + byteOffset cs n

theorem byteOffset_lt {text : List Char} {i j : Nat} (h : i < j) :
    byteOffset text i < byteOffset text j := by
  fun_induction byteOffset text j generalizing i with
  | case1 => omega
  | case2 j =>
    cases i with
    | zero => exact Nat.succ_pos j
    | succ i => exact h
  | case3 c cs j ih =>
    have hpos := c.utf8Size_pos
    cases i with
    | zero =>
      rw [byteOffset]
      omega
    | succ i =>
      have := ih (Nat.lt_of_succ_lt_succ h)
      rw [byteOffset]
      omega

theorem byteOffset_inj {text : List Char} {i j : Nat} (h : byteOffset text i = byteOffset text j) :
    i = j := by
  rcases Nat.lt_trichotomy i j with hlt | heq | hgt
  · exact absurd h (Nat.ne_of_lt (byteOffset_lt hlt))
  · exact heq
  · exact absurd h.symm (Nat.ne_of_lt (byteOffset_lt hgt))

theorem byteOffset_append (before after : List Char) :
    byteOffset (before ++ after) before.length = byteLength before := by
  induction before with
  | nil => cases after <;> rfl
  | cons c before ih => simp [byteOffset, byteLength, ih]

namespace Parser

variable {α β γ : Type}

theorem bind_assoc (p : Parser α) (q : α → Parser β) (g : β → Parser γ) :
    (p >>= q) >>= g = p >>= fun a => q a >>= g := by
  ext1
  funext c
  simp only [reply_bind]
  rcases p.reply c with ⟨⟨a, next⟩ | _ | _, missed⟩
  · simp only [Reply.after]
    rcases (q a).reply next with ⟨⟨b, last⟩ | _ | _, missed'⟩ <;> simp [Frontier.merge_assoc]
  · rfl
  · rfl

theorem pure_bind (a : α) (q : α → Parser β) : pure a >>= q = q a := by
  ext1
  funext c
  simp [Reply.after]

theorem bind_pure (p : Parser α) : p >>= pure = p := by
  ext1
  funext c
  rw [reply_bind]
  rcases p.reply c with ⟨⟨a, next⟩ | _ | _, missed⟩ <;> simp [Reply.after]

theorem map_bind (f : β → γ) (p : Parser α) (q : α → Parser β) :
    f <$> (p >>= q) = p >>= fun a => f <$> q a := by
  ext1
  funext c
  simp only [reply_map, reply_bind]
  rcases p.reply c with ⟨⟨a, next⟩ | _ | _, missed⟩
  · simp only [Reply.after]
    rcases (q a).reply next with ⟨⟨b, last⟩ | _ | _, missed'⟩ <;> rfl
  · rfl
  · rfl

end Parser

namespace Frontier

/-- The same notes with their place in bytes. -/
def inBytes (text : List Char) (f : Frontier) : Frontier := ⟨byteOffset text f.place, f.wanted⟩

@[simp] theorem inBytes_none (text : List Char) : none.inBytes text = none := by
  cases text <;> rfl

theorem inBytes_merge (text : List Char) (f g : Frontier) :
    (f.merge g).inBytes text = (f.inBytes text).merge (g.inBytes text) := by
  rcases Nat.lt_trichotomy f.place g.place with h | h | h
  · rw [merge_of_lt h, merge_of_lt (byteOffset_lt h)]
  · have hbytes : (f.inBytes text).place = (g.inBytes text).place := congrArg (byteOffset text) h
    rw [merge_of_eq h, merge_of_eq hbytes]
    rfl
  · rw [merge_of_gt h, merge_of_gt (byteOffset_lt h)]

end Frontier

end Parse

namespace Scanner

open Parse

variable {α β : Type} {σ τ υ : State} {c : Cursor}

/-! ## The judgement -/

/-- How a rule fails: not at all, with the position where it was, or anywhere behind it. -/
inductive Failing where
  | never
  | back
  | anywhere

namespace Failing

/-- Whether a rule that began at `σ` may fail and leave `τ` behind. -/
def Allows : Failing → State → State → Prop
  | never, _, _ => False
  | back, σ, τ => τ.position = σ.position
  | anywhere, _, _ => True

/-- How a sequence fails: a later part that fails does so behind what the earlier has read. -/
def andThen : Failing → Failing → Failing
  | φ, never => φ
  | _, _ => anywhere

theorem Allows.andThen_left {φ : Failing} (h : φ.Allows σ τ) (ψ : Failing) :
    (φ.andThen ψ).Allows σ τ := by
  cases ψ with
  | never => exact h
  | back => trivial
  | anywhere => trivial

theorem Allows.andThen_right {ψ : Failing} (h : ψ.Allows τ υ) (φ : Failing) :
    (φ.andThen ψ).Allows σ υ := by
  cases ψ with
  | never => exact h.elim
  | back => trivial
  | anywhere => trivial

end Failing

/-- A result and a state behind it are what a reply says. -/
def Tells (σ : State) : Reply α → Option α → State → Prop
  | ⟨.matched a next, missed⟩, r, τ =>
    r = some a ∧ τ.StandsAt next ∧ τ.tooDeep = false ∧
      τ.notes = σ.notes.merge (missed.inBytes σ.text)
  | ⟨.failed, missed⟩, r, τ =>
    r = none ∧ τ.tooDeep = false ∧ τ.notes = σ.notes.merge (missed.inBytes σ.text)
  | ⟨.tooDeep, _⟩, _, τ => τ.tooDeep = true

/-- Without a result, the parser has failed or given up. -/
theorem Tells.of_none {reply : Reply α} (h : Tells σ reply none τ) :
    (∃ missed, reply = ⟨.failed, missed⟩ ∧ τ.tooDeep = false ∧
      τ.notes = σ.notes.merge (missed.inBytes σ.text)) ∨
    ∃ missed, reply = ⟨.tooDeep, missed⟩ ∧ τ.tooDeep = true := by
  rcases reply with ⟨⟨a, next⟩ | _ | _, missed⟩
  · cases h.1
  · exact .inl ⟨missed, rfl, h.2⟩
  · exact .inr ⟨missed, rfl, h⟩

/-- With a result, the parser has matched up to where the state stands, or given up. -/
theorem Tells.of_some {reply : Reply α} {a : α} {next : Cursor} (h : Tells σ reply (some a) τ)
    (hnext : τ.StandsAt next) :
    (∃ missed, reply = ⟨.matched a next, missed⟩ ∧ τ.tooDeep = false ∧
      τ.notes = σ.notes.merge (missed.inBytes σ.text)) ∨
    ∃ missed, reply = ⟨.tooDeep, missed⟩ ∧ τ.tooDeep = true := by
  rcases reply with ⟨⟨b, next'⟩ | _ | _, missed⟩
  · obtain ⟨heq, hnext', ht⟩ := h
    obtain rfl := Option.some.inj heq
    obtain rfl := hnext.unique hnext'
    exact .inl ⟨missed, rfl, ht⟩
  · cases h.1
  · exact .inr ⟨missed, rfl, h⟩

/-- What is known of the result `r` and the state `τ` of a rule that began at `σ`. -/
structure Leaves (n : Nat) (φ : Failing) (reply : Reply α) (σ : State) (r : Option α)
    (τ : State) : Prop where
  reaches : σ.Reaches τ
  advances : r.isSome = true → σ.position + n ≤ τ.position
  fails : r = none → φ.Allows σ τ
  tells : σ.tooDeep = false → Tells σ reply r τ

/-- The rule ends at `σ`, and what it leaves behind is as it should be. -/
def PerformsAt (σ : State) (n : Nat) (φ : Failing) (m : Rule α) (reply : Reply α) : Prop :=
  ∃ r τ, m.on σ = some (r, τ) ∧ Leaves n φ reply σ r τ

/-- With `k` levels to go, the rule does what the parser says. -/
def Performs (k n : Nat) (φ : Failing) (m : Rule α) (p : Parser α) : Prop :=
  ∀ σ c, σ.StandsAt c → σ.levels = k → PerformsAt σ n φ m (p.reply c)

variable {k n n' : Nat} {φ ψ : Failing} {m m' : Rule α} {p p' : Parser α}

theorem PerformsAt.weaken {reply : Reply α} (h : PerformsAt σ n φ m reply) (hn : n' ≤ n)
    (hφ : φ = ψ ∨ ψ = .anywhere) : PerformsAt σ n' ψ m reply := by
  obtain ⟨r, τ, hon, hl⟩ := h
  refine ⟨r, τ, hon, hl.reaches, ?_, ?_, hl.tells⟩
  · intro hr
    exact Nat.le_trans (Nat.add_le_add_left hn _) (hl.advances hr)
  · intro hr
    obtain rfl | rfl := hφ
    · exact hl.fails hr
    · trivial

theorem Performs.weaken (h : Performs k n φ m p) (hn : n' ≤ n) (hφ : φ = ψ ∨ ψ = .anywhere) :
    Performs k n' ψ m p := fun σ c hc hk => (h σ c hc hk).weaken hn hφ

/-! ## Sequence and choice -/

theorem performs_pure (a : α) : Performs k 0 .never (pure a) (pure a) := by
  intro σ c hc _
  refine ⟨some a, σ, on_pure a σ, .refl hc.onBoundary, fun _ => Nat.le_refl _, nofun, ?_⟩
  intro hflag
  exact ⟨rfl, hc, hflag, by simp⟩

theorem Performs.map (h : Performs k n φ m p) (f : α → β) :
    Performs k n φ (f <$> m) (f <$> p) := by
  intro σ c hc hk
  obtain ⟨r, τ, hon, hl⟩ := h σ c hc hk
  refine ⟨r.map f, τ, ?_, hl.reaches, ?_, ?_, ?_⟩
  · rw [on_map, hon]
    rfl
  · intro hr
    exact hl.advances (by simpa using hr)
  · intro hr
    exact hl.fails (by simpa using hr)
  · intro hflag
    have ht := hl.tells hflag
    rw [Parser.reply_map]
    generalize p.reply c = reply at ht
    rcases reply with ⟨⟨a, next⟩ | _ | _, missed⟩
    · exact ⟨by rw [ht.1]; rfl, ht.2⟩
    · exact ⟨by rw [ht.1]; rfl, ht.2⟩
    · exact ht

/-- What a later rule tells of, told from where the earlier one began. -/
theorem Tells.after {reply : Reply α} {r : Option α} {missed : Frontier} (h : Tells τ reply r υ)
    (htext : τ.text = σ.text) (hnotes : τ.notes = σ.notes.merge (missed.inBytes σ.text)) :
    Tells σ (reply.after missed) r υ := by
  rcases reply with ⟨⟨a, next⟩ | _ | _, missed'⟩
  · obtain ⟨hr, hnext, hflag, hυ⟩ := h
    refine ⟨hr, hnext, hflag, ?_⟩
    rw [hυ, hnotes, htext, Frontier.inBytes_merge, Frontier.merge_assoc]
  · obtain ⟨hr, hflag, hυ⟩ := h
    refine ⟨hr, hflag, ?_⟩
    rw [hυ, hnotes, htext, Frontier.inBytes_merge, Frontier.merge_assoc]
  · exact h

theorem PerformsAt.bind {f : α → Rule β} {q : α → Parser β} (h : PerformsAt σ n φ m (p.reply c))
    (hf : ∀ a τ next, σ.Reaches τ → σ.position + n ≤ τ.position → τ.StandsAt next →
      PerformsAt τ n' ψ (f a) ((q a).reply next)) :
    PerformsAt σ (n + n') (φ.andThen ψ) (m >>= f) ((p >>= q).reply c) := by
  obtain ⟨_ | a, τ, hon, hl⟩ := h
  · refine ⟨none, τ, on_bind_of_none hon, hl.reaches, nofun, ?_, ?_⟩
    · intro _
      exact (hl.fails rfl).andThen_left ψ
    · intro hflag
      obtain ⟨missed, hreply, ht⟩ | ⟨missed, hreply, hdeep⟩ := (hl.tells hflag).of_none
      · rw [Parser.reply_bind, hreply]
        exact ⟨rfl, ht⟩
      · rw [Parser.reply_bind, hreply]
        exact hdeep
  · obtain ⟨next, hnext⟩ := State.onBoundary_iff.mp hl.reaches.onBoundary
    have hadvances := hl.advances rfl
    obtain ⟨r, υ, hon', hl'⟩ := hf a τ next hl.reaches hadvances hnext
    refine ⟨r, υ, by rw [on_bind_of_some hon, hon'], hl.reaches.trans hl'.reaches, ?_, ?_, ?_⟩
    · intro hr
      have := hl'.advances hr
      omega
    · intro hr
      exact (hl'.fails hr).andThen_right φ
    · intro hflag
      obtain ⟨missed, hreply, hτ, hnotes⟩ | ⟨missed, hreply, hdeep⟩ :=
        (hl.tells hflag).of_some hnext
      · rw [Parser.reply_bind, hreply]
        exact (hl'.tells hτ).after hl.reaches.text hnotes
      · -- nothing is said of what follows, but the flag stays
        rw [Parser.reply_bind, hreply]
        exact hl'.reaches.tooDeep hdeep

theorem Performs.bind {f : α → Rule β} {q : α → Parser β} (h : Performs k n φ m p)
    (hf : ∀ a, Performs k n' ψ (f a) (q a)) :
    Performs k (n + n') (φ.andThen ψ) (m >>= f) (p >>= q) := by
  intro σ c hc hk
  refine (h σ c hc hk).bind ?_
  intro a τ next hreaches _ hnext
  exact hf a τ next hnext (hreaches.levels.trans hk)

/-- What is returned is made of what was read. -/
theorem PerformsAt.returning (h : PerformsAt σ n φ m (p.reply c)) (f : α → β) :
    PerformsAt σ n φ (do return f (← m)) ((do return f (← p)).reply c) :=
  h.bind fun a _ _ _ _ hnext => performs_pure (f a) _ _ hnext rfl

/-- A value is returned whether the rule succeeds or not, and the position is where it was if it
does not. -/
theorem Performs.perhaps (h : Performs k n .back m p) :
    Performs k 0 .never (perhaps m) p.optional := by
  intro σ c hc hk
  obtain ⟨r, τ, hon, hl⟩ := h σ c hc hk
  refine ⟨some r, τ, perhaps_on hon, hl.reaches, fun _ => hl.reaches.position, nofun, ?_⟩
  · intro hflag
    have ht := hl.tells hflag
    rw [Parser.optional, Parser.reply_orElse, Parser.reply_map]
    generalize p.reply c = reply at ht
    rcases reply with ⟨⟨a, next⟩ | _ | _, missed⟩
    · exact ⟨by rw [ht.1], ht.2⟩
    · obtain ⟨rfl, hτ, hnotes⟩ := ht
      refine ⟨rfl, hc.congr hl.reaches.text (hl.fails rfl), hτ, ?_⟩
      rw [hnotes]
      simp
    · exact ht

/-- What goes on behind a rule only where the rule succeeds must not fail, since the parser
would then go back to before the rule. -/
theorem PerformsAt.maybe {f : α → Rule β} {q : α → Parser β} {b : β} (hc : σ.StandsAt c)
    (h : PerformsAt σ n .back m (p.reply c))
    (hf : ∀ a τ next, σ.Reaches τ → σ.position + n ≤ τ.position → τ.StandsAt next →
      PerformsAt τ 0 .never (f a) ((q a).reply next)) :
    PerformsAt σ 0 .never (maybe m f b) (((p >>= q) <|> pure b).reply c) := by
  obtain ⟨_ | a, τ, hon, hl⟩ := h
  · refine ⟨some b, τ, ?_, hl.reaches, fun _ => hl.reaches.position, nofun, ?_⟩
    · rw [maybe_on_of_none hon]
    · intro hflag
      obtain ⟨missed, hreply, hτ, hnotes⟩ | ⟨missed, hreply, hdeep⟩ := (hl.tells hflag).of_none
      · rw [Parser.reply_orElse, Parser.reply_bind, hreply]
        refine ⟨rfl, hc.congr hl.reaches.text (hl.fails rfl), hτ, ?_⟩
        rw [hnotes]
        simp
      · rw [Parser.reply_orElse, Parser.reply_bind, hreply]
        exact hdeep
  · obtain ⟨next, hnext⟩ := State.onBoundary_iff.mp hl.reaches.onBoundary
    obtain ⟨r, υ, hon', hl'⟩ := hf a τ next hl.reaches (hl.advances rfl) hnext
    have hreaches := hl.reaches.trans hl'.reaches
    refine ⟨r, υ, ?_, hreaches, fun _ => hreaches.position, hl'.fails, ?_⟩
    · rw [maybe_on_of_some hon, hon']
    · intro hflag
      obtain ⟨missed, hreply, hτ, hnotes⟩ | ⟨missed, hreply, hdeep⟩ :=
        (hl.tells hflag).of_some hnext
      · rw [Parser.reply_orElse, Parser.reply_bind, hreply]
        have htells := (hl'.tells hτ).after hl.reaches.text hnotes
        have hfails := hl'.fails
        simp only
        generalize (q a).reply next = reply at htells
        rcases reply with ⟨⟨b', last⟩ | _ | _, missed'⟩
        · exact htells
        · exact (hfails htells.1).elim
        · exact htells
      · rw [Parser.reply_orElse, Parser.reply_bind, hreply]
        exact hl'.reaches.tooDeep hdeep

theorem Performs.orElse (h : Performs k n .back m p) (h' : Performs k n φ m' p') :
    Performs k n φ (orElse m m') (p <|> p') := by
  intro σ c hc hk
  obtain ⟨_ | a, τ, hon, hl⟩ := h σ c hc hk
  · have hback : τ.StandsAt c := hc.congr hl.reaches.text (hl.fails rfl)
    obtain ⟨r, υ, hon', hl'⟩ := h' τ c hback (hl.reaches.levels.trans hk)
    refine ⟨r, υ, ?_, hl.reaches.trans hl'.reaches, ?_, ?_, ?_⟩
    · rw [Scanner.orElse, on_bind_of_some (perhaps_on hon), hon']
    · intro hr
      have := hl'.advances hr
      have hpos : τ.position = σ.position := hl.fails rfl
      omega
    · intro hr
      have hfails := hl'.fails hr
      have hpos : τ.position = σ.position := hl.fails rfl
      cases φ with
      | never => exact hfails
      | back => exact Eq.trans hfails hpos
      | anywhere => trivial
    · intro hflag
      obtain ⟨missed, hreply, hτ, hnotes⟩ | ⟨missed, hreply, hdeep⟩ := (hl.tells hflag).of_none
      · rw [Parser.reply_orElse, hreply]
        exact (hl'.tells hτ).after hl.reaches.text hnotes
      · rw [Parser.reply_orElse, hreply]
        exact hl'.reaches.tooDeep hdeep
  · refine ⟨some a, τ, ?_, hl.reaches, hl.advances, nofun, ?_⟩
    · rw [Scanner.orElse, on_bind_of_some (perhaps_on hon), on_pure]
    · intro hflag
      have ht := hl.tells hflag
      rw [Parser.reply_orElse]
      generalize p.reply c = reply at ht
      rcases reply with ⟨⟨b, next⟩ | _ | _, missed⟩
      · exact ht
      · cases ht.1
      · exact ht

/-- Set back, a rule fails where it began. -/
theorem Performs.attempt (h : Performs k n φ m p) : Performs k n .back (attempt m) p := by
  intro σ c hc hk
  obtain ⟨_ | a, τ, hon, hl⟩ := h σ c hc hk
  · refine ⟨none, _, ?_, hl.reaches.reset hc.onBoundary, nofun, fun _ => rfl, ?_⟩
    · rw [Scanner.attempt, on_bind_of_some (on_mark σ), on_bind_of_some (perhaps_on hon)]
      rfl
    · intro hflag
      obtain ⟨missed, hreply, ht⟩ | ⟨missed, hreply, hdeep⟩ := (hl.tells hflag).of_none
      · rw [hreply]
        exact ⟨rfl, ht⟩
      · rw [hreply]
        exact hdeep
  · refine ⟨some a, τ, ?_, hl.reaches, hl.advances, nofun, hl.tells⟩
    rw [Scanner.attempt, on_bind_of_some (on_mark σ), on_bind_of_some (perhaps_on hon), on_pure]

/-! ## Levels -/

/-- Where no level is left, none is begun. -/
theorem performs_nested_zero (n : Nat) (m : Rule α) :
    Performs 0 n .back (nested m) Parser.tooDeep := by
  intro σ c hc hk
  have hon : (nested m).on σ = some (none, { σ with tooDeep := true }) :=
    on_bind_of_none (descend_on_refused (.inr hk))
  exact ⟨none, _, hon, .refused hc.onBoundary, nofun, fun _ => rfl, fun _ => rfl⟩

theorem Performs.nested (h : Performs k n φ m p) :
    Performs (k + 1) n .anywhere (nested m) p := by
  intro σ c hc hk
  by_cases hflag : σ.tooDeep = true
  · have hon : (Scanner.nested m).on σ = some (none, { σ with tooDeep := true }) :=
      on_bind_of_none (descend_on_refused (.inl hflag))
    exact ⟨none, _, hon, .refused hc.onBoundary, nofun, fun _ => trivial, by simp [hflag]⟩
  · rw [Bool.not_eq_true] at hflag
    have hsub : σ.limits.maxDepth - σ.depth = k + 1 := hk
    have hlevels : State.levels { σ with depth := σ.depth + 1 } = k := by
      show σ.limits.maxDepth - (σ.depth + 1) = k
      omega
    obtain ⟨r, τ, hon, hl⟩ := h { σ with depth := σ.depth + 1 } c (hc.congr rfl rfl) hlevels
    have hdepth : τ.depth = σ.depth + 1 := hl.reaches.depth
    have hrun : (Scanner.nested m).on σ = some (r, { τ with depth := σ.depth }) := by
      rw [Scanner.nested, on_bind_of_some (descend_on hflag (by omega)),
        on_bind_of_some (perhaps_on hon), on_bind_of_some (ascend_on hdepth)]
      cases r <;> rfl
    refine ⟨r, _, hrun, hl.reaches.ascended, hl.advances, fun _ => trivial, ?_⟩
    intro _
    have ht := hl.tells hflag
    generalize p.reply c = reply at ht
    rcases reply with ⟨⟨a, next⟩ | _ | _, missed⟩
    · exact ⟨ht.1, ht.2.1.congr rfl rfl, ht.2.2⟩
    · exact ht
    · exact ht

/-- What performs with as many levels as it is given performs with the levels that are left. -/
theorem Performs.levelled (f : Nat → Rule α) (h : Performs k n φ (f k) p) :
    Performs k n φ (levelled f) p := by
  intro σ c hc hk
  rw [PerformsAt, levelled_on, hk]
  exact h σ c hc hk

/-! ## Loops -/

/-- Whatever a rule performs that reads something reads something. -/
theorem Performs.advances (h : Performs k n φ m p) (hn : 0 < n) : p.Advances := by
  intro c a next missed hreply
  -- a text in which the cursor stands, and limits with as many levels
  let before := List.replicate c.place ' '
  let σ : State := { text := before ++ c.rest, limits := ⟨0, k⟩, position := byteLength before }
  have hc : σ.StandsAt c := ⟨before, ⟨rfl, by simp [before]⟩, rfl⟩
  obtain ⟨r, τ, -, hl⟩ := h σ c hc rfl
  have ht := hl.tells rfl
  rw [hreply] at ht
  obtain ⟨rfl, hnext, -⟩ := ht
  exact hl.reaches.length_lt hc hnext (Nat.lt_of_lt_of_le (Nat.lt_add_of_pos_right hn)
    (hl.advances rfl))

/-- With more rounds than characters left, a loop that reads something in every round ends, and
repeats what its rounds read. -/
theorem Performs.roundsWithin {head : Rule α} {body : α → Rule β} {q : α → Parser β}
    (h : Performs k n .back head p) (hbody : ∀ a, Performs k n' .never (body a) (q a))
    (hn : 0 < n + n') {left : Nat} (hc : σ.StandsAt c) (hk : σ.levels = k)
    (hleft : c.rest.length < left) :
    PerformsAt σ 0 .never (roundsWithin head body left) ((p >>= q).many.reply c) := by
  have hadvances : (p >>= q).Advances := (h.bind hbody).advances hn
  induction left generalizing σ c with
  | zero => exact absurd hleft (Nat.not_lt_zero _)
  | succ left ih =>
    rw [Scanner.roundsWithin, Parser.many_eq hadvances, Parser.bind_assoc]
    refine (h σ c hc hk).maybe hc ?_
    intro a τ next hfirst hread hnext
    have hothers (b : β) (υ : State) (next' : Cursor) (hsecond : τ.Reaches υ)
        (hread' : τ.position + n' ≤ υ.position) (hnext' : υ.StandsAt next') :
        PerformsAt υ 0 .never (do return b :: (← Scanner.roundsWithin head body left))
          ((do return b :: (← (p >>= q).many)).reply next') := by
      have hreaches := hfirst.trans hsecond
      have hshorter := hreaches.length_lt hc hnext' (by omega)
      exact (ih hnext' (hreaches.levels.trans hk) (by omega)).returning _
    have hround := hbody a τ next hnext (hfirst.levels.trans hk)
    exact (hround.bind hothers).weaken (Nat.zero_le _) (.inl rfl)

theorem Performs.rounds {head : Rule α} {body : α → Rule β} {q : α → Parser β}
    (h : Performs k n .back head p) (hbody : ∀ a, Performs k n' .never (body a) (q a))
    (hn : 0 < n + n') : Performs k 0 .never (rounds head body) (p >>= q).many := by
  intro σ c hc hk
  have hleft : c.rest.length < byteLength σ.text - σ.position + 1 :=
    Nat.lt_succ_of_le (hc.bytesLeft ▸ length_le_byteLength c.rest)
  rw [PerformsAt, rounds_on]
  exact h.roundsWithin hbody hn hc hk hleft

/-- The loop that only collects what its rounds read. -/
theorem Performs.repeated (h : Performs k n .back m p) (hn : 0 < n) :
    Performs k 0 .never (Scanner.rounds m pure) p.many := by
  have hrounds := h.rounds performs_pure hn
  rwa [Parser.bind_pure] at hrounds

end Scanner

end Stencil

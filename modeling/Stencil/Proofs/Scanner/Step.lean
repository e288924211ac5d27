/-
# Stencil.Proofs.Scanner.Step -- single steps

What each step of a scanner does to a state that stands at a cursor, and what is kept between
two states of which the later is left behind by a rule that began at the earlier (`Reaches`):
the text, the limits and the depth are the same, the flag and the furthest place only go up,
and the position stands between two characters, not before where it was.
-/
import Stencil.Proofs.Lexeme
import Stencil.Proofs.Scanner.Basic
import Stencil.Proofs.Whole

namespace Stencil

namespace Parse

/-! ## Bytes and characters -/

/-- A text may be cut behind so many bytes: there is a character boundary, or one of its ends. -/
def IsBoundary (text : List Char) (n : Nat) : Prop :=
  ∃ before after, text = before ++ after ∧ n = byteLength before

/-- A text is split at the end of each of its beginnings. -/
theorem splitBytes?_append (before after : List Char) :
    splitBytes? (byteLength before) (before ++ after) = some (before, after) := by
  induction before with
  | nil => cases after <;> rfl
  | cons c before ih =>
    have hpos := c.utf8Size_pos
    obtain ⟨n, hn⟩ : ∃ n, byteLength (c :: before) = n + 1 :=
      Nat.exists_eq_add_of_le' (byteLength_pos (by simp))
    have hlen : n + 1 = c.utf8Size + byteLength before := hn.symm
    rw [hn, List.cons_append, splitBytes?, if_pos (by omega),
      show n + 1 - c.utf8Size = byteLength before by omega, ih]
    rfl

/-- A text is split at the end of each of its beginnings, and nowhere else. -/
theorem splitBytes?_eq_some_iff {n : Nat} {cs before after : List Char} :
    splitBytes? n cs = some (before, after) ↔ cs = before ++ after ∧ n = byteLength before := by
  constructor
  · intro h
    fun_induction splitBytes? n cs generalizing before with
    | case1 cs =>
      obtain ⟨rfl, rfl⟩ : [] = before ∧ cs = after := by simpa using h
      exact ⟨rfl, rfl⟩
    | case2 n => simp at h
    | case3 n c cs hle ih =>
      obtain ⟨⟨before', after'⟩, hsplit, heq⟩ := Option.map_eq_some_iff.mp h
      obtain ⟨rfl, rfl⟩ : c :: before' = before ∧ after' = after := by simpa using heq
      obtain ⟨rfl, hn⟩ := ih hsplit
      exact ⟨rfl, by rw [byteLength]; omega⟩
    | case4 n c cs hlt => simp at h
  · rintro ⟨rfl, rfl⟩
    exact splitBytes?_append before after

end Parse

namespace Scanner

open Parse

variable {α β : Type} {m : Rule α} {σ τ υ : State} {c next : Cursor} {s : List Char}

/-! ## Running rules -/

theorem on_pure (a : α) (σ : State) : (pure a : Rule α).on σ = some (some a, σ) := rfl

theorem on_failure (σ : State) : (failure : Rule α).on σ = some (none, σ) := rfl

/-- A sequence goes on from where its first rule succeeded. -/
theorem on_bind_of_some {f : α → Rule β} {a : α} (h : m.on σ = some (some a, τ)) :
    (m >>= f).on σ = (f a).on τ := by
  show (m.run.run σ).bind _ = _
  rw [show m.run.run σ = some (some a, τ) from h]
  rfl

theorem on_bind_of_none {f : α → Rule β} (h : m.on σ = some (none, τ)) :
    (m >>= f).on σ = some (none, τ) := by
  show (m.run.run σ).bind _ = _
  rw [show m.run.run σ = some (none, τ) from h]
  rfl

theorem on_map (f : α → β) : (f <$> m).on σ = (m.on σ).map fun (r, τ) => (r.map f, τ) := by
  show (m.run.run σ).bind _ = (m.run.run σ).map _
  rcases m.run.run σ with _ | ⟨_ | a, τ⟩ <;> rfl

theorem perhaps_on {r : Option α} (h : m.on σ = some (r, τ)) :
    (perhaps m).on σ = some (some r, τ) := by
  show (m.run.run σ).bind _ = _
  rw [show m.run.run σ = some (r, τ) from h]
  rfl

/-- Whether a rule succeeds decides what comes after it, and its failure is none of the whole. -/
theorem maybe_on_of_some {f : α → Rule β} {b : β} {a : α} (h : m.on σ = some (some a, τ)) :
    (maybe m f b).on σ = (f a).on τ := by
  rw [maybe, on_bind_of_some (perhaps_on h)]

theorem maybe_on_of_none {f : α → Rule β} {b : β} (h : m.on σ = some (none, τ)) :
    (maybe m f b).on σ = some (some b, τ) := by
  rw [maybe, on_bind_of_some (perhaps_on h), on_pure]

theorem on_get (σ : State) : (get : Rule State).on σ = some (some σ, σ) := rfl

theorem levelled_on (f : Nat → Rule α) (σ : State) : (levelled f).on σ = (f σ.levels).on σ := by
  rw [levelled, on_bind_of_some (on_get σ)]

/-- A loop is allowed as many rounds as there are bytes left, and one more. -/
theorem rounds_on (head : Rule α) (body : α → Rule β) (σ : State) :
    (rounds head body).on σ =
      (roundsWithin head body (byteLength σ.text - σ.position + 1)).on σ := by
  rw [rounds, on_bind_of_some (on_get σ)]

theorem on_mark (σ : State) : mark.on σ = some (some σ.position, σ) := rfl

theorem on_reset (n : Nat) (σ : State) : (reset n).on σ = some (some (), { σ with position := n }) :=
  rfl

theorem on_atEnd (σ : State) :
    atEnd.on σ = some (some (decide (byteLength σ.text ≤ σ.position)), σ) := rfl

/-! ## Standing at a cursor -/

namespace State

/-- The position is a boundary of the text. -/
def OnBoundary (σ : State) : Prop := IsBoundary σ.text σ.position

/-- The position is that of a cursor in the text. -/
def StandsAt (σ : State) (c : Cursor) : Prop :=
  ∃ before, (⟨0, σ.text⟩ : Cursor).Spans before c ∧ σ.position = byteLength before

/-- A position is a boundary just if it is that of a cursor. -/
theorem onBoundary_iff : σ.OnBoundary ↔ ∃ c, σ.StandsAt c := by
  constructor
  · rintro ⟨before, after, htext, hpos⟩
    exact ⟨_, before, Cursor.spans_advance htext, hpos⟩
  · rintro ⟨c, before, hspan, hpos⟩
    exact ⟨before, c.rest, hspan.1, hpos⟩

/-- The position in bytes determines the cursor. -/
theorem StandsAt.unique {c' : Cursor} (h : σ.StandsAt c) (h' : σ.StandsAt c') : c = c' := by
  obtain ⟨before, ⟨hrest, hplace⟩, hpos⟩ := h
  obtain ⟨before', ⟨hrest', hplace'⟩, hpos'⟩ := h'
  have hsplit := splitBytes?_eq_some_iff.mpr ⟨hrest, hpos⟩
  rw [splitBytes?_eq_some_iff.mpr ⟨hrest', hpos'⟩] at hsplit
  obtain ⟨rfl, heq⟩ : before' = before ∧ c'.rest = c.rest := by simpa using hsplit
  rcases c with ⟨place, rest⟩
  rcases c' with ⟨place', rest'⟩
  simp_all

/-- To stand at a cursor is a matter of text and position alone. -/
theorem StandsAt.congr (h : σ.StandsAt c) (htext : τ.text = σ.text)
    (hpos : τ.position = σ.position) : τ.StandsAt c := by
  obtain ⟨before, hspan, hbefore⟩ := h
  exact ⟨before, htext ▸ hspan, hpos ▸ hbefore⟩

theorem StandsAt.onBoundary (h : σ.StandsAt c) : σ.OnBoundary := onBoundary_iff.mpr ⟨c, h⟩

/-- The bytes that are left are those of the rest of the cursor. -/
theorem StandsAt.bytesLeft (h : σ.StandsAt c) :
    byteLength σ.text - σ.position = byteLength c.rest := by
  obtain ⟨before, ⟨hrest, -⟩, hpos⟩ := h
  have htext : σ.text = before ++ c.rest := hrest
  rw [htext, hpos, byteLength_append, Nat.add_sub_cancel_left]

/-- The state behind some more text. -/
def past (σ : State) (s : List Char) : State := { σ with position := σ.position + byteLength s }

@[simp] theorem past_nil (σ : State) : σ.past [] = σ := rfl

theorem past_past (σ : State) (s t : List Char) : (σ.past s).past t = σ.past (s ++ t) := by
  simp [past, Nat.add_assoc]

theorem StandsAt.past (h : σ.StandsAt c) (hs : c.Spans s next) : (σ.past s).StandsAt next := by
  obtain ⟨before, hspan, hpos⟩ := h
  exact ⟨before ++ s, hspan.trans hs, by rw [State.past, hpos, byteLength_append]⟩

/-- The furthest notes. -/
def notes (σ : State) : Frontier := ⟨σ.furthest, σ.wanted⟩

/-- The state with one more note. -/
def noting (σ : State) (e : Expected) : State :=
  { σ with
    furthest := (σ.notes.record σ.position e).place
    wanted := (σ.notes.record σ.position e).wanted }

@[simp] theorem notes_noting (σ : State) (e : Expected) :
    (σ.noting e).notes = σ.notes.record σ.position e := rfl

end State

/-! ## What the steps do -/

/-- The three cases of a note, at a place further on, at the furthest place and before it, are those
of `Frontier.record`. -/
theorem expected_on (e : Expected) (σ : State) :
    (expected e).on σ = some (some (), σ.noting e) := by
  rcases σ with ⟨text, limits, position, depth, tooDeep, furthest, wanted⟩
  refine congrArg (fun τ => some (some (), τ)) ?_
  rcases Nat.lt_trichotomy furthest position with hlt | rfl | hgt
  · simp [State.noting, State.notes, Frontier.record, Frontier.missing, Frontier.merge_of_lt, hlt]
  · by_cases he : e ∈ wanted <;>
      simp [State.noting, State.notes, Frontier.record, Frontier.missing, Frontier.merge_of_eq, he]
  · simp [State.noting, State.notes, Frontier.record, Frontier.missing, Frontier.merge_of_gt, hgt,
      Nat.lt_asymm hgt, Nat.ne_of_lt hgt]

/-- At a cursor, the rest of the text can be looked at. -/
theorem rest_on (h : σ.StandsAt c) : rest.on σ = some (some c.rest, σ) := by
  obtain ⟨before, hspan, hpos⟩ := h
  rw [rest, on_bind_of_some (on_get σ), splitBytes?_eq_some_iff.mpr ⟨hspan.1, hpos⟩]
  rfl

/-- What is cut out is what was read since the mark. -/
theorem slice_on (h : σ.StandsAt c) (hs : c.Spans s next) :
    (slice σ.position).on (σ.past s) = some (some s, σ.past s) := by
  obtain ⟨before, hspan, hpos⟩ := h
  have hmark : splitBytes? σ.position (before ++ s) = some (before, s) :=
    splitBytes?_eq_some_iff.mpr ⟨rfl, hpos⟩
  have hend : splitBytes? (σ.past s).position (σ.past s).text = some (before ++ s, next.rest) := by
    refine splitBytes?_eq_some_iff.mpr ⟨(hspan.trans hs).1, ?_⟩
    rw [State.past, hpos, byteLength_append]
  rw [slice, on_bind_of_some (on_get _), hend]
  simp only [hmark]
  rfl

/-! ## What is read -/

variable {token : String} {p : Char → Bool} {e : Expected}

/-- A rule that misses something makes a note and fails, and moves nothing. -/
theorem missing_on (e : Expected) (σ : State) :
    (do expected e; failure : Rule α).on σ = some (none, σ.noting e) :=
  on_bind_of_some (expected_on e σ)

theorem move_token_on (token : String) (σ : State) :
    (move token.utf8ByteSize).on σ = some (some (), σ.past token.toList) := by
  rw [utf8ByteSize_eq_byteLength]
  rfl

/-- A token that stands there is passed. -/
theorem eat_on (h : σ.StandsAt c) (hs : c.Spans token.toList next) :
    (eat token).on σ = some (some (), σ.past token.toList) := by
  have hthere : token.toList.isPrefixOf c.rest = true := by simp [hs.1]
  rw [eat, on_bind_of_some (rest_on h), if_pos hthere]
  exact move_token_on token σ

/-- A token that does not stand there is noted. -/
theorem eat_on_missing (h : σ.StandsAt c) (hno : ¬ token.toList <+: c.rest) :
    (eat token).on σ = some (none, σ.noting (.text token)) := by
  rw [eat, on_bind_of_some (rest_on h), if_neg (by simpa using hno)]
  exact missing_on _ σ

/-- An optional token is passed if it stands there, and is not noted if it does not. -/
theorem accept_on (h : σ.StandsAt c) (hs : c.Spans token.toList next) :
    (accept token).on σ = some (some true, σ.past token.toList) := by
  have hthere : token.toList.isPrefixOf c.rest = true := by simp [hs.1]
  rw [accept, on_bind_of_some (rest_on h), if_pos hthere, on_bind_of_some (move_token_on token σ),
    on_pure]

theorem accept_on_missing (h : σ.StandsAt c) (hno : ¬ token.toList <+: c.rest) :
    (accept token).on σ = some (some false, σ) := by
  rw [accept, on_bind_of_some (rest_on h), if_neg (by simpa using hno), on_pure]

/-- Looking ahead for a token passes nothing, and notes it if it is not there. -/
theorem ahead_on (h : σ.StandsAt c) (hs : c.Spans token.toList next) :
    (ahead token).on σ = some (some (), σ) := by
  have hthere : token.toList.isPrefixOf c.rest = true := by simp [hs.1]
  rw [ahead, on_bind_of_some (rest_on h), if_pos hthere, on_pure]

theorem ahead_on_missing (h : σ.StandsAt c) (hno : ¬ token.toList <+: c.rest) :
    (ahead token).on σ = some (none, σ.noting (.text token)) := by
  rw [ahead, on_bind_of_some (rest_on h), if_neg (by simpa using hno)]
  exact missing_on _ σ

theorem eatIf_on {x : Char} {cs : List Char} (h : σ.StandsAt c) (hc : c.rest = x :: cs)
    (hx : p x = true) : (eatIf e p).on σ = some (some (), σ.past [x]) := by
  rw [eatIf, on_bind_of_some (rest_on h), hc]
  simp only [List.head?_cons, hx, ↓reduceIte]
  rfl

theorem eatIf_on_missing (h : σ.StandsAt c) (hclear : Clear p c.rest) :
    (eatIf e p).on σ = some (none, σ.noting e) := by
  rw [eatIf, on_bind_of_some (rest_on h)]
  rcases hc : c.rest with _ | ⟨x, cs⟩
  · exact missing_on e σ
  · rw [hc, clear_cons] at hclear
    simp only [List.head?_cons, hclear, Bool.false_eq_true, ↓reduceIte]
    exact missing_on e σ

/-- `more` holds before every character of `s`, and no longer behind it. -/
def Runs (more : List Char → Bool) : (s rest : List Char) → Prop
  | [], rest => rest = [] ∨ more rest = false
  | x :: s, rest => more (x :: (s ++ rest)) = true ∧ Runs more s rest

theorem charIf_on {x : Char} {cs : List Char} {more : List Char → Bool} (h : σ.StandsAt c)
    (hc : c.rest = x :: cs) (hmore : more (x :: cs) = true) :
    (charIf more).on σ = some (some x, σ.past [x]) := by
  rw [charIf, on_bind_of_some (rest_on h), hc]
  simp only [hmore, ↓reduceIte]
  rfl

theorem charIf_on_missing {more : List Char → Bool} (h : σ.StandsAt c)
    (hno : c.rest = [] ∨ more c.rest = false) : (charIf more).on σ = some (none, σ) := by
  rw [charIf, on_bind_of_some (rest_on h)]
  rcases hc : c.rest with _ | ⟨x, cs⟩
  · rfl
  · have hmore : more (x :: cs) = false := by simpa [hc] using hno
    simp only [hmore]
    rfl

/-- The loop over characters ends, whatever it looks at, if there are more rounds than
characters. -/
theorem charsWithin_on (more : List Char → Bool) {n : Nat} (h : σ.StandsAt c)
    (hn : c.rest.length < n) :
    ∃ s next, c.Spans s next ∧ Runs more s next.rest ∧
      (roundsWithin (charIf more) pure n).on σ = some (some s, σ.past s) := by
  induction n generalizing σ c with
  | zero => exact absurd hn (Nat.not_lt_zero _)
  | succ n ih =>
    -- the loop ends here, or goes on behind one more character with one round less
    by_cases hno : c.rest = [] ∨ more c.rest = false
    · refine ⟨[], c, Cursor.spans_nil c, hno, ?_⟩
      rw [roundsWithin, maybe_on_of_none (charIf_on_missing h hno), State.past_nil]
    · rw [not_or, Bool.not_eq_false] at hno
      obtain ⟨x, cs, hc⟩ := List.exists_cons_of_ne_nil hno.1
      have hmore : more (x :: cs) = true := hc ▸ hno.2
      have hs : c.Spans [x] (c.advance 1 cs) := Cursor.spans_advance hc
      have hlen : cs.length < n := by
        rw [hc, List.length_cons] at hn
        exact Nat.lt_of_succ_lt_succ hn
      obtain ⟨s, next, hspan, hruns, hon⟩ := ih (h.past hs) hlen
      have hrest : cs = s ++ next.rest := hspan.1
      refine ⟨x :: s, next, hs.trans hspan, ⟨hrest ▸ hmore, hruns⟩, ?_⟩
      rw [roundsWithin, maybe_on_of_some (charIf_on h hc hmore), on_bind_of_some (on_pure x _),
        on_bind_of_some hon, on_pure, State.past_past]
      rfl

/-- The rounds that are allowed suffice: each of them passes a byte at least. -/
theorem skipWhile_on (more : List Char → Bool) (h : σ.StandsAt c) :
    ∃ s next, c.Spans s next ∧ Runs more s next.rest ∧
      (skipWhile more).on σ = some (some (), σ.past s) := by
  have hlen : c.rest.length < byteLength σ.text - σ.position + 1 :=
    Nat.lt_succ_of_le (h.bytesLeft ▸ length_le_byteLength c.rest)
  obtain ⟨s, next, hs, hruns, hon⟩ := charsWithin_on more h hlen
  exact ⟨s, next, hs, hruns, on_bind_of_some ((rounds_on _ _ σ).trans hon)⟩

/-- If each round looks at one character, what is passed is the longest run. -/
theorem Runs.takeWhile_eq {s rest : List Char} (h : Runs (fun cs => cs.head?.any p) s rest) :
    (s ++ rest).takeWhile p = s ∧ (s ++ rest).dropWhile p = rest := by
  induction s with
  | nil =>
    -- nothing is left, or its first character ends the run
    rcases h with rfl | hstop
    · exact ⟨rfl, rfl⟩
    · cases rest with
      | nil => exact ⟨rfl, rfl⟩
      | cons x rest => simp_all
  | cons x s ih =>
    obtain ⟨hx, hs⟩ := h
    have hpx : p x = true := by simpa using hx
    simpa [hpx] using ih hs

theorem spans_takeWhile (p : Char → Bool) (c : Cursor) :
    c.Spans (c.rest.takeWhile p) (c.advance (c.rest.takeWhile p).length (c.rest.dropWhile p)) :=
  Cursor.spans_advance List.takeWhile_append_dropWhile.symm

/-- A run is cut out as a whole. -/
theorem eatWhile_on (p : Char → Bool) (h : σ.StandsAt c) :
    (eatWhile p).on σ = some (some (c.rest.takeWhile p), σ.past (c.rest.takeWhile p)) := by
  obtain ⟨s, next, hs, hruns, hon⟩ := skipWhile_on (fun cs => cs.head?.any p) h
  have htake : c.rest.takeWhile p = s := hs.1 ▸ hruns.takeWhile_eq.1
  rw [eatWhile, on_bind_of_some (on_mark σ), on_bind_of_some hon, slice_on h hs, htake]

/-! ## Levels -/

/-- A level is refused where none is left, and after that always. -/
theorem descend_on_refused (h : σ.tooDeep = true ∨ σ.levels = 0) :
    descend.on σ = some (none, { σ with tooDeep := true }) := by
  have hcond : σ.tooDeep = true ∨ σ.limits.maxDepth ≤ σ.depth :=
    h.imp_right Nat.le_of_sub_eq_zero
  rw [descend, on_bind_of_some (on_get σ), if_pos hcond]
  rfl

/-- Otherwise a level is begun. -/
theorem descend_on (h : σ.tooDeep = false) (hlevels : 0 < σ.levels) :
    descend.on σ = some (some (), { σ with depth := σ.depth + 1 }) := by
  have hcond : ¬ (σ.tooDeep = true ∨ σ.limits.maxDepth ≤ σ.depth) := by
    simp only [h, Bool.false_eq_true, false_or, Nat.not_le]
    exact Nat.lt_of_sub_pos hlevels
  rw [descend, on_bind_of_some (on_get σ), if_neg hcond]
  rfl

theorem ascend_on {depth : Nat} (h : σ.depth = depth + 1) :
    ascend.on σ = some (some (), { σ with depth }) := by
  rw [ascend, on_bind_of_some (on_get σ)]
  simp only [h]
  rfl

/-! ## What is kept -/

/-- `τ` may be left behind by a rule that began at `σ`. -/
structure State.Reaches (σ τ : State) : Prop where
  text : τ.text = σ.text
  limits : τ.limits = σ.limits
  depth : τ.depth = σ.depth
  /-- Once set, the flag stays set. -/
  tooDeep : σ.tooDeep = true → τ.tooDeep = true
  furthest : σ.furthest ≤ τ.furthest
  /-- What is noted last may be shown: the text can be cut there. -/
  furthestBoundary : IsBoundary σ.text σ.furthest → IsBoundary τ.text τ.furthest
  position : σ.position ≤ τ.position
  onBoundary : τ.OnBoundary

namespace State.Reaches

theorem refl (h : σ.OnBoundary) : σ.Reaches σ :=
  ⟨rfl, rfl, rfl, id, Nat.le_refl _, id, Nat.le_refl _, h⟩

theorem trans (h : σ.Reaches τ) (h' : τ.Reaches υ) : σ.Reaches υ where
  text := h'.text.trans h.text
  limits := h'.limits.trans h.limits
  depth := h'.depth.trans h.depth
  tooDeep := h'.tooDeep ∘ h.tooDeep
  furthest := Nat.le_trans h.furthest h'.furthest
  furthestBoundary := h'.furthestBoundary ∘ h.furthestBoundary
  position := Nat.le_trans h.position h'.position
  onBoundary := h'.onBoundary

theorem levels (h : σ.Reaches τ) : τ.levels = σ.levels := by
  rw [State.levels, h.limits, h.depth, State.levels]

/-- Setting the position back to where it was forgets nothing but the position. -/
theorem reset (h : σ.Reaches τ) (hσ : σ.OnBoundary) :
    σ.Reaches { τ with position := σ.position } where
  text := h.text
  limits := h.limits
  depth := h.depth
  tooDeep := h.tooDeep
  furthest := h.furthest
  furthestBoundary := h.furthestBoundary
  position := Nat.le_refl _
  onBoundary := by
    obtain ⟨before, after, htext, hpos⟩ := hσ
    exact ⟨before, after, h.text.trans htext, hpos⟩

theorem past (h : σ.StandsAt c) (hs : c.Spans s next) : σ.Reaches (σ.past s) where
  text := rfl
  limits := rfl
  depth := rfl
  tooDeep := id
  furthest := Nat.le_refl _
  furthestBoundary := id
  position := Nat.le_add_right ..
  onBoundary := (h.past hs).onBoundary

theorem noting (h : σ.OnBoundary) (e : Expected) : σ.Reaches (σ.noting e) where
  text := rfl
  limits := rfl
  depth := rfl
  tooDeep := id
  furthest := by
    show σ.notes.place ≤ (σ.notes.merge _).place
    rw [Frontier.place_merge]
    exact Nat.le_max_left ..
  furthestBoundary := by
    intro hfurthest
    show IsBoundary σ.text (σ.notes.merge _).place
    rw [Frontier.place_merge, Nat.max_def]
    split
    · exact h
    · exact hfurthest
  position := Nat.le_refl _
  onBoundary := h

/-- A refused level sets the flag and nothing else. -/
theorem refused (h : σ.OnBoundary) : σ.Reaches { σ with tooDeep := true } where
  text := rfl
  limits := rfl
  depth := rfl
  tooDeep _ := rfl
  furthest := Nat.le_refl _
  furthestBoundary := id
  position := Nat.le_refl _
  onBoundary := h

/-- What is reached a level deeper is reached, once the level is ended. -/
theorem ascended (h : State.Reaches { σ with depth := σ.depth + 1 } τ) :
    σ.Reaches { τ with depth := σ.depth } where
  text := h.text
  limits := h.limits
  depth := rfl
  tooDeep := h.tooDeep
  furthest := h.furthest
  furthestBoundary := h.furthestBoundary
  position := h.position
  onBoundary := h.onBoundary

/-- What was read in between stands between the cursors. -/
theorem spans (h : σ.Reaches τ) (hc : σ.StandsAt c) (hnext : τ.StandsAt next) :
    ∃ s, c.Spans s next ∧ τ.position = σ.position + byteLength s := by
  obtain ⟨before, ⟨hrest, hplace⟩, hpos⟩ := hc
  obtain ⟨before', ⟨hrest', hplace'⟩, hpos'⟩ := hnext
  have htext : before ++ c.rest = before' ++ next.rest := by
    rw [← hrest, ← hrest']
    exact h.text.symm
  have hle := h.position
  obtain ⟨s, rfl, hs⟩ | ⟨s, rfl, hs⟩ := List.append_eq_append_iff.mp htext
  · refine ⟨s, ⟨hs, ?_⟩, ?_⟩
    · rw [hplace', hplace, List.length_append, Nat.add_assoc]
    · rw [hpos', hpos, byteLength_append]
  · -- the later position is not before the earlier one
    rw [hpos, hpos', byteLength_append] at hle
    have hlen := length_le_byteLength s
    obtain rfl : s = [] := List.eq_nil_of_length_eq_zero (by omega)
    refine ⟨[], ⟨hs.symm, ?_⟩, ?_⟩
    · simp [hplace, hplace']
    · simp [hpos, hpos', byteLength]

/-- A rule that has moved leaves fewer characters. -/
theorem length_lt (h : σ.Reaches τ) (hc : σ.StandsAt c) (hnext : τ.StandsAt next)
    (hlt : σ.position < τ.position) : next.rest.length < c.rest.length := by
  obtain ⟨s, hs, hpos⟩ := h.spans hc hnext
  have hne : s ≠ [] := by
    rintro rfl
    rw [hpos] at hlt
    exact Nat.lt_irrefl _ hlt
  have hlen := hs.length
  have := List.length_pos_iff.mpr hne
  omega

end State.Reaches

end Scanner

end Stencil

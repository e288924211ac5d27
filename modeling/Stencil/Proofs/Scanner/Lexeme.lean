/-
# Stencil.Proofs.Scanner.Lexeme -- lexemes in place

The rules for blanks, tokens, names, numbers and texts perform the parsers of the same names. A
number is the one lexeme that sets the position back to two places, its beginning and the end of
its whole part; what comes of that is one equation, `number_on`.
-/
import Stencil.Proofs.Scanner.Grammar
import Stencil.Proofs.Scanner.Performs

namespace Stencil.Scanner

open Parse
open Parse.Parser (want)

variable {α β : Type} {σ τ : State} {c next : Cursor} {s : List Char} {k n : Nat} {φ : Failing}
  {m : Rule α} {reply : Reply α}

/-! ## Replies without notes, and with one -/

/-- The rule succeeds and has read `s`. -/
theorem performsAt_past {a : α} (hc : σ.StandsAt c) (hs : c.Spans s next)
    (hon : m.on σ = some (some a, σ.past s)) (hn : n ≤ byteLength s)
    (hreply : reply = ⟨.matched a next, .none⟩) : PerformsAt σ n φ m reply := by
  refine ⟨some a, σ.past s, hon, .past hc hs, fun _ => Nat.add_le_add_left hn _, nofun, ?_⟩
  intro hflag
  rw [hreply]
  exact ⟨rfl, hc.past hs, hflag, by simp [State.past, State.notes]⟩

/-- The rule fails and has read nothing. -/
theorem performsAt_failed (hc : σ.StandsAt c) (hon : m.on σ = some (none, σ))
    (hreply : reply = ⟨.failed, .none⟩) : PerformsAt σ n .back m reply := by
  refine ⟨none, σ, hon, .refl hc.onBoundary, nofun, fun _ => rfl, ?_⟩
  intro hflag
  rw [hreply]
  exact ⟨rfl, hflag, by simp⟩

/-- The note of the parser is that of the rule. -/
theorem inBytes_missing (hc : σ.StandsAt c) (e : Expected) :
    (Frontier.missing c.place e).inBytes σ.text = .missing σ.position e := by
  obtain ⟨before, hspan, hpos⟩ := hc
  obtain ⟨htext, hplace⟩ := Cursor.spans_start_iff.mp hspan
  rw [Frontier.inBytes, Frontier.missing, htext, hplace, byteOffset_append, hpos, Frontier.missing]

/-- The rule fails because `e` is missing. -/
theorem performsAt_missing {e : Expected} (hc : σ.StandsAt c)
    (hon : m.on σ = some (none, σ.noting e)) (hreply : reply = (want e : Parser α).reply c) :
    PerformsAt σ n .back m reply := by
  refine ⟨none, σ.noting e, hon, .noting hc.onBoundary e, nofun, fun _ => rfl, ?_⟩
  intro hflag
  rw [hreply]
  exact ⟨rfl, hflag, by rw [inBytes_missing hc]; rfl⟩

/-! ## Blanks and tokens -/

/-- A run never fails, and may be empty. -/
theorem performs_eatWhile (p : Char → Bool) :
    Performs k 0 .never (eatWhile p) (Parser.takeWhile p) := by
  intro σ c hc _
  exact performsAt_past hc (spans_takeWhile p c) (eatWhile_on p hc) (Nat.zero_le _) rfl

theorem performs_blanks : Performs k 0 .never blanks Parser.blanks := by
  intro σ c hc _
  exact performsAt_past hc (spans_takeWhile _ c) (on_bind_of_some (eatWhile_on _ hc))
    (Nat.zero_le _) rfl

theorem token_reply {token : String} {rest : List Char} (h : c.rest = token.toList ++ rest) :
    (Parser.token token).reply c = ⟨.matched () (c.advance token.length rest), .none⟩ := by
  simp [Parser.token, Parser.strip?_eq_some_iff.mpr h]

theorem token_reply_missing {token : String} (h : ¬ token.toList <+: c.rest) :
    (Parser.token token).reply c = (want (.text token)).reply c := by
  simp [Parser.token, Parser.strip?_eq_none_iff.mpr h]

/-- A token is passed or noted, as the parser reads or misses it. -/
theorem performs_eat (token : String) :
    Performs k token.utf8ByteSize .back (eat token) (Parser.token token) := by
  intro σ c hc _
  by_cases hthere : token.toList <+: c.rest
  · obtain ⟨rest, hrest⟩ := hthere
    have hs := Cursor.spans_advance hrest.symm
    refine performsAt_past hc hs (eat_on hc hs) (Nat.le_of_eq (utf8ByteSize_eq_byteLength _)) ?_
    rw [token_reply hrest.symm, String.length_toList]
  · exact performsAt_missing hc (eat_on_missing hc hthere) (token_reply_missing hthere)

/-- To look for a token before a rule that begins with it makes no difference. -/
theorem PerformsAt.ahead {token : String} {q : Unit → Parser α} (hc : σ.StandsAt c)
    (h : token.toList <+: c.rest →
      PerformsAt σ n .anywhere m ((Parser.token token >>= q).reply c)) :
    PerformsAt σ n .anywhere (do ahead token; m) ((Parser.token token >>= q).reply c) := by
  by_cases hthere : token.toList <+: c.rest
  · obtain ⟨r, τ, hon, hl⟩ := h hthere
    obtain ⟨cs, hcs⟩ := hthere
    have hs := Cursor.spans_advance hcs.symm
    exact ⟨r, τ, by rw [on_bind_of_some (ahead_on hc hs), hon], hl⟩
  · have hreply : (Parser.token token >>= q).reply c = (want (.text token) : Parser α).reply c := by
      rw [Parser.reply_bind, token_reply_missing hthere]
      rfl
    exact (performsAt_missing hc (on_bind_of_none (ahead_on_missing hc hthere)) hreply).weaken
      (Nat.le_refl n) (.inr rfl)

/-- An optional token never fails. -/
theorem performs_accept (token : String) :
    Performs k 0 .never (accept token) (Parser.accept token) := by
  intro σ c hc _
  rcases hstrip : Parser.strip? token.toList c.rest with _ | rest
  · refine performsAt_past hc (Cursor.spans_nil c)
      (accept_on_missing hc (Parser.strip?_eq_none_iff.mp hstrip)) (Nat.zero_le _) ?_
    simp [Parser.accept, hstrip]
  · have hs := Cursor.spans_advance (Parser.strip?_eq_some_iff.mp hstrip)
    refine performsAt_past hc hs (accept_on hc hs) (Nat.zero_le _) ?_
    simp [Parser.accept, hstrip, String.length_toList]

/-- A look at the next character moves nothing, even if it fails. -/
theorem performs_notBefore (p : Char → Bool) :
    Performs k 0 .back (notBefore p) (Parser.notBefore p) := by
  intro σ c hc _
  have hrun : (notBefore p).on σ =
      (if c.rest.head?.any p then failure else pure () : Rule Unit).on σ := by
    rw [notBefore, on_bind_of_some (rest_on hc)]
  rcases c with ⟨place, _ | ⟨x, cs⟩⟩
  · exact performsAt_past hc (Cursor.spans_nil _) hrun (Nat.zero_le _) rfl
  · by_cases hx : p x = true
    · rw [if_pos (by simpa using hx), on_failure] at hrun
      exact performsAt_failed hc hrun (by simp [Parser.notBefore, hx, Parser.fail])
    · rw [if_neg (by simpa using hx), on_pure] at hrun
      exact performsAt_past hc (Cursor.spans_nil _) hrun (Nat.zero_le _)
        (by simp [Parser.notBefore, hx, Parser.done])

/-! ## Names and words -/

theorem identifier_on_missing (hc : σ.StandsAt c) (h : Clear isNameStart c.rest) :
    identifier.on σ = some (none, σ.noting .identifier) := by
  rw [identifier, on_bind_of_some (on_mark σ), on_bind_of_none (eatIf_on_missing hc h)]

/-- An identifier is its first character and the longest run behind it. -/
theorem identifier_on {x : Char} {cs : List Char} (hc : σ.StandsAt c) (hrest : c.rest = x :: cs)
    (hx : isNameStart x = true) :
    identifier.on σ = some (some (String.ofList (x :: cs.takeWhile isNameRest)),
      σ.past (x :: cs.takeWhile isNameRest)) := by
  have hfirst : c.Spans [x] (c.advance 1 cs) := Cursor.spans_advance hrest
  have hs := hfirst.trans (spans_takeWhile isNameRest (c.advance 1 cs))
  rw [identifier, on_bind_of_some (on_mark σ), on_bind_of_some (eatIf_on hc hrest hx),
    on_bind_of_some (eatWhile_on _ (hc.past hfirst)), State.past_past,
    on_bind_of_some (slice_on hc hs), on_pure]
  rfl

/-- The only note is made in front of the first character, so that a failed identifier has moved
nothing. -/
theorem performs_identifier : Performs k 1 .back identifier Parser.identifier := by
  intro σ c hc _
  by_cases hclear : Clear isNameStart c.rest
  · refine performsAt_missing hc (identifier_on_missing hc hclear) ?_
    rcases hrest : c.rest with _ | ⟨x, cs⟩
    · simp [Parser.identifier, Parser.one, hrest, want]
    · rw [hrest, clear_cons] at hclear
      simp [Parser.identifier, Parser.one, hrest, hclear, want]
  · obtain ⟨x, cs, hrest, hx⟩ : ∃ x cs, c.rest = x :: cs ∧ isNameStart x = true := by
      rcases hrest : c.rest with _ | ⟨x, cs⟩
      · simp [hrest] at hclear
      · exact ⟨x, cs, rfl, by simpa [hrest] using hclear⟩
    have hfirst : c.Spans [x] (c.advance 1 cs) := Cursor.spans_advance hrest
    have hs := hfirst.trans (spans_takeWhile isNameRest (c.advance 1 cs))
    refine performsAt_past hc hs (identifier_on hc hrest hx) (byteLength_pos (by simp)) ?_
    simp [Parser.identifier, Parser.one, Parser.takeWhile, hrest, hx, Reply.after, Cursor.advance]

/-- A word that goes on as a longer name is given back as a whole. -/
theorem performs_keyword (word : String) :
    Performs k word.utf8ByteSize .back (keyword word) (Parser.keyword word) :=
  ((performs_eat word).bind fun _ => performs_notBefore _).attempt

/-! ## Numbers -/

/-- The point is left where no digit stands behind it. -/
theorem fraction_on (hc : σ.StandsAt c) :
    fraction.on σ = some (some (), σ.past (scanFraction c.rest)) := by
  by_cases hpoint : ".".toList <+: c.rest
  · obtain ⟨cs, hcs⟩ := hpoint
    have hrest : c.rest = '.' :: cs := hcs.symm
    have hs : c.Spans ".".toList (c.advance 1 cs) := Cursor.spans_advance hcs.symm
    rw [fraction, on_bind_of_some (on_mark σ), on_bind_of_some (accept_on hc hs), if_pos rfl,
      on_bind_of_some (eatWhile_on _ (hc.past hs)), hrest, scanFraction]
    by_cases hdigits : (cs.takeWhile Char.isDigit).isEmpty = true
    · simp only [Cursor.advance, hdigits, ↓reduceIte]
      rfl
    · simp only [Cursor.advance, hdigits, Bool.false_eq_true, ↓reduceIte]
      rw [on_pure, State.past_past]
      rfl
  · have hfraction : scanFraction c.rest = [] := by
      unfold scanFraction
      split
      · rename_i cs hrest
        exact absurd ⟨cs, hrest.symm⟩ hpoint
      · rfl
    rw [fraction, on_bind_of_some (on_mark σ), on_bind_of_some (accept_on_missing hc hpoint),
      hfraction]
    rfl

/-- What becomes of a number of which the sign `s` and the digits `digits` are there. -/
def numberFrom (σ : State) (s digits : List Char) : Option (Option Value × State) :=
  if digits.isEmpty then some (none, σ.noting .number)
  else
    match Value.ofNumeral? (s ++ digits) with
    | some v => some (some v, σ.past (s ++ digits))
    | none => some (none, σ)

/-- Behind a sign, if there is one, the longest numeral is read. Where no digit follows, the
position is set back in front of the sign. -/
theorem numeralFrom_on (hc : σ.StandsAt c) (hs : c.Spans s next) :
    (numeralFrom σ.position).on (σ.past s) = numberFrom σ s (scanUnsigned next.rest) := by
  obtain ⟨mid, hdigits, hmid⟩ : ∃ mid, next.Spans (next.rest.takeWhile Char.isDigit) mid ∧
      mid.rest = next.rest.dropWhile Char.isDigit := ⟨_, spans_takeWhile _ next, rfl⟩
  rw [numeralFrom, on_bind_of_some (eatWhile_on _ (hc.past hs)), numberFrom, scanUnsigned]
  by_cases hempty : (next.rest.takeWhile Char.isDigit).isEmpty = true
  · simp only [hempty, ↓reduceIte, List.isEmpty_nil]
    rw [on_bind_of_some (on_reset _ _), List.isEmpty_iff.mp hempty]
    exact missing_on .number σ
  · obtain ⟨-, rest, hrest⟩ := scanFraction_spec mid.rest
    have hall := (hs.trans hdigits).trans (Cursor.spans_advance hrest)
    rw [List.append_assoc] at hall
    have hne : ¬ (next.rest.takeWhile Char.isDigit ++ scanFraction mid.rest).isEmpty = true := by
      rw [List.isEmpty_iff, List.append_eq_nil_iff]
      rintro ⟨h, -⟩
      exact hempty (List.isEmpty_iff.mpr h)
    simp only [hempty, ← hmid, hne, Bool.false_eq_true, ↓reduceIte]
    rw [on_bind_of_some (fraction_on ((hc.past hs).past hdigits)), State.past_past,
      State.past_past, on_bind_of_some (slice_on hc hall)]
    cases Value.ofNumeral? (s ++ (next.rest.takeWhile Char.isDigit ++ scanFraction mid.rest)) with
    | some v => rfl
    | none => rfl

/-- A number reads the longest numeral; without one it notes that a number is missing, and
without a finite value it notes nothing. It fails where it began. -/
theorem number_on (hc : σ.StandsAt c) : number.on σ = numberFrom σ [] (scanNumeral c.rest) := by
  rw [number, on_bind_of_some (on_mark σ)]
  by_cases hsign : "-".toList <+: c.rest
  · obtain ⟨cs, hcs⟩ := hsign
    have hs : c.Spans "-".toList (c.advance 1 cs) := Cursor.spans_advance hcs.symm
    have hrest : c.rest = '-' :: cs := hcs.symm
    rw [on_bind_of_some (accept_on hc hs), numeralFrom_on hc hs, hrest, scanNumeral]
    by_cases hempty : (scanUnsigned cs).isEmpty = true
    · simp [numberFrom, Cursor.advance, hempty]
    · simp [numberFrom, Cursor.advance, hempty]
  · have hnumeral : scanNumeral c.rest = scanUnsigned c.rest := by
      refine scanNumeral_of_no_sign ?_
      rintro cs hrest
      exact hsign ⟨cs, hrest.symm⟩
    have hdigits := numeralFrom_on hc (Cursor.spans_nil c)
    rw [State.past_nil] at hdigits
    rw [on_bind_of_some (accept_on_missing hc hsign), hnumeral, hdigits]

/-- The three cases of a number, in one of which nothing is noted, are those of the parser. -/
theorem performs_number : Performs k 1 .back number Parser.number := by
  intro σ c hc _
  have hrun := number_on hc
  by_cases hempty : scanNumeral c.rest = []
  · rw [hempty] at hrun
    exact performsAt_missing hc hrun (by simp [Parser.number, hempty])
  · obtain ⟨-, rest, hrest⟩ := scanNumeral_spec c.rest hempty
    have hs := Cursor.spans_advance hrest
    have hdrop : c.rest.drop (scanNumeral c.rest).length = rest :=
      (congrArg (List.drop _) hrest).trans List.drop_left
    cases hvalue : Value.ofNumeral? (scanNumeral c.rest) with
    | some v =>
      have hsome : number.on σ = some (some v, σ.past (scanNumeral c.rest)) := by
        simp [hrun, numberFrom, hempty, hvalue]
      exact performsAt_past hc hs hsome (byteLength_pos hempty)
        (by simp [Parser.number, hempty, hvalue, hdrop])
    | none =>
      have hnone : number.on σ = some (none, σ) := by simp [hrun, numberFrom, hempty, hvalue]
      exact performsAt_failed hc hnone (by simp [Parser.number, hempty, hvalue, Parser.fail])

/-- A quoted text without its closing quote is given back as a whole. -/
theorem performs_quotedText : Performs k 2 .back quotedText Parser.quotedText :=
  ((performs_eat "\"").bind fun _ => (performs_eatWhile _).bind fun body =>
    (performs_eat "\"").bind fun _ => performs_pure (String.ofList body)).attempt

end Stencil.Scanner

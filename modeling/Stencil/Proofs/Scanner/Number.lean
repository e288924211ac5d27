/-
# Stencil.Proofs.Scanner.Number -- the longest numeral

A number is read where the text goes on with a numeral, and of the numerals with which it goes on
the longest is taken (`LeadingNumeral`). That is said without a scanner. The scanner arrives at
it by giving back what it has read: the point alone where no digit stands behind it, the sign
where none stands behind that, and the whole numeral where it has no finite value. So the length
of what is read has to be right in three places, with two marks to go back to.

Every numeral that a text begins with is a beginning of what the scan takes
(`Numeral.isPrefix_scanNumeral`), and so the scan takes the longest. That a numeral has a value
or none is said of the binary64 number next to it, whether or not the value is one
(`ofNumeral?_eq_none_iff`): integers of 64 bits, which are not rounded, are all finite.
-/
import Stencil.Proofs.Scanner.Lexeme
import Stencil.Proofs.Value.Literal

namespace Stencil

open Parse

variable {s cs whole fraction digits : List Char}

/-! ## The longest numeral -/

/-- The text begins with the numeral, and with no longer one. -/
structure LeadingNumeral (s cs : List Char) : Prop where
  numeral : Numeral s
  begins : s <+: cs
  longest : ∀ t, Numeral t → t <+: cs → t.length ≤ s.length

theorem Digits.isPrefix_takeWhile (h : Digits digits) (hbegins : digits <+: cs) :
    digits <+: cs.takeWhile Char.isDigit := by
  obtain ⟨rest, rfl⟩ := hbegins
  rw [List.takeWhile_append_of_pos h.2]
  exact List.prefix_append ..

/-- What begins with a text that is not empty is not empty. -/
theorem isEmpty_eq_false_of_isPrefix (hne : s ≠ []) (h : s <+: cs) : cs.isEmpty = false := by
  rw [List.isEmpty_eq_false_iff]
  rintro rfl
  exact hne (List.prefix_nil.mp h)

theorem Fraction.isPrefix_scanFraction (h : Fraction fraction) (hbegins : fraction <+: cs) :
    fraction <+: scanFraction cs := by
  rcases h with rfl | ⟨digits, hdigits, rfl⟩
  · exact List.nil_prefix
  · obtain ⟨rest, rfl⟩ := hbegins
    have htaken := hdigits.isPrefix_takeWhile (List.prefix_append digits rest)
    have hne := isEmpty_eq_false_of_isPrefix hdigits.1 htaken
    rw [List.cons_append, scanFraction]
    simp only [hne, Bool.false_eq_true, ↓reduceIte]
    exact List.cons_prefix_cons.mpr ⟨rfl, htaken⟩

theorem isPrefix_scanUnsigned (hw : Digits whole) (hf : Fraction fraction)
    (hbegins : whole ++ fraction <+: cs) : whole ++ fraction <+: scanUnsigned cs := by
  have htaken := hw.isPrefix_takeWhile ((List.prefix_append whole fraction).trans hbegins)
  have hne := isEmpty_eq_false_of_isPrefix hw.1 htaken
  rw [scanUnsigned]
  simp only [hne, Bool.false_eq_true, ↓reduceIte]
  rcases hf with rfl | ⟨digits, hdigits, rfl⟩
  · rw [List.append_nil]
    exact htaken.trans (List.prefix_append ..)
  · obtain ⟨rest, rfl⟩ := hbegins
    have hclear : Clear Char.isDigit ('.' :: digits ++ rest) := clear_cons.mpr rfl
    rw [List.append_assoc, takeWhile_append_clear hw.2 hclear, dropWhile_append_clear hw.2 hclear]
    refine (List.prefix_append_right_inj whole).mpr ?_
    exact Fraction.isPrefix_scanFraction (.inr ⟨digits, hdigits, rfl⟩) (List.prefix_append ..)

/-- Of two numerals that a text begins with, the scan has taken the longer one. -/
theorem Numeral.isPrefix_scanNumeral (h : Numeral s) (hbegins : s <+: cs) :
    s <+: scanNumeral cs := by
  obtain ⟨sign, whole, fraction, hsign, hw, hf, rfl⟩ := h
  obtain ⟨rest, rfl⟩ := hbegins
  have hunsigned := isPrefix_scanUnsigned hw hf (List.prefix_append (whole ++ fraction) rest)
  rcases hsign with rfl | rfl
  · rw [List.nil_append, scanNumeral_of_no_sign]
    · exact hunsigned
    · intro tail
      rw [List.append_assoc]
      exact hw.append_ne_sign _ tail
  · have hne : whole ++ fraction ≠ [] := List.append_ne_nil_of_left_ne_nil hw.1 _
    have hsome := isEmpty_eq_false_of_isPrefix hne hunsigned
    show '-' :: (whole ++ fraction) <+: scanNumeral ('-' :: (whole ++ fraction ++ rest))
    rw [scanNumeral]
    simp only [hsome, Bool.false_eq_true, ↓reduceIte]
    exact List.cons_prefix_cons.mpr ⟨rfl, hunsigned⟩

theorem scanNumeral_eq_nil_iff : scanNumeral cs = [] ↔ ∀ s, Numeral s → ¬ s <+: cs := by
  constructor
  · intro hnil s hs hbegins
    exact scanNumeral_ne_nil hs hbegins hnil
  · intro hno
    refine Classical.byContradiction fun hne => ?_
    obtain ⟨hnumeral, rest, hrest⟩ := scanNumeral_spec cs hne
    exact hno _ hnumeral ⟨rest, hrest.symm⟩

theorem leadingNumeral_iff : LeadingNumeral s cs ↔ s ≠ [] ∧ scanNumeral cs = s := by
  constructor
  · intro h
    have hne := scanNumeral_ne_nil h.numeral h.begins
    obtain ⟨hnumeral, rest, hrest⟩ := scanNumeral_spec cs hne
    have hbegins := h.numeral.isPrefix_scanNumeral h.begins
    have heq := hbegins.eq_of_length_le (h.longest _ hnumeral ⟨rest, hrest.symm⟩)
    exact ⟨heq ▸ hne, heq.symm⟩
  · rintro ⟨hne, rfl⟩
    obtain ⟨hnumeral, rest, hrest⟩ := scanNumeral_spec cs hne
    refine ⟨hnumeral, ⟨rest, hrest.symm⟩, ?_⟩
    intro t ht hbegins
    exact (ht.isPrefix_scanNumeral hbegins).length_le

/-- A text begins with no numeral, or with exactly one longest. -/
theorem not_numeral_or_existsUnique (cs : List Char) :
    (∀ s, Numeral s → ¬ s <+: cs) ∨ ∃! s, LeadingNumeral s cs := by
  by_cases hnil : scanNumeral cs = []
  · exact .inl (scanNumeral_eq_nil_iff.mp hnil)
  · refine .inr ⟨scanNumeral cs, leadingNumeral_iff.mpr ⟨hnil, rfl⟩, ?_⟩
    intro s hs
    exact (leadingNumeral_iff.mp hs).2.symm

/-! ## Signs and points -/

theorem Fraction.leads_behind {x : Char} {before behind : List Char} (h : Fraction fraction)
    (hx : x.isDigit = false) (heq : fraction = before ++ x :: behind) :
    Leads Char.isDigit behind := by
  rcases h with rfl | ⟨digits, hdigits, rfl⟩
  · simp at heq
  · rcases List.cons_eq_append_iff.mp heq with ⟨-, hpoint⟩ | ⟨before, -, hinside⟩
    · obtain ⟨-, rfl⟩ := List.cons.inj hpoint
      exact hdigits.leads
    · have hdigit := hdigits.2 x (by simp [hinside])
      rw [hx] at hdigit
      cases hdigit

theorem leads_of_unsigned {x : Char} {before behind : List Char} (hw : Digits whole)
    (hf : Fraction fraction) (hx : x.isDigit = false)
    (heq : whole ++ fraction = before ++ x :: behind) : Leads Char.isDigit behind := by
  have hno : x ∉ whole := by
    intro hmem
    rw [hw.2 x hmem] at hx
    cases hx
  rcases List.append_eq_append_iff.mp heq with ⟨inside, -, hinside⟩ | ⟨inside, hwhole, htail⟩
  · exact hf.leads_behind hx hinside
  · cases inside with
    | nil =>
      have hfirst : fraction = [] ++ x :: behind := htail.symm
      exact hf.leads_behind hx hfirst
    | cons y inside =>
      obtain ⟨rfl, -⟩ := List.cons.inj htail
      exact absurd (by simp [hwhole]) hno

/-- Behind each sign and each point of a numeral stands a digit of it. -/
theorem Numeral.leads_behind {x : Char} {before behind : List Char} (h : Numeral s)
    (hx : x.isDigit = false) (heq : s = before ++ x :: behind) : Leads Char.isDigit behind := by
  obtain ⟨sign, whole, fraction, hsign, hw, hf, rfl⟩ := h
  rcases hsign with rfl | rfl
  · exact leads_of_unsigned hw hf hx heq
  · have hcons : '-' :: (whole ++ fraction) = before ++ x :: behind := heq
    rcases List.cons_eq_append_iff.mp hcons with ⟨-, hfirst⟩ | ⟨before, -, hinside⟩
    · obtain ⟨-, rfl⟩ := List.cons.inj hfirst
      exact hw.leads.append fraction
    · exact leads_of_unsigned hw hf hx hinside

/-! ## Numerals without a value -/

/-- The sign as a truth value. -/
theorem Numeral.exists_sign (h : Numeral s) :
    ∃ negative whole fraction, Digits whole ∧ Fraction fraction ∧
      s = Decimal.sign negative ++ (whole ++ fraction) := by
  obtain ⟨sign, whole, fraction, rfl | rfl, hw, hf, rfl⟩ := h
  · exact ⟨false, whole, fraction, hw, hf, rfl⟩
  · exact ⟨true, whole, fraction, hw, hf, rfl⟩

theorem Double.isFinite_ofDecimal {negative : Bool} {coefficient j : Nat}
    (h : coefficient ≤ 2 ^ j) (hj : j < 1024) :
    (ofDecimal ⟨negative, coefficient, 0⟩).isFinite = true := by
  show (round negative (coefficient * 1 * Grid.one) 1).isFinite = true
  rw [Nat.mul_one]
  exact isFinite_of_toInt? (round_mul_one (Grid.nearest_lt_size h hj))

/-- An integer of 64 bits is finite, and so it makes no difference that it is not rounded. -/
theorem Value.ofNumeral?_digits_eq_none_iff (h : Digits digits) (negative : Bool) :
    ofNumeral? (Decimal.sign negative ++ digits) = none ↔
      (Double.ofDecimal ⟨negative, Nat.ofDigitChars 10 digits 0, 0⟩).isFinite = false := by
  rw [ofNumeral?_digits h]
  cases hint : int64? (literalInt negative digits) with
  | some k =>
    -- what fits is far below the first number that is rounded to an infinity
    have habs : (literalInt negative digits).natAbs = Nat.ofDigitChars 10 digits 0 :=
      Double.natAbs_signed ..
    have hfits := fitsInt64_toInt k
    rw [int64?_eq_some_iff.mp hint] at hfits
    have hle : Nat.ofDigitChars 10 digits 0 ≤ 2 ^ 63 := by
      obtain ⟨hlow, hhigh⟩ := hfits
      omega
    simp [Double.isFinite_ofDecimal hle (by decide)]
  | none => simp

theorem Value.ofNumeral?_point_eq_none_iff (hw : Digits whole) (hd : Digits digits)
    (negative : Bool) :
    ofNumeral? (Decimal.sign negative ++ (whole ++ '.' :: digits)) = none ↔
      (Double.ofDecimal
        ⟨negative, Nat.ofDigitChars 10 (whole ++ digits) 0, -digits.length⟩).isFinite = false := by
  unfold ofNumeral?
  rw [Decimal.read?_point hw hd, Decimal.isInteger_point hw]
  simp

/-- A numeral has no value just if the binary64 number nearest to it is not finite. -/
theorem Value.ofNumeral?_eq_none_iff (h : Numeral s) :
    ofNumeral? s = none ↔
      ∃ d, Decimal.read? s = some d ∧ (Double.ofDecimal d).isFinite = false := by
  obtain ⟨negative, whole, fraction, hw, rfl | ⟨digits, hd, rfl⟩, rfl⟩ := h.exists_sign
  · rw [List.append_nil, Decimal.read?_digits hw, ofNumeral?_digits_eq_none_iff hw]
    simp
  · rw [Decimal.read?_point hw hd, ofNumeral?_point_eq_none_iff hw hd]
    simp

/-! ## What a number reads -/

namespace Parse.Parser

variable {c : Cursor}

theorem number_reply_missing (h : ∀ s, Numeral s → ¬ s <+: c.rest) :
    number.reply c = ⟨.failed, .missing c.place .number⟩ := by
  simp [number, scanNumeral_eq_nil_iff.mpr h, want]

theorem number_reply_none (hs : LeadingNumeral s c.rest) (hv : Value.ofNumeral? s = none) :
    number.reply c = ⟨.failed, .none⟩ := by
  obtain ⟨hne, rfl⟩ := leadingNumeral_iff.mp hs
  simp [number, hne, hv, fail]

theorem number_reply_some {v : Value} (hs : LeadingNumeral s c.rest)
    (hv : Value.ofNumeral? s = some v) :
    ∃ next, c.Spans s next ∧ number.reply c = ⟨.matched v next, .none⟩ := by
  obtain ⟨hne, rfl⟩ := leadingNumeral_iff.mp hs
  obtain ⟨rest, hrest⟩ := hs.begins
  have hdrop : c.rest.drop (scanNumeral c.rest).length = rest :=
    (congrArg (List.drop _) hrest.symm).trans List.drop_left
  refine ⟨_, Cursor.spans_advance hrest.symm, ?_⟩
  simp [number, hne, hv, hdrop]

end Parse.Parser

namespace Scanner

variable {σ : State} {c : Cursor}

theorem number_on_missing (hc : σ.StandsAt c) (h : ∀ s, Numeral s → ¬ s <+: c.rest) :
    number.on σ = some (none, σ.noting .number) := by
  rw [number_on hc, scanNumeral_eq_nil_iff.mpr h]
  rfl

theorem number_on_of_leading (hc : σ.StandsAt c) (hs : LeadingNumeral s c.rest) :
    number.on σ = some (match Value.ofNumeral? s with
      | some v => (some v, σ.past s)
      | none => (none, σ)) := by
  obtain ⟨hne, rfl⟩ := leadingNumeral_iff.mp hs
  rw [number_on hc, numberFrom, List.nil_append, if_neg (by simpa using hne)]
  cases Value.ofNumeral? (scanNumeral c.rest) <;> rfl

/-- Either nothing is read or a numeral. -/
theorem number_on_reads (hc : σ.StandsAt c) :
    ∃ r τ read rest, number.on σ = some (r, τ) ∧ c.rest = read ++ rest ∧
      τ.position = σ.position + byteLength read ∧ (read = [] ∨ Numeral read) := by
  rcases not_numeral_or_existsUnique c.rest with hno | ⟨s, hs, -⟩
  · exact ⟨_, _, [], c.rest, number_on_missing hc hno, rfl, rfl, .inl rfl⟩
  · have hon := number_on_of_leading hc hs
    obtain ⟨rest, hrest⟩ := hs.begins
    cases hv : Value.ofNumeral? s with
    | none =>
      rw [hv] at hon
      exact ⟨_, _, [], c.rest, hon, rfl, rfl, .inl rfl⟩
    | some v =>
      rw [hv] at hon
      exact ⟨_, _, s, rest, hon, hrest.symm, rfl, .inr hs.numeral⟩

/-- What a number reads, at every place of a text. If no numeral stands there, then it fails, the
position stays, and what is noted is that a number is missing at this place. If one does, then
there is a longest one. When this has no finite value, a number fails with the whole state as it
was. Otherwise the number has this value, and the position moves on by exactly this numeral. In
any case, behind each point and each sign that is read, a digit is read. -/
theorem number_takes_longest (hc : σ.StandsAt c) :
    ((∀ s, Numeral s → ¬ s <+: c.rest) ∨ ∃! s, LeadingNumeral s c.rest) ∧
    ((∀ s, Numeral s → ¬ s <+: c.rest) →
      Parser.number.reply c = ⟨.failed, .missing c.place .number⟩ ∧
      ∃ τ, (expected .number).on σ = some (some (), τ) ∧ τ.position = σ.position ∧
        number.on σ = some (none, τ)) ∧
    (∀ s, LeadingNumeral s c.rest →
      (Value.ofNumeral? s = none ↔
        ∃ d, Decimal.read? s = some d ∧ (Double.ofDecimal d).isFinite = false) ∧
      (Value.ofNumeral? s = none →
        Parser.number.reply c = ⟨.failed, .none⟩ ∧ number.on σ = some (none, σ)) ∧
      ∀ v, Value.ofNumeral? s = some v →
        (∃ next, c.Spans s next ∧ Parser.number.reply c = ⟨.matched v next, .none⟩) ∧
        number.on σ = some (some v, σ.past s)) ∧
    ∃ r τ read rest, number.on σ = some (r, τ) ∧ c.rest = read ++ rest ∧
      τ.position = σ.position + byteLength read ∧
      ∀ before x behind, x = '.' ∨ x = '-' → read = before ++ x :: behind →
        Leads Char.isDigit behind := by
  refine ⟨not_numeral_or_existsUnique c.rest, ?_, ?_, ?_⟩
  · intro hno
    exact ⟨Parser.number_reply_missing hno, σ.noting .number, expected_on .number σ, rfl,
      number_on_missing hc hno⟩
  · intro s hs
    have hon := number_on_of_leading hc hs
    refine ⟨Value.ofNumeral?_eq_none_iff hs.numeral, ?_, ?_⟩
    · intro hv
      rw [hv] at hon
      exact ⟨Parser.number_reply_none hs hv, hon⟩
    · intro v hv
      rw [hv] at hon
      exact ⟨Parser.number_reply_some hs hv, hon⟩
  · obtain ⟨r, τ, read, rest, hon, hrest, hposition, hread⟩ := number_on_reads hc
    refine ⟨r, τ, read, rest, hon, hrest, hposition, ?_⟩
    intro before x behind hx heq
    rcases hread with rfl | hnumeral
    · simp at heq
    · have hdigit : x.isDigit = false := by rcases hx with rfl | rfl <;> rfl
      exact hnumeral.leads_behind hdigit heq

/-- Behind a character of two bytes, a sign and a fraction are read, and the point behind them is
left; a sign in front of a name is left too, and a number is missing there; and what is too large
for a binary64 number is left without a note. -/
theorem number_takes_longest_rewinds :
    let limits : Limits := ⟨1000, 1⟩
    let signs : State :=
      { text := ['é', '-', '1', '.', '5', '.', 'x'], limits := limits, position := 2 }
    let name : State := { text := ['a', '-', 'x'], limits := limits, position := 1 }
    let large : State := .start ('1' :: List.replicate 309 '0') limits
    number.on signs =
        some (some (.float (.ofBits 0xbff8000000000000)), { signs with position := 6 }) ∧
      number.on name = some (none, { name with furthest := 1, wanted := [.number] }) ∧
      number.on large = some (none, large) := by
  intro limits signs name large
  refine ⟨?_, ?_, ?_⟩
  · have hc : signs.StandsAt ⟨1, ['-', '1', '.', '5', '.', 'x']⟩ := ⟨['é'], ⟨rfl, rfl⟩, rfl⟩
    have hs : LeadingNumeral ['-', '1', '.', '5'] ['-', '1', '.', '5', '.', 'x'] :=
      leadingNumeral_iff.mpr (by decide)
    exact (((number_takes_longest hc).2.2.1 _ hs).2.2 _ (by decide +kernel)).2
  · have hc : name.StandsAt ⟨1, ['-', 'x']⟩ := ⟨['a'], ⟨rfl, rfl⟩, rfl⟩
    have hno : ∀ s, Numeral s → ¬ s <+: ['-', 'x'] := scanNumeral_eq_nil_iff.mp (by decide)
    obtain ⟨-, τ, hτ, -, hon⟩ := (number_takes_longest hc).2.1 hno
    obtain rfl := (Prod.mk.inj (Option.some.inj hτ)).2
    exact hon
  · have hc : large.StandsAt ⟨0, large.text⟩ := ⟨[], ⟨rfl, rfl⟩, rfl⟩
    have hs : LeadingNumeral large.text large.text := leadingNumeral_iff.mpr (by decide +kernel)
    exact (((number_takes_longest hc).2.2.1 _ hs).2.1 (by decide +kernel)).2

end Scanner

end Stencil

/-
# Stencil.Proofs.Lexeme -- the written forms of the smallest units

What a run of blanks, an identifier, a numeral and a quoted text are, said without a
scanner, and that the scanners read exactly these. No form here asks for the longest
match. The scanners do take the longest, and so each is complete only in front of
something that cannot go on with what it reads: `Clear p rest` says that `rest` does
not begin with a character that satisfies `p`.
-/
import Stencil.Parse.Lexeme
import Stencil.Proofs.Outcome

namespace Stencil

/-! ## Written forms -/

/-- A run of spaces and tabs, possibly empty. -/
def Blanks (w : List Char) : Prop := ∀ x ∈ w, Text.isBlank x = true

instance (w : List Char) : Decidable (Blanks w) :=
  decidable_of_iff (w.all Text.isBlank = true) List.all_eq_true

/-- The text is the identifier `name`. -/
def IsName (name : String) (s : List Char) : Prop := isIdentifier name = true ∧ s = name.toList

/-- One or more digits. -/
def Digits (s : List Char) : Prop := s ≠ [] ∧ ∀ x ∈ s, x.isDigit = true

instance (s : List Char) : Decidable (Digits s) :=
  decidable_of_iff (s ≠ [] ∧ s.all Char.isDigit = true)
    (and_congr_right fun _ => List.all_eq_true)

/-- Nothing, or a point and digits. -/
def Fraction (s : List Char) : Prop := s = [] ∨ ∃ digits, Digits digits ∧ s = '.' :: digits

/-- An optional minus sign, digits, and optionally a point and digits. -/
def Numeral (s : List Char) : Prop :=
  ∃ sign whole fraction, (sign = [] ∨ sign = ['-']) ∧ Digits whole ∧ Fraction fraction ∧
    s = sign ++ (whole ++ fraction)

/-- The text is a numeral with the finite value `v`. -/
def IsNumber (v : Value) (s : List Char) : Prop := Numeral s ∧ Value.ofNumeral? s = some v

/-- The text is `body` between double quotes; there is neither a double quote nor a
line end inside. -/
def IsQuoted (body : String) (s : List Char) : Prop :=
  '"' ∉ body.toList ∧ '\n' ∉ body.toList ∧ s = '"' :: (body.toList ++ ['"'])

/-- The text does not begin with a character that satisfies `p`. -/
def Clear (p : Char → Bool) (rest : List Char) : Prop := ∀ x ∈ rest.head?, p x = false

/-- What can go on with a numeral. -/
def isNumeralRest (c : Char) : Bool := c.isDigit || c == '.'

/-- Characters that `p` tells apart are not the same. -/
theorem beq_eq_false_of_apply {p : Char → Bool} {x y : Char} (hx : p x = false)
    (hy : p y = true) : (y == x) = false := by
  rw [beq_eq_false_iff_ne]
  intro heq
  rw [heq, hx] at hy
  cases hy

@[simp] theorem clear_nil {p : Char → Bool} : Clear p [] := by simp [Clear]

@[simp] theorem clear_cons {p : Char → Bool} {x : Char} {rest : List Char} :
    Clear p (x :: rest) ↔ p x = false := by simp [Clear]

/-- What begins with no character of a kind begins with none of a narrower one. -/
theorem Clear.imp {p q : Char → Bool} {rest : List Char} (h : Clear p rest)
    (hpq : ∀ x, q x = true → p x = true) : Clear q rest := by
  intro x hx
  have := h x hx
  cases hq : q x with
  | false => rfl
  | true => simp [hpq x hq] at this

/-- The text begins with a character that satisfies `p`. -/
def Leads (p : Char → Bool) (s : List Char) : Prop := ∃ x rest, s = x :: rest ∧ p x = true

theorem Leads.imp {p q : Char → Bool} {s : List Char} (h : Leads p s)
    (hpq : ∀ x, p x = true → q x = true) : Leads q s := by
  obtain ⟨x, rest, rfl, hx⟩ := h
  exact ⟨x, rest, rfl, hpq x hx⟩

theorem Leads.append {p : Char → Bool} {s : List Char} (h : Leads p s) (rest : List Char) :
    Leads p (s ++ rest) := by
  obtain ⟨x, tail, rfl, hx⟩ := h
  exact ⟨x, tail ++ rest, rfl, hx⟩

/-- A text that begins with one kind of character does not begin with another. -/
theorem Leads.clear {p q : Char → Bool} {s : List Char} (h : Leads p s)
    (hpq : ∀ x, p x = true → q x = false) : Clear q s := by
  obtain ⟨x, tail, rfl, hx⟩ := h
  exact clear_cons.mpr (hpq x hx)

theorem Leads.clear_eq {p : Char → Bool} {s : List Char} {x : Char} (h : Leads p s)
    (hx : p x = false) : Clear (· == x) s := h.clear fun _ => beq_eq_false_of_apply hx

/-- A token is not there where its first character is not. -/
theorem Clear.not_begun {x : Char} {token rest : List Char} (h : Clear (· == x) rest) :
    ¬ (x :: token) <+: rest := by
  rintro ⟨tail, rfl⟩
  simp at h

theorem Leads.not_clear {p : Char → Bool} {s : List Char} (h : Leads p s) : ¬ Clear p s := by
  obtain ⟨x, tail, rfl, hx⟩ := h
  simp [hx]

/-- A text that begins with one kind of character does not stand where none of that kind does. -/
theorem Leads.not_isPrefix {p : Char → Bool} {s rest : List Char} (h : Leads p s)
    (hc : Clear p rest) : ¬ s <+: rest := by
  rintro ⟨tail, rfl⟩
  exact (h.append tail).not_clear hc

theorem blanks_nil : Blanks [] := by simp [Blanks]

/-- Behind blanks as before them, if `p` is true of no blank. -/
theorem Blanks.clear_append {p : Char → Bool} {w rest : List Char} (hw : Blanks w)
    (hp : ∀ x, Text.isBlank x = true → p x = false) (h : Clear p rest) :
    Clear p (w ++ rest) := by
  cases w with
  | nil => exact h
  | cons x w => exact clear_cons.mpr (hp x (hw x (by simp)))

theorem Blanks.clear_eq {w rest : List Char} {x : Char} (hw : Blanks w)
    (hx : Text.isBlank x = false) (h : Clear (· == x) rest) : Clear (· == x) (w ++ rest) :=
  hw.clear_append (fun _ => beq_eq_false_of_apply hx) h

/-! ## How the forms begin -/

/-- A name is split into its first character and those behind it, as it is scanned. -/
theorem isName_iff {name : String} {s : List Char} :
    IsName name s ↔ ∃ x rest, s = x :: rest ∧ isNameStart x = true ∧
      (∀ y ∈ rest, isNameRest y = true) ∧ name = String.ofList s := by
  unfold IsName isIdentifier
  constructor
  · rintro ⟨hname, rfl⟩
    split at hname
    · cases hname
    · rename_i x rest heq
      rw [Bool.and_eq_true, List.all_eq_true] at hname
      exact ⟨x, rest, heq, hname.1, hname.2, by simp⟩
  · rintro ⟨x, rest, rfl, hx, hrest, rfl⟩
    simp only [String.toList_ofList, Bool.and_eq_true, List.all_eq_true, and_true]
    exact ⟨hx, hrest⟩

theorem IsName.leads {name : String} {s : List Char} (h : IsName name s) : Leads isNameStart s := by
  obtain ⟨x, rest, rfl, hx, -, -⟩ := isName_iff.mp h
  exact ⟨x, rest, rfl, hx⟩

theorem Digits.head_isDigit {x : Char} {s : List Char} (h : Digits (x :: s)) : x.isDigit = true :=
  h.2 x (by simp)

theorem Digits.leads {s : List Char} (h : Digits s) : Leads Char.isDigit s := by
  obtain ⟨x, rest, rfl⟩ := List.exists_cons_of_ne_nil h.1
  exact ⟨x, rest, rfl, h.head_isDigit⟩

/-- Digits do not begin with a minus sign. -/
theorem Digits.append_ne_sign {s : List Char} (h : Digits s) (rest tail : List Char) :
    s ++ rest ≠ '-' :: tail := by
  cases s with
  | nil => exact absurd rfl h.1
  | cons x s =>
    rintro ⟨⟩
    have hx := h.head_isDigit
    simp at hx

/-- A numeral begins with a digit or a minus sign. -/
theorem Numeral.leads {s : List Char} (h : Numeral s) :
    Leads (fun x => x.isDigit || x == '-') s := by
  obtain ⟨sign, whole, fraction, hsign, hw, -, rfl⟩ := h
  rcases hsign with rfl | rfl
  · cases whole with
    | nil => exact absurd rfl hw.1
    | cons x whole => exact ⟨x, whole ++ fraction, rfl, by simp [hw.head_isDigit]⟩
  · exact ⟨'-', whole ++ fraction, rfl, by decide⟩

theorem IsQuoted.leads {body : String} {s : List Char} (h : IsQuoted body s) :
    Leads (· == '"') s := ⟨'"', body.toList ++ ['"'], h.2.2, rfl⟩

/-! ## The longest run -/

/-- A longest run ends in front of what cannot go on with it. -/
theorem clear_dropWhile (p : Char → Bool) (cs : List Char) : Clear p (cs.dropWhile p) := by
  induction cs with
  | nil => simp
  | cons x cs ih =>
    by_cases h : p x = true
    · rwa [List.dropWhile_cons_of_pos h]
    · rw [List.dropWhile_cons_of_neg h, clear_cons]
      exact Bool.not_eq_true _ ▸ h

theorem all_takeWhile (p : Char → Bool) (cs : List Char) : ∀ x ∈ cs.takeWhile p, p x = true := by
  intro x hx
  exact List.all_eq_true.mp (List.all_takeWhile) x hx

/-- In front of what cannot go on with it, a run is the longest one. -/
theorem takeWhile_append_clear {p : Char → Bool} {s rest : List Char} (hs : ∀ x ∈ s, p x = true)
    (h : Clear p rest) : (s ++ rest).takeWhile p = s := by
  rw [List.takeWhile_append_of_pos hs]
  cases rest with
  | nil => simp
  | cons x rest => simp [clear_cons.mp h]

theorem dropWhile_append_clear {p : Char → Bool} {s rest : List Char} (hs : ∀ x ∈ s, p x = true)
    (h : Clear p rest) : (s ++ rest).dropWhile p = rest := by
  rw [List.dropWhile_append_of_pos hs]
  cases rest with
  | nil => simp
  | cons x rest => simp [clear_cons.mp h]

/-! ## What may follow -/

/-- Behind blanks, the text ends or goes on with one of some characters. -/
def Before (stops : List Char) (rest : List Char) : Prop :=
  Clear (fun x => !stops.contains x) (rest.dropWhile Text.isBlank)

theorem before_nil (stops : List Char) : Before stops [] := clear_nil

theorem before_cons {stops rest : List Char} {x : Char} (hx : x ∈ stops)
    (hb : Text.isBlank x = false) : Before stops (x :: rest) := by
  rw [Before, List.dropWhile_cons_of_neg (by simp [hb]), clear_cons]
  simpa using hx

/-- Blanks in front change nothing of what may follow. -/
theorem Blanks.before_append {stops w rest : List Char} (hw : Blanks w) (h : Before stops rest) :
    Before stops (w ++ rest) := by
  rwa [Before, List.dropWhile_append_of_pos hw]

theorem Before.imp {stops stops' rest : List Char} (h : Before stops rest)
    (hs : ∀ x ∈ stops, x ∈ stops') : Before stops' rest := by
  refine Clear.imp h ?_
  intro x hx
  simp only [Bool.not_eq_true', List.contains_eq_mem, decide_eq_false_iff_not] at hx ⊢
  exact fun hmem => hx (hs x hmem)

/-- What is true neither of blanks nor of the characters that may follow, nothing begins with. -/
theorem Before.clear {stops rest : List Char} {p : Char → Bool} (h : Before stops rest)
    (hb : ∀ x, Text.isBlank x = true → p x = false) (hs : stops.any p = false) :
    Clear p rest := by
  cases rest with
  | nil => exact clear_nil
  | cons x rest =>
    rw [clear_cons]
    by_cases hx : Text.isBlank x = true
    · exact hb x hx
    · rw [Before, List.dropWhile_cons_of_neg hx, clear_cons] at h
      exact Bool.eq_false_iff.mpr (List.any_eq_false.mp hs x (by simpa using h))

theorem Before.clear_eq {stops rest : List Char} {x : Char} (h : Before stops rest)
    (hb : Text.isBlank x = false) (hs : x ∉ stops) : Clear (· == x) rest := by
  refine h.clear (fun _ => beq_eq_false_of_apply hb) (List.any_eq_false.mpr ?_)
  intro y hy heq
  exact hs (beq_iff_eq.mp heq ▸ hy)

/-- Behind blanks, the text does not go on with a character that satisfies `p`. -/
def ClearBehind (p : Char → Bool) (rest : List Char) : Prop :=
  ∃ w tail, rest = w ++ tail ∧ Blanks w ∧ Clear Text.isBlank tail ∧ Clear p tail

theorem clearBehind_cons {p : Char → Bool} {x : Char} {rest : List Char}
    (hb : Text.isBlank x = false) (hx : p x = false) : ClearBehind p (x :: rest) :=
  ⟨[], x :: rest, rfl, blanks_nil, clear_cons.mpr hb, clear_cons.mpr hx⟩

/-- Blanks, and behind them none of the characters that may not follow. -/
theorem Before.clearBehind {stops rest : List Char} {p : Char → Bool} (h : Before stops rest)
    (hs : stops.any p = false) : ClearBehind p rest := by
  refine ⟨rest.takeWhile Text.isBlank, rest.dropWhile Text.isBlank, by simp, all_takeWhile _ _,
    clear_dropWhile _ _, ?_⟩
  intro x hx
  exact Bool.eq_false_iff.mpr (List.any_eq_false.mp hs x (by simpa using h x hx))

open Parse

/-! ## Scanning numerals -/

theorem Clear.digit {rest : List Char} (h : Clear isNumeralRest rest) : Clear Char.isDigit rest :=
  h.imp (by simp +contextual [isNumeralRest])

/-- What is scanned as a fraction is one, and stands at the beginning of the text. -/
theorem scanFraction_spec (cs : List Char) :
    Fraction (scanFraction cs) ∧ ∃ rest, cs = scanFraction cs ++ rest := by
  unfold scanFraction
  split
  · rename_i rest
    simp only
    split
    · exact ⟨.inl rfl, _, rfl⟩
    · rename_i hne
      refine ⟨.inr ⟨_, ⟨?_, all_takeWhile _ _⟩, rfl⟩, rest.dropWhile Char.isDigit, ?_⟩
      · simpa using hne
      · simp
  · exact ⟨.inl rfl, _, rfl⟩

/-- A fraction is scanned to its end if neither a digit nor a point follows. -/
theorem scanFraction_append {s rest : List Char} (hs : Fraction s)
    (h : Clear isNumeralRest rest) : scanFraction (s ++ rest) = s := by
  rcases hs with rfl | ⟨digits, ⟨hne, hd⟩, rfl⟩
  · -- where there is no fraction, no point may follow
    cases rest with
    | nil => rfl
    | cons x rest =>
      have hx : x ≠ '.' := by
        rintro rfl
        simp [isNumeralRest] at h
      unfold scanFraction
      split
      · rename_i heq
        cases heq
        exact absurd rfl hx
      · rfl
  · simp only [List.cons_append, scanFraction, takeWhile_append_clear hd h.digit]
    simp [hne]

/-- What is scanned without a sign, if anything, is digits and perhaps a fraction. -/
theorem scanUnsigned_spec (cs : List Char) (hne : scanUnsigned cs ≠ []) :
    (∃ whole fraction, Digits whole ∧ Fraction fraction ∧ scanUnsigned cs = whole ++ fraction) ∧
      ∃ rest, cs = scanUnsigned cs ++ rest := by
  unfold scanUnsigned at hne ⊢
  simp only at hne ⊢
  split
  · rename_i hempty
    simp [hempty] at hne
  · rename_i hsome
    obtain ⟨hf, rest, hrest⟩ := scanFraction_spec (cs.dropWhile Char.isDigit)
    refine ⟨⟨_, _, ⟨?_, all_takeWhile _ _⟩, hf, rfl⟩, rest, ?_⟩
    · simpa using hsome
    · rw [List.append_assoc, ← hrest, List.takeWhile_append_dropWhile]

theorem Fraction.clear_digit {s rest : List Char} (hs : Fraction s) (h : Clear Char.isDigit rest) :
    Clear Char.isDigit (s ++ rest) := by
  rcases hs with rfl | ⟨digits, _, rfl⟩
  · exact h
  · exact clear_cons.mpr rfl

theorem scanUnsigned_append {whole fraction rest : List Char} (hw : Digits whole)
    (hf : Fraction fraction) (h : Clear isNumeralRest rest) :
    scanUnsigned (whole ++ (fraction ++ rest)) = whole ++ fraction := by
  have hd := hf.clear_digit h.digit
  unfold scanUnsigned
  simp only [takeWhile_append_clear hw.2 hd, dropWhile_append_clear hw.2 hd,
    scanFraction_append hf h]
  simp [hw.1]

theorem scanNumeral_of_no_sign {cs : List Char} (h : ∀ rest, cs ≠ '-' :: rest) :
    scanNumeral cs = scanUnsigned cs := by
  unfold scanNumeral
  split
  · exact absurd rfl (h _)
  · rfl

/-- What is scanned as a numeral, if anything, is one and stands at the beginning of the text. -/
theorem scanNumeral_spec (cs : List Char) (hne : scanNumeral cs ≠ []) :
    Numeral (scanNumeral cs) ∧ ∃ rest, cs = scanNumeral cs ++ rest := by
  by_cases hsign : ∃ rest, cs = '-' :: rest
  · obtain ⟨rest, rfl⟩ := hsign
    -- a sign is taken only if digits follow
    have hu : scanUnsigned rest ≠ [] := by
      intro hempty
      simp [scanNumeral, hempty] at hne
    have heq : scanNumeral ('-' :: rest) = '-' :: scanUnsigned rest := by simp [scanNumeral, hu]
    obtain ⟨⟨whole, fraction, hw, hf, hwf⟩, tail, htail⟩ := scanUnsigned_spec rest hu
    rw [heq]
    refine ⟨⟨['-'], whole, fraction, .inr rfl, hw, hf, ?_⟩, tail, ?_⟩
    · rw [hwf]
      rfl
    · rw [List.cons_append, ← htail]
  · have heq := scanNumeral_of_no_sign (fun rest h => hsign ⟨rest, h⟩)
    rw [heq] at hne ⊢
    obtain ⟨⟨whole, fraction, hw, hf, hwf⟩, tail, htail⟩ := scanUnsigned_spec cs hne
    exact ⟨⟨[], whole, fraction, .inl rfl, hw, hf, hwf⟩, tail, htail⟩

/-- A numeral is scanned to its end if neither a digit nor a point follows. -/
theorem scanNumeral_append {s rest : List Char} (hs : Numeral s)
    (h : Clear isNumeralRest rest) : scanNumeral (s ++ rest) = s := by
  obtain ⟨sign, whole, fraction, hsign, hw, hf, rfl⟩ := hs
  have hu := scanUnsigned_append hw hf h
  rcases hsign with rfl | rfl
  · rw [List.nil_append, List.append_assoc, scanNumeral_of_no_sign (hw.append_ne_sign _), hu]
  · simp only [List.cons_append, List.nil_append, List.append_assoc, scanNumeral, hu]
    simp [hw.1]

/-- Where a numeral stands, the scanner takes one, whatever goes on behind it. -/
theorem scanNumeral_ne_nil {s cs : List Char} (hs : Numeral s) (h : s <+: cs) :
    scanNumeral cs ≠ [] := by
  obtain ⟨sign, whole, fraction, hsign, hw, -, rfl⟩ := hs
  obtain ⟨rest, rfl⟩ := h
  have hunsigned : scanUnsigned (whole ++ (fraction ++ rest)) ≠ [] := by
    cases whole with
    | nil => exact absurd rfl hw.1
    | cons x whole => simp [scanUnsigned, hw.head_isDigit]
  simp only [List.append_assoc]
  rcases hsign with rfl | rfl
  · rwa [List.nil_append, scanNumeral_of_no_sign (hw.append_ne_sign _)]
  · simp [scanNumeral, hunsigned]

/-! ## What the scanners read -/

namespace Parse.Parser

variable {c next : Cursor}

/-- A run of characters of a kind is read just if it cannot go on. -/
theorem takeWhile_matched_iff {p : Char → Bool} {s : List Char} :
    (takeWhile p).outcome c = .matched s next ↔
      c.Spans s next ∧ (∀ x ∈ s, p x = true) ∧ Clear p next.rest := by
  constructor
  · intro h
    simp only [outcome, takeWhile, Outcome.matched.injEq] at h
    obtain ⟨rfl, rfl⟩ := h
    exact ⟨Cursor.spans_advance (by simp), all_takeWhile _ _, clear_dropWhile _ _⟩
  · rintro ⟨⟨hrest, hplace⟩, hs, hclear⟩
    simp only [outcome, takeWhile, hrest, takeWhile_append_clear hs hclear,
      dropWhile_append_clear hs hclear, Cursor.advance, ← hplace]

theorem blanks_matched_iff {u : Unit} :
    blanks.outcome c = .matched u next ↔
      ∃ w, c.Spans w next ∧ Blanks w ∧ Clear Text.isBlank next.rest := by
  simp only [blanks, map_matched_iff, takeWhile_matched_iff, and_true, Blanks]

/-- Blanks are read as far as they go. -/
theorem blanks_complete {w : List Char} (h : c.Spans w next) (hw : Blanks w)
    (hc : Clear Text.isBlank next.rest) : blanks.outcome c = .matched () next :=
  blanks_matched_iff.mpr ⟨w, h, hw, hc⟩

/-- Blanks may be skipped to where `p` is not true of the next character. -/
theorem blanks_of_clearBehind {p : Char → Bool} (h : ClearBehind p c.rest) :
    ∃ mid, blanks.outcome c = .matched () mid ∧ Clear p mid.rest := by
  obtain ⟨w, tail, hrest, hw, hblank, hclear⟩ := h
  exact ⟨_, blanks_complete (Cursor.spans_advance hrest) hw hblank, hclear⟩

/-- Nothing is stripped from a text just if it does not begin so. -/
theorem strip?_eq_none_iff {beginning cs : List Char} :
    strip? beginning cs = none ↔ ¬ beginning <+: cs := by
  constructor
  · rintro hnone ⟨rest, hrest⟩
    rw [strip?_eq_some_iff.mpr hrest.symm] at hnone
    cases hnone
  · intro hno
    cases hs : strip? beginning cs with
    | none => rfl
    | some rest => exact absurd ⟨rest, (strip?_eq_some_iff.mp hs).symm⟩ hno

/-- A token is read just if it spans what lies between the two cursors. -/
theorem token_matched_iff {s : String} {u : Unit} :
    (token s).outcome c = .matched u next ↔ c.Spans s.toList next := by
  simp only [outcome, token]
  cases hs : strip? s.toList c.rest with
  | none =>
    simp only [want, reduceCtorEq, false_iff]
    exact fun h => strip?_eq_none_iff.mp hs ⟨_, h.1.symm⟩
  | some rest =>
    have hrest := strip?_eq_some_iff.mp hs
    simp only [Outcome.matched.injEq, true_and]
    have hspan := Cursor.spans_advance hrest
    rw [String.length_toList] at hspan
    constructor
    · rintro rfl
      exact hspan
    · exact hspan.unique

theorem token_complete {s : String} (h : c.Spans s.toList next) :
    (token s).outcome c = .matched () next := token_matched_iff.mpr h

theorem token_failed {s : String} (h : ¬ s.toList <+: c.rest) : (token s).outcome c = .failed := by
  simp only [outcome, token, strip?_eq_none_iff.mpr h]
  rfl

/-- An optional token is read where it stands, and is not there otherwise; it never fails. -/
theorem accept_matched_iff {s : String} {b : Bool} :
    (accept s).outcome c = .matched b next ↔
      b = true ∧ c.Spans s.toList next ∨ b = false ∧ next = c ∧ ¬ s.toList <+: c.rest := by
  simp only [outcome, accept]
  cases hs : strip? s.toList c.rest with
  | none =>
    have hno : ¬ s.toList <+: c.rest := strip?_eq_none_iff.mp hs
    have hno' : ¬ c.Spans s.toList next := fun h => hno ⟨_, h.1.symm⟩
    simp [hno, hno', eq_comm]
  | some rest =>
    have hrest := strip?_eq_some_iff.mp hs
    have hyes : s.toList <+: c.rest := ⟨rest, hrest.symm⟩
    have hspan := Cursor.spans_advance hrest
    rw [String.length_toList] at hspan
    simp only [Outcome.matched.injEq, hyes, not_true, and_false, or_false, eq_comm (a := true)]
    constructor
    · rintro ⟨rfl, rfl⟩
      exact ⟨rfl, hspan⟩
    · rintro ⟨rfl, h⟩
      exact ⟨rfl, hspan.unique h⟩

theorem accept_there {s : String} (h : c.Spans s.toList next) :
    (accept s).outcome c = .matched true next := accept_matched_iff.mpr (.inl ⟨rfl, h⟩)

theorem accept_missing {s : String} (h : ¬ s.toList <+: c.rest) :
    (accept s).outcome c = .matched false c := accept_matched_iff.mpr (.inr ⟨rfl, rfl, h⟩)

/-- One character of a kind is read just if it is the next one. -/
theorem one_matched_iff {e : Expected} {p : Char → Bool} {x : Char} :
    (one e p).outcome c = .matched x next ↔ c.Spans [x] next ∧ p x = true := by
  rcases c with ⟨place, _ | ⟨y, rest⟩⟩
  · simp [outcome, one, want, Cursor.Spans]
  · rcases next with ⟨place', rest'⟩
    by_cases hy : p y = true
    · simp only [outcome, one, hy, ↓reduceIte, Outcome.matched.injEq, Cursor.advance,
        Cursor.mk.injEq, Cursor.Spans, List.cons_append, List.nil_append, List.cons.injEq,
        List.length_singleton]
      grind
    · simp only [outcome, one, hy, want, Cursor.Spans]
      grind

theorem one_failed {e : Expected} {p : Char → Bool} (h : Clear p c.rest) :
    (one e p).outcome c = .failed := by
  rcases c with ⟨place, _ | ⟨y, rest⟩⟩
  · rfl
  · simp [outcome, one, want, clear_cons.mp h]

/-- A look at the next character reads nothing. -/
theorem notBefore_matched_iff {p : Char → Bool} {u : Unit} :
    (notBefore p).outcome c = .matched u next ↔ next = c ∧ Clear p c.rest := by
  rcases c with ⟨place, _ | ⟨y, rest⟩⟩
  · simp only [outcome, notBefore, done, clear_nil, and_true, Outcome.matched.injEq, true_and]
    exact eq_comm
  · by_cases hy : p y = true
    · simp [outcome, notBefore, hy, fail]
    · simp only [outcome, notBefore, hy, done, clear_cons, and_true, Outcome.matched.injEq,
        true_and, Bool.false_eq_true, ↓reduceIte]
      exact eq_comm

/-! ### Lexemes never give up the parse -/

theorem shallow_takeWhile (p : Char → Bool) : (takeWhile p).Shallow :=
  shallow_iff.mpr fun _ => nofun

theorem shallow_token (s : String) : (token s).Shallow := by
  refine shallow_iff.mpr fun c => ?_
  simp only [outcome, token]
  split <;> simp [want]

theorem shallow_accept (s : String) : (accept s).Shallow := by
  refine shallow_iff.mpr fun c => ?_
  simp only [outcome, accept]
  split <;> simp

theorem shallow_one (e : Expected) (p : Char → Bool) : (one e p).Shallow := by
  apply shallow_iff.mpr
  rintro ⟨place, _ | ⟨x, rest⟩⟩
  · simp [outcome, one, want]
  · by_cases h : p x = true <;> simp [outcome, one, want, h]

theorem shallow_notBefore (p : Char → Bool) : (notBefore p).Shallow := by
  apply shallow_iff.mpr
  rintro ⟨place, _ | ⟨x, rest⟩⟩
  · simp [outcome, notBefore, done]
  · by_cases h : p x = true <;> simp [outcome, notBefore, done, fail, h]

theorem shallow_blanks : blanks.Shallow := (shallow_takeWhile _).map _

theorem shallow_identifier : identifier.Shallow :=
  (shallow_one _ _).bind fun _ => (shallow_takeWhile _).bind fun _ => keeps_pure _

theorem shallow_keyword (word : String) : (keyword word).Shallow :=
  (shallow_token word).bind fun _ => shallow_notBefore _

theorem shallow_number : number.Shallow := by
  refine shallow_iff.mpr fun c => ?_
  simp only [outcome, number]
  split
  · simp [want]
  · split <;> simp [fail]

theorem shallow_quotedText : quotedText.Shallow :=
  (shallow_token _).bind fun _ => (shallow_takeWhile _).bind fun _ =>
    (shallow_token _).bind fun _ => keeps_pure _

/-! ### Names and words -/

/-- An identifier is read just if it is a name that the text does not go on with. -/
theorem identifier_matched_iff {name : String} :
    identifier.outcome c = .matched name next ↔
      ∃ s, c.Spans s next ∧ IsName name s ∧ Clear isNameRest next.rest := by
  simp only [identifier, bind_matched_iff, pure_matched_iff, one_matched_iff, takeWhile_matched_iff]
  constructor
  · rintro ⟨x, mid, ⟨hx, hstart⟩, rest, last, ⟨hrest, hall, hclear⟩, rfl, rfl⟩
    exact ⟨[x] ++ rest, hx.trans hrest, isName_iff.mpr ⟨x, rest, rfl, hstart, hall, rfl⟩, hclear⟩
  · rintro ⟨s, hs, hname, hclear⟩
    obtain ⟨x, rest, rfl, hstart, hall, rfl⟩ := isName_iff.mp hname
    obtain ⟨mid, hx, hrest⟩ := Cursor.Spans.split (s := [x]) hs
    exact ⟨x, mid, ⟨hx, hstart⟩, rest, _, ⟨hrest, hall, hclear⟩, rfl, rfl⟩

/-- Names are read as far as they go. -/
theorem identifier_reads : identifier.Reads IsName (Clear isNameRest) where
  sound h := by
    obtain ⟨s, hs, hname, -⟩ := identifier_matched_iff.mp h
    exact ⟨s, hs, hname⟩
  complete hs hname hf := identifier_matched_iff.mpr ⟨_, hs, hname, hf⟩

/-- Two names at one place, of which neither can go on, are one. -/
theorem isName_unique {name name' : String} {s s' : List Char} {next' : Cursor}
    (h : IsName name s) (hs : c.Spans s next) (hf : Clear isNameRest next.rest)
    (h' : IsName name' s') (hs' : c.Spans s' next') (hf' : Clear isNameRest next'.rest) :
    s = s' := by
  have hm := identifier_reads.complete hs h hf
  rw [identifier_reads.complete hs' h' hf', Outcome.matched.injEq] at hm
  rw [h.2, h'.2, hm.1]

theorem identifier_failed (h : Clear isNameStart c.rest) : identifier.outcome c = .failed :=
  bind_failed (one_failed h)

/-- A word is read just if it stands there and is not the beginning of a longer name. -/
theorem keyword_matched_iff {word : String} {u : Unit} :
    (keyword word).outcome c = .matched u next ↔
      c.Spans word.toList next ∧ Clear isNameRest next.rest := by
  simp only [keyword, bind_matched_iff, token_matched_iff, notBefore_matched_iff]
  constructor
  · rintro ⟨-, mid, hs, rfl, hc⟩
    exact ⟨hs, hc⟩
  · rintro ⟨hs, hc⟩
    exact ⟨(), next, hs, rfl, hc⟩

/-! ### Numbers -/

/-- Numerals with a finite value are read as far as they go. -/
theorem number_reads : number.Reads IsNumber (Clear isNumeralRest) where
  sound {c v next} h := by
    simp only [outcome, number] at h
    split at h
    · cases h
    · rename_i hne
      have hne' : scanNumeral c.rest ≠ [] := by simpa using hne
      -- a numeral without a finite value is no number
      split at h
      · rename_i w hw
        simp only [Outcome.matched.injEq] at h
        obtain ⟨rfl, rfl⟩ := h
        obtain ⟨hnum, rest, hrest⟩ := scanNumeral_spec c.rest hne'
        have hdrop : c.rest.drop (scanNumeral c.rest).length = rest :=
          (congrArg (List.drop _) hrest).trans List.drop_left
        rw [hdrop]
        exact ⟨_, Cursor.spans_advance hrest, hnum, hw⟩
      · cases h
  complete {c v next s} hs hv hf := by
    obtain ⟨hnum, hvalue⟩ := hv
    have hscan : scanNumeral c.rest = s := by rw [hs.1, scanNumeral_append hnum hf]
    have hne : s ≠ [] := by
      rintro rfl
      obtain ⟨sign, whole, fraction, -, hw, -, heq⟩ := hnum
      simp [hw.1] at heq
    have hdrop : c.rest.drop s.length = next.rest := by rw [hs.1, List.drop_left]
    simp only [outcome, number, hscan, List.isEmpty_iff, hne, ↓reduceIte, hvalue, hdrop]
    exact congrArg _ (Cursor.Spans.unique (Cursor.spans_advance hs.1) hs)

/-- No number is read where neither a digit nor a minus sign stands. -/
theorem number_failed (h : Clear (fun x => x.isDigit || x == '-') c.rest) :
    number.outcome c = .failed := by
  -- whatever the scanner took would begin with a digit or a sign
  have hscan : scanNumeral c.rest = [] := by
    refine Classical.byContradiction fun hne => ?_
    obtain ⟨hnum, rest, hrest⟩ := scanNumeral_spec c.rest hne
    rw [hrest] at h
    exact (hnum.leads.append rest).not_clear h
  simp [outcome, number, hscan, want]

/-! ### Quoted texts -/

/-- Quoted texts are read in front of anything: the closing quote ends them. -/
theorem quotedText_reads : quotedText.Reads IsQuoted (fun _ => True) where
  sound h := by
    simp only [quotedText, bind_matched_iff, pure_matched_iff, token_matched_iff,
      takeWhile_matched_iff] at h
    obtain ⟨-, c₁, hopen, body, c₂, ⟨hbody, hall, -⟩, -, c₃, hclose, rfl, rfl⟩ := h
    refine ⟨_, hopen.trans (hbody.trans hclose), ?_⟩
    rw [IsQuoted, String.toList_ofList]
    refine ⟨?_, ?_, rfl⟩
    · intro hmem
      exact absurd (hall _ hmem) (by decide)
    · intro hmem
      exact absurd (hall _ hmem) (by decide)
  complete hs hq _ := by
    obtain ⟨hquote, hline, rfl⟩ := hq
    obtain ⟨c₁, hopen, hs⟩ := Cursor.Spans.split (s := ['"']) hs
    obtain ⟨c₂, hbody, hclose⟩ := hs.split
    simp only [quotedText, bind_matched_iff, pure_matched_iff, token_matched_iff,
      takeWhile_matched_iff]
    -- the run of quotable characters ends just in front of the closing quote
    refine ⟨(), c₁, hopen, _, c₂, ⟨hbody, ?_, ?_⟩, (), _, hclose, by simp, rfl⟩
    · intro x hx
      have h₁ : x ≠ '"' := by
        rintro rfl
        exact hquote hx
      have h₂ : x ≠ '\n' := by
        rintro rfl
        exact hline hx
      simp [isQuotable, h₁, h₂]
    · rw [hclose.1]
      exact clear_cons.mpr rfl

theorem quotedText_failed (h : Clear (· == '"') c.rest) : quotedText.outcome c = .failed := by
  apply bind_failed
  exact token_failed h.not_begun

end Parse.Parser

end Stencil

/-
# Stencil.Proofs.Whole -- parses of whole texts

A parse succeeds with a tree just if the text is within its bound and the parser reads
all of it. For a parser that reads a language, in front of nothing at all, this is to say
that the text belongs to the language.
-/
import Stencil.Parse.Whole
import Stencil.Proofs.Outcome

namespace Stencil.Parse

/-! ## Lengths in bytes -/

theorem utf8ByteSize_ofList (cs : List Char) : (String.ofList cs).utf8ByteSize = byteLength cs := by
  induction cs with
  | nil => rfl
  | cons c cs ih =>
    rw [← List.singleton_append, String.ofList_append, String.utf8ByteSize_append, ih,
      ← String.singleton_eq_ofList, String.utf8ByteSize_singleton]
    rfl

/-- The size that a string is kept with is the sum of its characters' sizes. -/
theorem utf8ByteSize_eq_byteLength (src : String) : src.utf8ByteSize = byteLength src.toList := by
  rw [← utf8ByteSize_ofList, String.ofList_toList]

/-- Every character takes a byte at least, so that a bound in bytes is one in characters. -/
theorem length_le_byteLength (cs : List Char) : cs.length ≤ byteLength cs := by
  induction cs with
  | nil => exact Nat.le_refl _
  | cons c cs ih =>
    have hc := c.utf8Size_pos
    show cs.length + 1 ≤ c.utf8Size + byteLength cs
    omega

theorem length_le_utf8ByteSize (src : String) : src.toList.length ≤ src.utf8ByteSize :=
  utf8ByteSize_eq_byteLength src ▸ length_le_byteLength _

@[simp] theorem byteLength_append (cs ds : List Char) :
    byteLength (cs ++ ds) = byteLength cs + byteLength ds := by
  induction cs with
  | nil => simp [byteLength]
  | cons c cs ih => simp [byteLength, ih, Nat.add_assoc]

theorem byteLength_pos {cs : List Char} (h : cs ≠ []) : 0 < byteLength cs :=
  Nat.lt_of_lt_of_le (List.length_pos_iff.mpr h) (length_le_byteLength cs)

/-- A text from which something is left out takes no more bytes. -/
theorem byteLength_le_of_sublist {cs ds : List Char} (h : cs.Sublist ds) :
    byteLength cs ≤ byteLength ds := by
  induction h with
  | slnil => exact Nat.le_refl _
  | cons _ _ ih => exact Nat.le_trans ih (Nat.le_add_left ..)
  | cons_cons _ _ ih => exact Nat.add_le_add_left ih _

/-! ## Successful parses -/

variable {α : Type}

namespace Parser

/-- A whole text is parsed just if the parser matches and leaves nothing behind. -/
theorem whole_eq_ok_iff {p : Parser α} {maxDepth : Nat} {text : List Char} {a : α} :
    p.whole maxDepth text = .ok a ↔
      ∃ next, p.outcome ⟨0, text⟩ = .matched a next ∧ next.rest = [] := by
  rw [outcome, whole]
  split
  · rename_i h
    simp [h]
  · rename_i h
    simp [h]
  · rename_i b next missed h
    by_cases hrest : next.rest = []
    · simp only [h, hrest, List.isEmpty_nil, ↓reduceIte, Except.ok.injEq, Outcome.matched.injEq]
      constructor
      · rintro rfl
        exact ⟨next, ⟨rfl, rfl⟩, hrest⟩
      · rintro ⟨next', ⟨heq, -⟩, -⟩
        exact heq
    · simp only [h, List.isEmpty_iff, hrest, ↓reduceIte, reduceCtorEq, Outcome.matched.injEq,
        false_iff]
      rintro ⟨next', ⟨-, rfl⟩, hrest'⟩
      exact hrest hrest'

/-- A whole text fails in one of three ways: the parser gives up, it fails, or it leaves some of
the text, whose end is then missed as well. -/
theorem whole_eq_error_iff {p : Parser α} {maxDepth : Nat} {text : List Char} {cause : Cause} :
    p.whole maxDepth text = .error cause ↔
      p.outcome ⟨0, text⟩ = .tooDeep ∧ cause = .tooDeep maxDepth ∨
      p.outcome ⟨0, text⟩ = .failed ∧ cause = (p.reply ⟨0, text⟩).frontier.mismatch text ∨
      ∃ a next, p.outcome ⟨0, text⟩ = .matched a next ∧ next.rest ≠ [] ∧
        cause = ((p.reply ⟨0, text⟩).frontier.record next.place .endOfInput).mismatch text := by
  rw [outcome, whole]
  rcases p.reply ⟨0, text⟩ with ⟨⟨a, next⟩ | _ | _, missed⟩
  · by_cases hrest : next.rest = []
    · simp [hrest]
    · simp only [hrest, List.isEmpty_iff, ↓reduceIte, Except.error.injEq, Outcome.matched.injEq,
        reduceCtorEq, false_and, false_or]
      constructor
      · rintro rfl
        exact ⟨a, next, ⟨rfl, rfl⟩, hrest, rfl⟩
      · rintro ⟨_, _, ⟨rfl, rfl⟩, -, rfl⟩
        rfl
  · simpa using eq_comm
  · simpa using eq_comm

/-- What a parser reads decides what it parses: the whole texts it accepts are those of its
language, whatever the limit on levels it was made for. -/
theorem Reads.whole_eq_ok_iff {p : Parser α} {L : α → List Char → Prop} {F : List Char → Prop}
    (h : p.Reads L F) (hF : F []) {maxDepth : Nat} {text : List Char} {a : α} :
    p.whole maxDepth text = .ok a ↔ L a text := by
  rw [Parser.whole_eq_ok_iff]
  constructor
  · rintro ⟨next, hm, hrest⟩
    obtain ⟨s, hs, ha⟩ := h.sound hm
    -- nothing is left behind the text that was read
    have htext : text = s := by
      rw [← List.append_nil s, ← hrest]
      exact hs.1
    exact htext ▸ ha
  · intro ha
    exact ⟨⟨text.length, []⟩, h.complete ⟨by simp, by simp⟩ ha hF, rfl⟩

/-- A language that a parser reads gives no text to two values. -/
theorem Reads.unique {p : Parser α} {L : α → List Char → Prop} {F : List Char → Prop}
    (h : p.Reads L F) (hF : F []) {s : List Char} {a a' : α} (ha : L a s) (ha' : L a' s) :
    a = a' := by
  have hm : p.whole 0 s = .ok a := (h.whole_eq_ok_iff hF).mpr ha
  rw [(h.whole_eq_ok_iff hF).mpr ha', Except.ok.injEq] at hm
  exact hm.symm

end Parser

theorem mapError_eq_ok_iff {ε ε' : Type} {f : ε → ε'} {r : Except ε α} {a : α} :
    r.mapError f = .ok a ↔ r = .ok a := by
  cases r with
  | error e => exact ⟨nofun, nofun⟩
  | ok b =>
    show (Except.ok b : Except ε' α) = .ok a ↔ _
    rw [Except.ok.injEq, Except.ok.injEq]

theorem map_eq_ok_iff {ε α β : Type} {f : α → β} {r : Except ε α} {b : β} :
    r.map f = .ok b ↔ ∃ a, r = .ok a ∧ f a = b := by
  cases r with
  | error e => exact ⟨nofun, fun ⟨_, h, _⟩ => nomatch h⟩
  | ok a =>
    show (Except.ok (f a) : Except ε β) = .ok b ↔ _
    simp only [Except.ok.injEq, exists_eq_left']

/-- There is a failure just where there is no result. -/
theorem exists_error_iff {ε α : Type} {r : Except ε α} :
    (∃ f, r = .error f) ↔ ∀ a, r ≠ .ok a := by
  cases r with
  | error f => exact ⟨fun _ => nofun, fun _ => ⟨f, rfl⟩⟩
  | ok a => exact ⟨nofun, fun h => absurd rfl (h a)⟩

/-- A parse succeeds just if the text is within its bound of bytes and the parser, made for the
levels allowed, reads all of it. -/
theorem parse_eq_ok_iff {goal : Goal} {p : Nat → Parser α} {src : String} {limits : Limits}
    {a : α} :
    parse goal p src limits = .ok a ↔
      src.utf8ByteSize ≤ limits.maxBytes ∧
        (p limits.maxDepth).whole limits.maxDepth src.toList = .ok a := by
  simp only [parse, mapError_eq_ok_iff]
  by_cases h : limits.maxBytes < src.utf8ByteSize
  · simp [h, Nat.not_le.mpr h]
  · simp [h, Nat.not_lt.mp h]

end Stencil.Parse

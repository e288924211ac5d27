/-
# Stencil.Proofs.Diagnosis -- mismatches tell the truth

When a text fails on a mismatch, something is said to be expected at the reported place,
and each thing said there is right: the text up to that place, followed by it and perhaps
by more, is accepted. So what has been read up to the place of a mismatch is always the
beginning of something that could have been accepted.

The notes that are made while reading are settled in `Stencil.Proofs.Completion`. Here the
last one joins them: that the text should have ended where the reader stopped.
-/
import Stencil.Proofs.Completion.Failure
import Stencil.Proofs.Completion.Template
import Stencil.Proofs.Goal

namespace Stencil.Parse

variable {α : Type}

/-- The text is what an entry of a message asks for: it begins with what the entry names,
or it is empty and the entry asks for the end. -/
def Expects (entry : String) (u : List Char) : Prop :=
  Begins entry u ∨ entry = "end of input" ∧ u = []

/-! ## Frontiers of whole texts -/

namespace Frontier

variable {text : List Char} {L : α → List Char → Prop} {f : Frontier}

/-- Every note of the frontier asks rightly for something that leads to a text of `L`. -/
def Truthful (L : α → List Char → Prop) (text : List Char) (f : Frontier) : Prop :=
  ∀ e ∈ f.wanted, ∃ s c u, Cursor.Spans ⟨0, text⟩ s c ∧ f.place = c.place ∧
    Expects e.describe u ∧ ∃ a, L a (s ++ u)

theorem Completable.truthful (h : f.Completable ⟨0, text⟩ fun s => ∃ a, L a s) :
    f.Truthful L text := by
  intro e he
  obtain ⟨s, c, u, hs, hplace, hu, hL⟩ := h.completed he
  exact ⟨s, c, u, hs, hplace, .inl hu, hL⟩

/-- Where a whole text of `L` was read, its end may be asked for. -/
theorem Truthful.record (h : f.Truthful L text) {s : List Char} {c : Cursor} {a : α}
    (hs : Cursor.Spans ⟨0, text⟩ s c) (ha : L a s) :
    (f.record c.place .endOfInput).Truthful L text := by
  intro e he
  obtain ⟨he, hplace⟩ | ⟨he, hplace⟩ := mem_merge he
  · obtain ⟨s', c', u, hs', hplace', hu, hL⟩ := h e he
    exact ⟨s', c', u, hs', hplace.trans hplace', hu, hL⟩
  · rw [List.mem_singleton.mp he]
    refine ⟨s, c, [], hs, hplace, .inr ⟨rfl, rfl⟩, a, ?_⟩
    rwa [List.append_nil]

/-- The place of a note cuts the text where the note was left. -/
theorem Truthful.take (h : f.Truthful L text) {e : Expected} (he : e ∈ f.wanted) :
    ∃ u, Expects e.describe u ∧ ∃ a, L a (text.take f.place ++ u) := by
  obtain ⟨s, c, u, hs, hfplace, hu, ha⟩ := h e he
  obtain ⟨rfl, hplace⟩ := Cursor.spans_start_iff.mp hs
  rw [hfplace, hplace, List.take_left]
  exact ⟨u, hu, ha⟩

end Frontier

/-- What a mismatch on a whole text says of it. -/
theorem Parser.whole_mismatch {p : Parser α} {L : α → List Char → Prop} (h : p.Explains L)
    (hreports : p.Reports) {n : Nat} {text : List Char} {location : Location}
    {found : Option Char} {expected : List String}
    (hm : p.whole n text = .error (.mismatch location found expected)) :
    expected ≠ [] ∧ ∃ before after, text = before ++ after ∧ location = .behind before ∧
      ∀ entry ∈ expected, ∃ u, Expects entry u ∧ ∃ a, L a (before ++ u) := by
  have hcompletes : (p.reply ⟨0, text⟩).frontier.Completable ⟨0, text⟩ fun s => ∃ a, L a s :=
    h.completes ⟨0, text⟩
  -- whichever frontier the message is made of, it has notes and they are right
  suffices hf : ∃ f : Frontier, f.wanted ≠ [] ∧ f.Truthful L text ∧
      .mismatch location found expected = f.mismatch text by
    obtain ⟨f, hne, htruth, hf⟩ := hf
    rw [Frontier.mismatch, Cause.mismatch.injEq] at hf
    obtain ⟨rfl, -, rfl⟩ := hf
    refine ⟨by simpa using hne, _, _, (List.take_append_drop f.place text).symm, rfl, ?_⟩
    intro entry hentry
    obtain ⟨e, he, rfl⟩ := List.mem_map.mp hentry
    exact htruth.take he
  obtain ⟨-, hcause⟩ | ⟨hfailed, hcause⟩ | ⟨a, next, hread, -, hcause⟩ :=
    Parser.whole_eq_error_iff.mp hm
  · cases hcause
  · -- nothing was read
    exact ⟨_, hreports _ hfailed, hcompletes.truthful, hcause⟩
  · -- a beginning was read, and some text is left
    obtain ⟨s, hs, ha⟩ := h.sound hread
    refine ⟨_, ?_, hcompletes.truthful.record hs ha, hcause⟩
    have hend : (Frontier.missing next.place .endOfInput).wanted ≠ [] := List.cons_ne_nil _ _
    exact Frontier.merge_wanted_ne_nil hcompletes.place_eq_zero
      (fun hnil => absurd hnil hend) (.inr hend)

/-! ## All goals -/

namespace Goal

/-- The text is accepted, under all limits that are large enough for it. -/
def Accepts (goal : Goal) (text : String) : Prop :=
  ∃ t, ∀ limits : Limits, text.utf8ByteSize ≤ limits.maxBytes →
    text.utf8ByteSize ≤ limits.maxDepth → goal.parse text limits = .ok t

variable {goal : Goal}

theorem accepts_of_written {t : goal.Tree} {text : String} (h : goal.Written t text.toList) :
    goal.Accepts text := by
  refine ⟨t, fun limits hbytes hdepth => parse_eq_ok_iff.mpr ⟨hbytes, h, ?_⟩⟩
  have hn := h.nesting_le_length
  have hlen := length_le_utf8ByteSize text
  omega

theorem parser_explains (goal : Goal) (n : Nat) : (goal.parser n).Explains goal.Written := by
  cases goal with
  | template => exact Parser.template_explains n
  | condition => exact Parser.condition_explains n
  | expression => exact Parser.expression_explains
  | assignments => exact Parser.assignments_explains

theorem parser_reports (goal : Goal) (n : Nat) : (goal.parser n).Reports := by
  cases goal with
  | template => exact Parser.reports_of_ne_failed fun _ => Parser.template_ne_failed n
  | condition => exact Parser.condition_reports n
  | expression => exact Parser.expression_reports
  | assignments => exact Parser.assignments_reports

end Goal

/-- A mismatch comes from reading the whole text. -/
theorem Goal.whole_of_mismatch {goal : Goal} {src : String} {limits : Limits} {f : Failure}
    {location : Location} {found : Option Char} {expected : List String}
    (h : goal.parse src limits = .error f) (hf : f.cause = .mismatch location found expected) :
    (goal.parser limits.maxDepth).whole limits.maxDepth src.toList =
      .error (.mismatch location found expected) := by
  obtain hlong | hfits := Nat.lt_or_ge limits.maxBytes src.utf8ByteSize
  · -- a text that is too long fails for that reason
    rw [parse_of_lt hlong, Except.error.injEq] at h
    rw [← h] at hf
    cases hf
  · obtain ⟨-, -, hw⟩ := (parse_eq_error_iff hfits).mp h
    rw [hw, hf]

/-- If a text fails on a mismatch, the message asks for something at its place, and every
entry of the message is right: the text in front of the place, followed by what the entry
asks for and perhaps more, is accepted. In particular the text in front of the place begins
an accepted text. -/
theorem mismatch_entries_complete {goal : Goal} {src : String} {limits : Limits} {f : Failure}
    {location : Location} {found : Option Char} {expected : List String}
    (h : goal.parse src limits = .error f) (hf : f.cause = .mismatch location found expected) :
    expected ≠ [] ∧ ∃ before after : String, src = before ++ after ∧
      before.utf8ByteSize = location.offset ∧
      (∀ entry ∈ expected, ∃ u : String, Expects entry u.toList ∧ goal.Accepts (before ++ u)) ∧
      ∃ u, goal.Accepts (before ++ u) := by
  have hwhole := Goal.whole_of_mismatch h hf
  obtain ⟨hne, s, rest, hsrc, hlocation, hentries⟩ :=
    Parser.whole_mismatch (goal.parser_explains _) (goal.parser_reports _) hwhole
  have hcompleted : ∀ entry ∈ expected, ∃ u : String, Expects entry u.toList ∧
      goal.Accepts (String.ofList s ++ u) := by
    intro entry hentry
    obtain ⟨u, hu, t, ht⟩ := hentries entry hentry
    refine ⟨String.ofList u, by rwa [String.toList_ofList], Goal.accepts_of_written (t := t) ?_⟩
    rwa [String.toList_append, String.toList_ofList, String.toList_ofList]
  refine ⟨hne, String.ofList s, String.ofList rest, ?_, ?_, hcompleted, ?_⟩
  · rw [← String.ofList_append, ← hsrc, String.ofList_toList]
  · rw [hlocation, utf8ByteSize_ofList]
    rfl
  · obtain ⟨entry, hentry⟩ := List.exists_mem_of_ne_nil _ hne
    obtain ⟨u, -, hu⟩ := hcompleted entry hentry
    exact ⟨u, hu⟩

/-- Four things can follow an `&` in a group, and all of them can be completed. -/
theorem mismatch_entries_complete_group :
    Goal.condition.parse "!(a &" {} = .error ⟨.condition, "!(a &",
        .mismatch ⟨5, 1, 6⟩ none ["identifier", "number", "'\"'", "'('"]⟩ ∧
      ∃ before after : String, "!(a &" = before ++ after ∧ before.utf8ByteSize = 5 ∧
        ∀ entry ∈ ["identifier", "number", "'\"'", "'('"],
          ∃ u : String, Expects entry u.toList ∧ Goal.condition.Accepts (before ++ u) := by
  have hmismatch : Goal.condition.parse "!(a &" {} = .error ⟨.condition, "!(a &",
      .mismatch ⟨5, 1, 6⟩ none ["identifier", "number", "'\"'", "'('"]⟩ := rfl
  obtain ⟨-, before, after, hsrc, hsize, hentries, -⟩ := mismatch_entries_complete hmismatch rfl
  exact ⟨hmismatch, before, after, hsrc, hsize, hentries⟩

end Stencil.Parse

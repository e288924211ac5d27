/-
# Stencil.Proofs.Expression.Forms -- the five forms of a value expression

A value expression has one of five forms: a word for a truth value, a sum or difference,
a number, a quoted text, a name. For each form this module says which texts have it,
without a grammar and without an order of trying, and that the parser gives a tree of
that form for just these texts.

Some forms share beginnings, but no text has two of them. A word for a truth value is
also an identifier, so it is excluded where a name stands by itself or as the first term
of a sum; as the second term it is a name like any other.
-/
import Stencil.Proofs.Expression.Value

namespace Stencil

open Parse

/-- The forms of value expressions. -/
inductive Expression.Form where
  | truth
  | arithmetic
  | number
  | text
  | lookup
deriving DecidableEq

/-! ## Which texts have which form -/

/-- The text is two variables or numbers with an operator between them, and the first is not
a word for a truth value. -/
def IsArithmetic (a : Operand) (op : Additive) (b : Operand) (s : List Char) : Prop :=
  ∃ x w o w' y, s = x ++ (w ++ (o ++ (w' ++ y))) ∧ a.Term x ∧ (∀ c, ¬ TruthWord c x) ∧
    Blanks w ∧ op.Spelling o ∧ Blanks w' ∧ b.Term y

/-- The text is the identifier `name`, and not a word for a truth value. -/
def IsLookup (name : String) (s : List Char) : Prop := IsName name s ∧ ∀ b, ¬ TruthWord b s

namespace Expression

/-- The texts of a form. -/
def Form.Texts : Form → List Char → Prop
  | truth, s => ∃ b, TruthWord b s
  | arithmetic, s => ∃ a op b, IsArithmetic a op b s
  | number, s => ∃ v, IsNumber v s
  | text, s => ∃ body, IsQuoted body s
  | lookup, s => ∃ name, IsLookup name s

/-- The form of a value expression. -/
def form : Expression → Form
  | .truth _ => .truth
  | .arithmetic _ _ _ => .arithmetic
  | .operand (.number _) => .number
  | .operand (.text _) => .text
  | .operand (.lookup _) => .lookup

variable {s : List Char}

theorem written_truth_iff {b : Bool} : Written (.truth b) s ↔ TruthWord b s := by
  constructor
  · intro h
    cases h with
    | truth h => exact h
  · exact .truth

theorem written_arithmetic_iff {a b : Operand} {op : Additive} :
    Written (.arithmetic a op b) s ↔ IsArithmetic a op b s := by
  constructor
  · intro h
    cases h with
    | arithmetic ha hno hw hop hw' hb => exact ⟨_, _, _, _, _, rfl, ha, hno, hw, hop, hw', hb⟩
  · rintro ⟨x, w, o, w', y, rfl, ha, hno, hw, hop, hw', hb⟩
    exact .arithmetic ha hno hw hop hw' hb

theorem written_number_iff {v : Value} : Written (.operand (.number v)) s ↔ IsNumber v s := by
  constructor
  · intro h
    cases h with
    | number h => exact h
  · exact .number

theorem written_text_iff {body : String} :
    Written (.operand (.text body)) s ↔ IsQuoted body s := by
  constructor
  · intro h
    cases h with
    | text h => exact h
  · exact .text

theorem written_lookup_iff {name : String} :
    Written (.operand (.lookup name)) s ↔ IsLookup name s := by
  constructor
  · intro h
    cases h with
    | lookup hname hno => exact ⟨hname, hno⟩
  · rintro ⟨hname, hno⟩
    exact .lookup hname hno

/-- A text has a form just if it writes an expression of that form. -/
theorem Form.texts_iff {k : Form} : k.Texts s ↔ ∃ e : Expression, e.form = k ∧ e.Written s := by
  constructor
  · intro h
    cases k with
    | truth =>
      obtain ⟨b, h⟩ := h
      exact ⟨_, rfl, written_truth_iff.mpr h⟩
    | arithmetic =>
      obtain ⟨a, op, b, h⟩ := h
      exact ⟨_, rfl, written_arithmetic_iff.mpr h⟩
    | number =>
      obtain ⟨v, h⟩ := h
      exact ⟨_, rfl, written_number_iff.mpr h⟩
    | text =>
      obtain ⟨body, h⟩ := h
      exact ⟨_, rfl, written_text_iff.mpr h⟩
    | lookup =>
      obtain ⟨name, h⟩ := h
      exact ⟨_, rfl, written_lookup_iff.mpr h⟩
  · rintro ⟨e, rfl, h⟩
    match e with
    | .truth b => exact ⟨b, written_truth_iff.mp h⟩
    | .arithmetic a op b => exact ⟨a, op, b, written_arithmetic_iff.mp h⟩
    | .operand (.number v) => exact ⟨v, written_number_iff.mp h⟩
    | .operand (.text body) => exact ⟨body, written_text_iff.mp h⟩
    | .operand (.lookup name) => exact ⟨name, written_lookup_iff.mp h⟩

/-- No text has two forms, because none writes two expressions. -/
theorem Form.texts_unique {k k' : Form} (h : k.Texts s) (h' : k'.Texts s) : k = k' := by
  obtain ⟨e, rfl, he⟩ := texts_iff.mp h
  obtain ⟨e', rfl, he'⟩ := texts_iff.mp h'
  rw [Parser.expression_reads.unique (before_nil _) he he']

/-- Without a form, a text within its bound is not accepted, and no other text is refused. -/
theorem parse_error_iff {src : String} {limits : Limits}
    (h : src.utf8ByteSize ≤ limits.maxBytes) :
    (∃ f, parse src limits = .error f) ↔ ∀ k : Form, ¬ k.Texts src.toList := by
  rw [exists_error_iff]
  constructor
  · intro hno k hk
    obtain ⟨e, -, he⟩ := Form.texts_iff.mp hk
    exact hno e (parse_eq_ok_iff.mpr ⟨h, he⟩)
  · intro hno e he
    exact hno e.form (Form.texts_iff.mpr ⟨e, rfl, (parse_eq_ok_iff.mp he).2⟩)

end Expression

/-- The language of value expressions. A text within the bound on its length is parsed as a
truth value exactly if it is one of the four words, as a sum or difference exactly if it is
two terms with an operator between them, as a number or a quoted text exactly if it is one,
and as the look-up of a name exactly if it is that identifier and none of the four words.
Every other text fails, and no text is two of these. -/
theorem expression_parse_by_form (src : String) (limits : Limits)
    (h : src.utf8ByteSize ≤ limits.maxBytes) :
    (∀ b, Expression.parse src limits = .ok (.truth b) ↔ TruthWord b src.toList) ∧
    (∀ a op b, Expression.parse src limits = .ok (.arithmetic a op b) ↔
      IsArithmetic a op b src.toList) ∧
    (∀ v, Expression.parse src limits = .ok (.operand (.number v)) ↔ IsNumber v src.toList) ∧
    (∀ body, Expression.parse src limits = .ok (.operand (.text body)) ↔
      IsQuoted body src.toList) ∧
    (∀ name, Expression.parse src limits = .ok (.operand (.lookup name)) ↔
      name = src ∧ isIdentifier src = true ∧ ∀ b, ¬ TruthWord b src.toList) ∧
    ((∃ f, Expression.parse src limits = .error f) ↔
      ∀ form : Expression.Form, ¬ form.Texts src.toList) ∧
    ∀ form form' : Expression.Form, form.Texts src.toList → form'.Texts src.toList →
      form = form' := by
  have hparse : ∀ e, Expression.parse src limits = .ok e ↔ e.Written src.toList := by
    intro e
    rw [Expression.parse_eq_ok_iff]
    exact and_iff_right h
  refine ⟨?_, ?_, ?_, ?_, ?_, Expression.parse_error_iff h, fun _ _ => Expression.Form.texts_unique⟩
  · intro b
    rw [hparse, Expression.written_truth_iff]
  · intro a op b
    rw [hparse, Expression.written_arithmetic_iff]
  · intro v
    rw [hparse, Expression.written_number_iff]
  · intro body
    rw [hparse, Expression.written_text_iff]
  · intro name
    rw [hparse, Expression.written_lookup_iff]
    constructor
    · rintro ⟨⟨hname, hsrc⟩, hno⟩
      obtain rfl := String.toList_inj.mp hsrc
      exact ⟨rfl, hname, hno⟩
    · rintro ⟨rfl, hname, hno⟩
      exact ⟨⟨hname, rfl⟩, hno⟩

/-- A minus sign is a sign or an operator, whichever lets all of the text be read; a word for a
truth value is no first term. -/
theorem expression_parse_by_form_signs :
    Expression.parse "-1 - -2" {} =
        .ok (.arithmetic (.number (.int (-1))) .minus (.number (.int (-2)))) ∧
      (∀ form : Expression.Form, form.Texts "-1 - -2".toList → form = .arithmetic) ∧
      ∀ form : Expression.Form, ¬ form.Texts "no + 1".toList := by
  obtain ⟨-, harithmetic, -, -, -, -, hunique⟩ := expression_parse_by_form "-1 - -2" {} (by decide)
  obtain ⟨-, -, -, -, -, hfails, -⟩ := expression_parse_by_form "no + 1" {} (by decide)
  have hparse : Expression.parse "-1 - -2" {} =
      .ok (.arithmetic (.number (.int (-1))) .minus (.number (.int (-2)))) := rfl
  have hform := (harithmetic _ _ _).mp hparse
  exact ⟨hparse, fun form h => hunique form .arithmetic h ⟨_, _, _, hform⟩,
    hfails.mp ⟨_, rfl⟩⟩

example : ∃ f, Expression.parse "1.+2" {} = .error f := ⟨_, rfl⟩

example : Expression.parse "a + no" {} = .ok (.arithmetic (.lookup "a") .plus (.lookup "no")) := rfl

end Stencil

/-
# Stencil.Proofs.Expression.Written -- the grammar of expressions

Which texts write a value expression or a condition, and which tree they write. The
rules are plain alternatives: none is tried before another, nothing takes the longest
match, and nothing is said about a parser. What makes the grammar unambiguous all the
same is proved where the parser is shown to read it.

    condition   := conjunction (blanks ('|' | '||') blanks conjunction)*
    conjunction := atom (blanks ('&' | '&&') blanks atom)*
    atom        := operand blanks comparison blanks operand
                 | '!'? identifier '?'?
                 | '!'? '(' blanks condition blanks ')'

A value expression that begins with a word for a truth value is that truth value and
nothing else, so no sum and no look-up begins with such a word.
-/
import Stencil.Expression.Basic
import Stencil.Proofs.Lexeme

namespace Stencil

/-! ## Operators -/

/-- The ten spellings of the comparison operators. -/
inductive Comparison.Spelling : Comparison → List Char → Prop
  | lt : Spelling .lt ['<']
  | gt : Spelling .gt ['>']
  | eq : Spelling .eq ['=']
  | eqDoubled : Spelling .eq ['=', '=']
  | le : Spelling .le ['<', '=']
  | leSign : Spelling .le ['≤']
  | ge : Spelling .ge ['>', '=']
  | geSign : Spelling .ge ['≥']
  | ne : Spelling .ne ['!', '=']
  | neSign : Spelling .ne ['≠']

/-- The spellings of the operators of arithmetic. -/
inductive Additive.Spelling : Additive → List Char → Prop
  | plus : Spelling .plus ['+']
  | minus : Spelling .minus ['-']

/-! ## Operands and value expressions -/

/-- The texts of variables and numbers. -/
inductive Operand.Term : Operand → List Char → Prop
  | lookup {name : String} {s : List Char} : IsName name s → Term (.lookup name) s
  | number {v : Value} {s : List Char} : IsNumber v s → Term (.number v) s

/-- The texts of operands. -/
inductive Operand.Written : Operand → List Char → Prop
  | term {a : Operand} {s : List Char} : Term a s → Written a s
  | text {body : String} {s : List Char} : IsQuoted body s → Written (.text body) s

/-- The words for the truth values. -/
inductive TruthWord : Bool → List Char → Prop
  | true : TruthWord Bool.true ['t', 'r', 'u', 'e']
  | yes : TruthWord Bool.true ['y', 'e', 's']
  | false : TruthWord Bool.false ['f', 'a', 'l', 's', 'e']
  | no : TruthWord Bool.false ['n', 'o']

/-- The texts of value expressions. -/
inductive Expression.Written : Expression → List Char → Prop
  | truth {b : Bool} {s : List Char} : TruthWord b s → Written (.truth b) s
  | arithmetic {a b : Operand} {op : Additive} {s w o w' t : List Char} :
      a.Term s → (∀ b, ¬ TruthWord b s) → Blanks w → op.Spelling o → Blanks w' → b.Term t →
      Written (.arithmetic a op b) (s ++ (w ++ (o ++ (w' ++ t))))
  | number {v : Value} {s : List Char} : IsNumber v s → Written (.operand (.number v)) s
  | text {body : String} {s : List Char} : IsQuoted body s → Written (.operand (.text body)) s
  | lookup {name : String} {s : List Char} :
      IsName name s → (∀ b, ¬ TruthWord b s) → Written (.operand (.lookup name)) s

/-! ## Conditions -/

/-- Something between blanks, and a closing character. -/
def Enclosed {α : Type} (L : α → List Char → Prop) (close : Char) (a : α) (s : List Char) : Prop :=
  ∃ w u w', Blanks w ∧ L a u ∧ Blanks w' ∧ s = w ++ (u ++ (w' ++ [close]))

/-- One or more items, and between each two a mark that may be doubled, with blanks
around it. -/
inductive Joined {α : Type} (mark : Char) (Item : α → List Char → Prop) :
    List α → List Char → Prop
  | one {a : α} {s : List Char} : Item a s → Joined mark Item [a] s
  | more {a : α} {as : List α} {s w m w' t : List Char} :
      Item a s → Blanks w → (m = [mark] ∨ m = [mark, mark]) → Blanks w' →
      Joined mark Item as t → Joined mark Item (a :: as) (s ++ (w ++ (m ++ (w' ++ t))))

/-- An exclamation mark, if there is one. -/
def bang (inverted : Bool) : List Char := if inverted then ['!'] else []

/-- The texts of atoms. -/
inductive Atom.Written : Atom → List Char → Prop
  | compare {a b : Operand} {op : Comparison} {s w o w' t : List Char} :
      a.Written s → Blanks w → op.Spelling o → Blanks w' → b.Written t →
      Written (.compare a op b) (s ++ (w ++ (o ++ (w' ++ t))))
  | present (inverted : Bool) {name : String} {s ask : List Char} :
      IsName name s → (ask = [] ∨ ask = ['?']) →
      Written (.present inverted name) (bang inverted ++ (s ++ ask))
  | group (inverted : Bool) {inner : Condition} {w s w' : List Char} :
      Blanks w → Joined '|' (Joined '&' Written) inner s → Blanks w' →
      Written (.group inverted inner) (bang inverted ++ ('(' :: (w ++ (s ++ (w' ++ [')'])))))

/-- The texts of conjunctions. -/
def Conjunction.Written : Conjunction → List Char → Prop := Joined '&' Atom.Written

/-- The texts of conditions. -/
def Condition.Written : Condition → List Char → Prop := Joined '|' Conjunction.Written

/-! ## Joined items -/

variable {α : Type} {mark : Char} {Item Item' : α → List Char → Prop}

theorem Joined.imp {as : List α} {s : List Char} (h : Joined mark Item as s)
    (hi : ∀ a ∈ as, ∀ s, Item a s → Item' a s) : Joined mark Item' as s := by
  induction h with
  | one ha => exact .one (hi _ (by simp) _ ha)
  | more ha hw hm hw' _ ih =>
    refine .more (hi _ (by simp) _ ha) hw hm hw' (ih ?_)
    intro b hb
    exact hi b (by simp [hb])

/-- Items with a property are joined just if the items are joined and each has it. -/
theorem joined_and_iff {P : α → Prop} {as : List α} {s : List Char} :
    Joined mark (fun a s => Item a s ∧ P a) as s ↔ Joined mark Item as s ∧ ∀ a ∈ as, P a := by
  constructor
  · intro h
    refine ⟨h.imp fun _ _ _ h => h.1, ?_⟩
    induction h with
    | one ha => simp [ha.2]
    | more ha _ _ _ _ ih => exact List.forall_mem_cons.mpr ⟨ha.2, ih⟩
  · rintro ⟨h, hp⟩
    exact h.imp fun a ha s hs => ⟨hs, hp a ha⟩

/-- Two texts of joined items with one more mark between them are one. -/
theorem Joined.append {as bs : List α} {s w m w' t : List Char} (h : Joined mark Item as s)
    (hw : Blanks w) (hm : m = [mark] ∨ m = [mark, mark]) (hw' : Blanks w')
    (h' : Joined mark Item bs t) : Joined mark Item (as ++ bs) (s ++ (w ++ (m ++ (w' ++ t)))) := by
  induction h with
  | one ha => exact .more ha hw hm hw' h'
  | more ha hw₁ hm₁ hw₁' _ ih =>
    simp only [List.append_assoc]
    exact .more ha hw₁ hm₁ hw₁' ih

end Stencil

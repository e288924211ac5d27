/-
# Stencil.Expression.Parser -- the grammar of expressions

    condition   := conjunction (('|' | '||') conjunction)*
    conjunction := atom (('&' | '&&') atom)*
    atom        := operand comparison operand
                 | '!'? identifier '?'?
                 | '!'? '(' condition ')'
    operand     := identifier | numeral | quoted text

    expression  := 'true' | 'false' | 'yes' | 'no'
                 | (identifier | numeral) ('+' | '-') (identifier | numeral)
                 | numeral | quoted text | identifier

Alternatives are tried in this order, spellings of operators in the order of their
table, where a longer one stands before its own beginning. Blanks may stand around
operators and inside parentheses, and nowhere else.

Groups are the only recursion. The grammar is written over a parser for what
follows an opening parenthesis, and `condition` ties the knot by recursion on the
depth that is left: at depth zero that parser gives up the whole parse.
-/
import Stencil.Expression.Basic
import Stencil.Parse.Lexeme
import Stencil.Parse.Whole

namespace Stencil

namespace Parse.Parser

/-! ## Operators -/

/-- The spellings of the comparison operators, in the order in which they are tried. -/
def comparisonSpellings : List (String × Comparison) :=
  [("<=", .le), ("<", .lt), (">=", .ge), (">", .gt), ("==", .eq), ("=", .eq),
    ("≤", .le), ("≥", .ge), ("≠", .ne), ("!=", .ne)]

/-- The spellings of the operators of arithmetic. -/
def additiveSpellings : List (String × Additive) := [("+", .plus), ("-", .minus)]

/-- Read the first spelling of a table that is there; `e` is missed if none is. -/
def spelling {α : Type} (e : Expected) : List (String × α) → Parser α
  | [] => want e
  | (s, a) :: table => do
    if ← accept s then return a else spelling e table

/-- Read a comparison operator. -/
def comparison : Parser Comparison := spelling .comparison comparisonSpellings

/-- Read an operator of arithmetic. -/
def additive : Parser Additive := spelling .additive additiveSpellings

/-! ## Operands -/

/-- Read a variable or a number. -/
def term : Parser Operand := .lookup <$> identifier <|> .number <$> number

/-- Read a variable, a number or a text. -/
def operand : Parser Operand := term <|> .text <$> quotedText

/-- Read two operands with an operator between them. -/
def binary {α β : Type} (side : Parser α) (op : Parser β) : Parser (α × β × α) := do
  let a ← side
  blanks
  let o ← op
  blanks
  let b ← side
  return (a, o, b)

/-! ## Value expressions -/

/-- Read one of the words for the truth values. -/
def truth : Parser Bool :=
  (do keyword "true"; return true) <|> (do keyword "false"; return false) <|>
  (do keyword "yes"; return true) <|> (do keyword "no"; return false)

/-- Read a sum or a difference. -/
def arithmetic : Parser Expression := do
  let (a, op, b) ← binary term additive
  return .arithmetic a op b

/-- Read a value expression. -/
def expression : Parser Expression :=
  .truth <$> truth <|> arithmetic <|>
  .operand <$> (.number <$> number <|> .text <$> quotedText <|> .lookup <$> identifier)

/-! ## Conditions -/

/-- Read a comparison of two operands. -/
def comparing : Parser Atom := do
  let (a, op, b) ← binary operand comparison
  return .compare a op b

/-- Read the name of a variable that is asked about; a question mark may follow. -/
def presence (inverted : Bool) : Parser Atom := do
  let name ← identifier
  let _ ← accept "?"
  return .present inverted name

/-- Read a group; `inside` reads what follows the opening parenthesis. -/
def group (inside : Parser Condition) (inverted : Bool) : Parser Atom := do
  token "("
  let inner ← inside
  return .group inverted inner

/-- Read an atom. -/
def atom (inside : Parser Condition) : Parser Atom :=
  comparing <|> do
    let inverted ← accept "!"
    presence inverted <|> group inside inverted

/-- Read one or more items, between them a mark that may be doubled. -/
def joined {α : Type} (mark : String) (item : Parser α) : Parser (List α) := do
  let first ← item
  let others ← many do
    blanks
    token mark
    let _ ← accept mark
    blanks
    item
  return first :: others

/-- Read a conjunction. -/
def conjunction (inside : Parser Condition) : Parser Conjunction := joined "&" (atom inside)

/-- Read a disjunction of conjunctions. -/
def disjunction (inside : Parser Condition) : Parser Condition :=
  joined "|" (conjunction inside)

/-- Read what stands between blanks, up to a closing token. -/
def enclosed {α : Type} (inner : Parser α) (close : String) : Parser α := do
  blanks
  let a ← inner
  blanks
  token close
  return a

/-- Read a condition whose groups nest at most `depth` deep. -/
def condition : (depth : Nat) → Parser Condition
  | 0 => disjunction tooDeep
  | depth + 1 => ⟨fun c => (disjunction (enclosed (condition depth) ")")).reply c⟩

end Parse.Parser

/-! ## Whole texts -/

/-- Parse a value expression. -/
def Expression.parse (src : String) (limits : Limits) : Except Parse.Failure Expression :=
  Parse.parse .expression (fun _ => .expression) src limits

/-- Parse a condition. -/
def Condition.parse (src : String) (limits : Limits) : Except Parse.Failure Condition :=
  Parse.parse .condition .condition src limits

end Stencil

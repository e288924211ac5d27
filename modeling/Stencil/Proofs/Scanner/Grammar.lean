/-
# Stencil.Proofs.Scanner.Grammar -- the grammar in place

The rules that read in place what the parsers of the same names read. Where the position is set
back is part of a rule: a comparison, a sum, a substitution, a conditional and an assignment
leave that to whoever called them.

Groups and conditionals are the only recursion. Like the parsers, the rules around them are
written over a rule for what is one level deeper (`inside`), which recurses on the levels that
are left; with none left, it has no outcome. Nothing here says that it is then never run.
-/
import Stencil.Proofs.Goal
import Stencil.Proofs.Scanner.Basic

namespace Stencil.Scanner

open Parse
open Parse.Parser (isQuotable comparisonSpellings additiveSpellings atOpener)

variable {α β : Type}

/-! ## Names, words, numbers and texts -/

/-- Read spaces and tabs, as many as there are. -/
def blanks : Rule Unit := do
  let _ ← eatWhile Text.isBlank

/-- Read an identifier. -/
def identifier : Rule String := do
  let start ← mark
  eatIf .identifier isNameStart
  let _ ← eatWhile isNameRest
  return String.ofList (← slice start)

/-- Go on only if the next character does not satisfy `p`. -/
def notBefore (p : Char → Bool) : Rule Unit := do
  if (← rest).head?.any p then failure

/-- Read a word that no identifier character follows. -/
def keyword (word : String) : Rule Unit := attempt do
  eat word
  notBefore isNameRest

/-- Read the point and the digits behind it; a point with no digit behind it is left. -/
def fraction : Rule Unit := do
  let whole ← mark
  if ← accept "." then
    if (← eatWhile Char.isDigit).isEmpty then reset whole

/-- Read the digits of a numeral, whose sign was read behind the mark `start`. If there are none,
or if the numeral has no finite value, its sign is given back too. -/
def numeralFrom (start : Nat) : Rule Value := do
  if (← eatWhile Char.isDigit).isEmpty then
    reset start
    expected .number
    failure
  else
    fraction
    match Value.ofNumeral? (← slice start) with
    | some v => return v
    | none =>
      reset start
      failure

/-- Read a numeral with a finite value. -/
def number : Rule Value := do
  let start ← mark
  let _ ← accept "-"
  numeralFrom start

/-- Read a text between double quotes. -/
def quotedText : Rule String := attempt do
  eat "\""
  let body ← eatWhile isQuotable
  eat "\""
  return String.ofList body

/-! ## Operators and operands -/

/-- Read the first spelling of a table that is there; `e` is missed if none is. -/
def spelling (e : Expected) : List (String × α) → Rule α
  | [] => do
    expected e
    failure
  | (s, a) :: table => do
    if ← accept s then return a else spelling e table

/-- Read a comparison operator. -/
def comparison : Rule Comparison := spelling .comparison comparisonSpellings

/-- Read an operator of arithmetic. -/
def additive : Rule Additive := spelling .additive additiveSpellings

/-- Read a variable or a number. -/
def term : Rule Operand := orElse (.lookup <$> identifier) (.number <$> number)

/-- Read a variable, a number or a text. -/
def operand : Rule Operand := orElse term (.text <$> quotedText)

/-- Read two operands with an operator between them. -/
def binary (side : Rule α) (op : Rule β) : Rule (α × β × α) := do
  let a ← side
  blanks
  let o ← op
  blanks
  let b ← side
  return (a, o, b)

/-! ## Value expressions -/

/-- Read one of the words for the truth values. -/
def truth : Rule Bool :=
  orElse (do keyword "true"; return true) <| orElse (do keyword "false"; return false) <|
    orElse (do keyword "yes"; return true) (do keyword "no"; return false)

/-- Read a sum or a difference. -/
def arithmetic : Rule Expression := do
  let (a, op, b) ← binary term additive
  return .arithmetic a op b

/-- Read a value expression. -/
def expression : Rule Expression :=
  orElse (.truth <$> truth) <| orElse (attempt arithmetic) <|
    .operand <$> orElse (.number <$> number) (orElse (.text <$> quotedText) (.lookup <$> identifier))

/-! ## Conditions -/

/-- Read a comparison of two operands. -/
def comparing : Rule Atom := do
  let (a, op, b) ← binary operand comparison
  return .compare a op b

/-- Read the name of a variable that is asked about; a question mark may follow. -/
def presence (inverted : Bool) : Rule Atom := do
  let name ← identifier
  let _ ← accept "?"
  return .present inverted name

/-- Read a condition in parentheses; `inside` reads what follows the opening one. -/
def group (inside : Rule Condition) (inverted : Bool) : Rule Atom := do
  eat "("
  let inner ← nested inside
  return .group inverted inner

/-- Read an atom. -/
def atom (inside : Rule Condition) : Rule Atom :=
  orElse (attempt comparing) <| attempt do
    let inverted ← accept "!"
    orElse (presence inverted) (group inside inverted)

/-- Read a connective, which may be doubled, and the item behind it. -/
def another (token : String) (item : Rule α) : Rule α := attempt do
  blanks
  eat token
  let _ ← accept token
  blanks
  item

/-- Read one or more items with connectives between them. -/
def joined (token : String) (item : Rule α) : Rule (List α) := do
  let first ← item
  return first :: (← rounds (another token item) pure)

/-- Read a conjunction. -/
def conjunction (inside : Rule Condition) : Rule Conjunction := joined "&" (atom inside)

/-- Read a disjunction of conjunctions. -/
def disjunction (inside : Rule Condition) : Rule Condition := joined "|" (conjunction inside)

/-- Read what stands between blanks, up to a closing token. -/
def enclosed (inner : Rule α) (close : String) : Rule α := do
  blanks
  let a ← inner
  blanks
  eat close
  return a

/-- Read what follows the opening parenthesis of a group, with so many levels to go before it. -/
def groupWithin : (levels : Nat) → Rule Condition
  | 0 => stuck
  | k + 1 => enclosed (disjunction (groupWithin k)) ")"

/-- Read a condition. -/
def condition : Rule Condition := levelled fun k => disjunction (groupWithin k)

/-! ## Templates -/

/-- Read literal text up to the next opener. -/
def literal : Rule Node := do
  let start ← mark
  skipWhile fun cs => !atOpener cs
  let text ← slice start
  if text.isEmpty then failure else return .literal (String.ofList text)

/-- Read a substitution. -/
def substitution : Rule Node := do
  eat "\x7b="
  .substitution <$> enclosed expression "\x7d"

/-- Read the opener and the test of a branch. -/
def test (opener : String) : Rule Condition := do
  eat opener
  enclosed condition "\x7d"

/-- Read a chain with its opener. -/
def chain (body : Rule Template) : Rule Chain := do
  let t ← test "\x7b?"
  let first ← body
  let others ← rounds (attempt (test "\x7b|")) (fun t => do return (t, ← body))
  let last ← maybe (eat "\x7b|\x7d") (fun _ => some <$> body) none
  eat "\x7b.\x7d"
  return .ofBranches ((t, first) :: others) last

/-- Read a conditional, whose opener is read one level deeper than it is looked for; `inside`
reads what is there. -/
def conditional (inside : Rule Chain) : Rule Node := do
  ahead "\x7b?"
  .conditional <$> nested inside

/-- Read a node. -/
def node (inside : Rule Chain) : Rule Node :=
  orElse literal <| orElse (attempt substitution) (attempt (conditional inside))

/-- Read as many nodes as there are. -/
def nodes (inside : Rule Chain) : Rule Template := rounds (node inside) pure

/-- Read a chain, with so many levels to go before it. -/
def chainWithin : (levels : Nat) → Rule Chain
  | 0 => stuck
  | k + 1 => chain (nodes (chainWithin k))

/-- Read a template. -/
def template : Rule Template := levelled fun k => nodes (chainWithin k)

/-! ## Assignments -/

/-- Read an assignment. -/
def assignment : Rule Assignment := do
  let name ← identifier
  blanks
  eat ":"
  blanks
  let value ← expression
  blanks
  return ⟨name, value⟩

/-- Read a list of assignments, where a line may be empty. -/
def assignments : Rule (List Assignment) := do
  let first ← assignment
  let others ← rounds (eat "\n") (fun _ => perhaps (attempt assignment))
  return first :: others.filterMap id

/-! ## Whole texts -/

/-- The rule of a goal. -/
def rule : (goal : Goal) → Rule goal.Tree
  | .template => template
  | .condition => condition
  | .expression => expression
  | .assignments => assignments

/-- Read with a rule that has to leave nothing. -/
def whole (m : Rule α) : Rule α := do
  let a ← m
  if ← atEnd then return a
  else
    expected .endOfInput
    failure

/-- The state in which a parse begins. -/
def State.start (text : List Char) (limits : Limits) : State := { text, limits }

/-- The mismatch that a state reports. -/
def State.mismatch? (σ : State) : Option Cause :=
  (splitBytes? σ.furthest σ.text).map fun (before, after) =>
    .mismatch (.behind before) after.head? (σ.wanted.map Expected.describe)

/-- What a parse answers that ended here with the given result. -/
def State.answer? (σ : State) (result : Option α) : Option (Except Cause α) :=
  if σ.tooDeep then some (.error (.tooDeep σ.limits.maxDepth))
  else
    match result with
    | some a => some (.ok a)
    | none => σ.mismatch?.map .error

/-- Parse a text within limits. -/
def parse (goal : Goal) (src : String) (limits : Limits) : Option (Except Failure goal.Tree) :=
  let outcome :=
    if limits.maxBytes < src.utf8ByteSize then
      some (.error (.inputTooLong src.utf8ByteSize limits.maxBytes))
    else ((whole (rule goal)).on (.start src.toList limits)).bind fun (result, σ) => σ.answer? result
  outcome.map (·.mapError (⟨goal, src, ·⟩))

end Stencil.Scanner

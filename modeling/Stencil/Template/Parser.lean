/-
# Stencil.Template.Parser -- the grammar of templates

    template     := (literal | substitution | conditional)*
    literal      := the characters up to the next opener, at least one
    substitution := '{=' expression '}'
    conditional  := '{?' condition '}' template
                    ('{|' condition '}' template)*
                    ('{|}' template)?
                    '{.}'

The openers are the beginnings of these directives; every other brace is literal
text. Blanks may stand at both ends of an expression or condition.

A template never fails, it only stops early, and whoever reads on decides whether
what follows may follow: inside a chain the next branch or the end of the chain,
at the outermost level nothing but the end of the text.

Conditionals are the only recursion. As with groups, the grammar is written over a
parser for what follows the opener, and `template` recurses on the depth that is
left, which conditionals share with the groups of their tests.
-/
import Stencil.Expression.Parser
import Stencil.Template.Basic

namespace Stencil

namespace Parse.Parser

/-! ## Literal text -/

/-- The beginnings of directives, where literal text ends. -/
def openers : List (List Char) :=
  [['{', '='], ['{', '?'], ['{', '|'], ['{', '.', '}']]

/-- Whether a directive begins here. -/
def atOpener (cs : List Char) : Bool := openers.any (·.isPrefixOf cs)

/-- Read one character of literal text. -/
def literalChar : Parser Char := ⟨fun c =>
  match c.rest with
  | [] => fail.reply c
  | x :: rest =>
    if atOpener c.rest then fail.reply c else ⟨.matched x (c.advance 1 rest), .none⟩⟩

/-- Read literal text up to the next opener. -/
def literal : Parser Node := do
  let first ← literalChar
  let others ← many literalChar
  return .literal (String.ofList (first :: others))

/-! ## Directives -/

/-- Read a substitution. -/
def substitution : Parser Node := do
  token "\x7b="
  .substitution <$> enclosed expression "\x7d"

/-- Read the test of a branch behind its opener, and the body. -/
def branch (test : Parser Condition) (body : Parser Template) :
    Parser (Condition × Template) := do
  let t ← enclosed test "\x7d"
  let b ← body
  return (t, b)

/-- Read a chain behind its opener. -/
def chain (test : Parser Condition) (body : Parser Template) : Parser Chain := do
  let first ← branch test body
  let others ← many do
    token "\x7b|"
    branch test body
  let last ← optional do
    token "\x7b|\x7d"
    body
  token "\x7b.\x7d"
  return .ofBranches (first :: others) last

/-- Read a node; `inside` reads what follows the opener of a conditional. -/
def node (inside : Parser Chain) : Parser Node :=
  literal <|> substitution <|> do
    token "\x7b?"
    .conditional <$> inside

/-- Read a template whose conditionals and groups nest at most `depth` deep. -/
def template : (depth : Nat) → Parser Template
  | 0 => many (node tooDeep)
  | depth + 1 => ⟨fun c => (many (node (chain (condition depth) (template depth)))).reply c⟩

end Parse.Parser

/-! ## Whole texts -/

/-- Parse a template. -/
def Template.parse (src : String) (limits : Limits) : Except Parse.Failure Template :=
  Parse.parse .template .template src limits

end Stencil

/-
# Stencil.Proofs.Scanner.Basic -- reading in place

The parsers of `Stencil.Parse` have nothing to undo. A scanner reads in place: it has one
position, in bytes, which its rules move forward and set back; a depth that is counted up
where a level of nesting begins and down where it ends; a flag that the text was found to
nest too deeply; and the furthest notes of what was missing. A rule that fails leaves all of
these as they are at that moment, and whoever tries another rule has to see to the position.

A rule need not have an outcome. It has none if it cuts a text inside a character or comes up
from depth zero, which have no meaning, and none if a loop goes on for more rounds than there
are bytes left, or nesting for more levels than the limit leaves, without either of which it
cannot run for ever. To have an outcome is to do none of these. A rule that fails has one.
-/
import Stencil.Parse.Whole

namespace Stencil

namespace Parse

/-- The first bytes of a text, as many as given, and what follows them; nothing if the text is
too short or the cut goes through a character. -/
def splitBytes? : Nat → List Char → Option (List Char × List Char)
  | 0, cs => some ([], cs)
  | _ + 1, [] => none
  | n + 1, c :: cs =>
    if c.utf8Size ≤ n + 1 then
      (splitBytes? (n + 1 - c.utf8Size) cs).map fun (before, after) => (c :: before, after)
    else none

end Parse

namespace Scanner

open Parse

/-! ## States and rules -/

/-- What a scanner carries along. -/
structure State where
  text : List Char
  limits : Limits
  /-- In bytes, like `furthest`. -/
  position : Nat := 0
  depth : Nat := 0
  /-- Some part of the text nests deeper than the limit. -/
  tooDeep : Bool := false
  furthest : Nat := 0
  /-- What was missing at the furthest place. -/
  wanted : List Expected := []
deriving DecidableEq

/-- How many levels may still be begun. -/
def State.levels (σ : State) : Nat := σ.limits.maxDepth - σ.depth

/-- A rule of the grammar: it changes the state, and it may fail. -/
abbrev Rule (α : Type) : Type := OptionT (StateT State Option) α

/-- What a rule does to a state, and its value unless it failed; `none` if it has no outcome. -/
def Rule.on {α : Type} (m : Rule α) (σ : State) : Option (Option α × State) := m.run.run σ

variable {α β : Type}

/-! ## Steps -/

/-- The rule that has no outcome. -/
def stuck : Rule α := OptionT.mk fun _ => none

/-- The position, to be set back to. -/
def mark : Rule Nat := do return (← get).position

/-- Set the position back. -/
def reset (mark : Nat) : Rule Unit := modify fun σ => { σ with position := mark }

/-- Move the position forward. -/
def move (bytes : Nat) : Rule Unit := modify fun σ => { σ with position := σ.position + bytes }

/-- The text from the position on. -/
def rest : Rule (List Char) := do
  let σ ← get
  match splitBytes? σ.position σ.text with
  | some (_, after) => return after
  | none => stuck

/-- The text from a mark up to the position. -/
def slice (mark : Nat) : Rule (List Char) := do
  let σ ← get
  match splitBytes? σ.position σ.text with
  | some (before, _) =>
    match splitBytes? mark before with
    | some (_, between) => return between
    | none => stuck
  | none => stuck

/-- Whether nothing is left. -/
def atEnd : Rule Bool := do
  let σ ← get
  return byteLength σ.text ≤ σ.position

/-- Note that something is missing here: what was noted at an earlier place is forgotten, and
what was noted at a later one makes this note needless. -/
def expected (e : Expected) : Rule Unit := do
  modify fun σ =>
    if σ.furthest < σ.position then { σ with furthest := σ.position, wanted := [] } else σ
  modify fun σ =>
    if σ.position = σ.furthest ∧ e ∉ σ.wanted then { σ with wanted := σ.wanted ++ [e] } else σ

/-- Begin a level of nesting. Once this was refused, it always is. -/
def descend : Rule Unit := do
  let σ ← get
  if σ.tooDeep ∨ σ.limits.maxDepth ≤ σ.depth then
    set { σ with tooDeep := true }
    failure
  else set { σ with depth := σ.depth + 1 }

/-- End a level of nesting. -/
def ascend : Rule Unit := do
  let σ ← get
  match σ.depth with
  | 0 => stuck
  | depth + 1 => set { σ with depth }

/-! ## Rules over rules -/

/-- Run a rule; that it failed is then a value. -/
def perhaps (m : Rule α) : Rule (Option α) :=
  (do return some (← m.run) : StateT State Option (Option (Option α)))

/-- Run a rule; if it fails, run another where it left the position. -/
def orElse (m m' : Rule α) : Rule α := do
  match ← perhaps m with
  | some a => return a
  | none => m'

/-- Run a rule, and set the position back if it fails. -/
def attempt (m : Rule α) : Rule α := do
  let start ← mark
  match ← perhaps m with
  | some a => return a
  | none =>
    reset start
    failure

/-- Run a rule and go on behind it; if it fails, go on where it left the position, with `b`. -/
def maybe (m : Rule α) (f : α → Rule β) (b : β) : Rule β := do
  match ← perhaps m with
  | some a => f a
  | none => return b

/-- Run a rule one level deeper. -/
def nested (m : Rule α) : Rule α := do
  descend
  let result ← perhaps m
  ascend
  match result with
  | some a => return a
  | none => failure

/-- Run a rule that is given how many levels may still be begun. -/
def levelled (m : Nat → Rule α) : Rule α := do
  let σ ← get
  m σ.levels

/-! ## Loops -/

/-- A loop: as long as `head` succeeds, go on with `body` and with the next round; with no round
left, there is no outcome. -/
def roundsWithin (head : Rule α) (body : α → Rule β) : (rounds : Nat) → Rule (List β)
  | 0 => stuck
  | n + 1 => maybe head (fun a => do let b ← body a; return b :: (← roundsWithin head body n)) []

/-- A loop that may take as many rounds as there are bytes left, and one more. -/
def rounds (head : Rule α) (body : α → Rule β) : Rule (List β) := do
  let σ ← get
  roundsWithin head body (byteLength σ.text - σ.position + 1)

/-! ## Characters and tokens -/

/-- Read a token that has to be there. -/
def eat (token : String) : Rule Unit := do
  if token.toList.isPrefixOf (← rest) then move token.utf8ByteSize
  else
    expected (.text token)
    failure

/-- Read a token if it is there, and say whether it was. -/
def accept (token : String) : Rule Bool := do
  if token.toList.isPrefixOf (← rest) then
    move token.utf8ByteSize
    return true
  else return false

/-- Go on only if a token is there, without reading it. -/
def ahead (token : String) : Rule Unit := do
  if token.toList.isPrefixOf (← rest) then return ()
  else
    expected (.text token)
    failure

/-- Read one character that satisfies `p`. -/
def eatIf (e : Expected) (p : Char → Bool) : Rule Unit := do
  match (← rest).head? with
  | some c => if p c then move c.utf8Size else do expected e; failure
  | none => do expected e; failure

/-- Read one character if `more` holds of what is left. -/
def charIf (more : List Char → Bool) : Rule Char := do
  match ← rest with
  | c :: cs =>
    if more (c :: cs) then
      move c.utf8Size
      return c
    else failure
  | [] => failure

/-- Read one character after the other while `more` holds of what is left. -/
def skipWhile (more : List Char → Bool) : Rule Unit := do
  let _ ← rounds (charIf more) pure

/-- Read the longest run of characters that satisfy `p`, possibly none. -/
def eatWhile (p : Char → Bool) : Rule (List Char) := do
  let start ← mark
  skipWhile fun cs => cs.head?.any p
  slice start

end Scanner

end Stencil

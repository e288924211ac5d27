/-
# Stencil.Parse.Parser -- readings with ordered choice

A `Parser` reads from a cursor and answers in one of three ways: it matched, with
a value and the cursor behind what it read; it failed, and another reading may be
tried from where it started; or the nesting became too deep, which ends the whole
parse. With the answer comes the frontier of what was missing on the way, on
success too.

There is no position to rewind: a parser that failed has no cursor to leave
behind, and whoever tries the next one still holds the old cursor. For the same
reason there is no flag for excessive nesting; the answer itself carries it past
every alternative.

`<|>` is ordered choice and commits to the first match. `many` repeats a parser
until it fails and never fails itself. It takes no more rounds than there are
characters left and one; a parser that reads at least one character each time never
gets to feel this bound, which is `many_eq` in `Stencil.Parse.Repetition`.
-/
import Stencil.Parse.Frontier

namespace Stencil.Parse

/-! ## Cursors and answers -/

/-- A place in a text, counted in characters, and what is left from there. -/
structure Cursor where
  place : Nat
  rest : List Char
deriving DecidableEq

/-- The cursor `n` characters further on, with what is left there. -/
def Cursor.advance (c : Cursor) (n : Nat) (rest : List Char) : Cursor := ⟨c.place + n, rest⟩

/-- The three ways in which a reading ends. -/
inductive Outcome (α : Type) where
  | matched (value : α) (next : Cursor)
  | failed
  | tooDeep

/-- How a reading ended, and what it missed on the way. -/
structure Reply (α : Type) where
  outcome : Outcome α
  frontier : Frontier

/-- The same answer after an earlier reading that missed `f`. -/
def Reply.after {α : Type} (f : Frontier) (r : Reply α) : Reply α :=
  ⟨r.outcome, f.merge r.frontier⟩

/-- A reading that starts at a cursor. -/
@[ext] structure Parser (α : Type) where
  reply : Cursor → Reply α

namespace Parser

variable {α β : Type}

/-! ## Sequence and choice -/

/-- Read nothing. -/
@[inline] def done (a : α) : Parser α := ⟨fun c => ⟨.matched a c, .none⟩⟩

/-- Read with `p` and give its value to `f`. -/
@[inline] def map (f : α → β) (p : Parser α) : Parser β := ⟨fun c =>
  match p.reply c with
  | ⟨.matched a next, missed⟩ => ⟨.matched (f a) next, missed⟩
  | ⟨.failed, missed⟩ => ⟨.failed, missed⟩
  | ⟨.tooDeep, missed⟩ => ⟨.tooDeep, missed⟩⟩

/-- Read with `p`, then go on behind it. -/
@[inline] def andThen (p : Parser α) (f : α → Parser β) : Parser β := ⟨fun c =>
  match p.reply c with
  | ⟨.matched a next, missed⟩ => ((f a).reply next).after missed
  | ⟨.failed, missed⟩ => ⟨.failed, missed⟩
  | ⟨.tooDeep, missed⟩ => ⟨.tooDeep, missed⟩⟩

/-- Read with `p`; if that fails, read with `q` from the same place. -/
@[inline] def orElse (p : Parser α) (q : Unit → Parser α) : Parser α := ⟨fun c =>
  match p.reply c with
  | ⟨.matched a next, missed⟩ => ⟨.matched a next, missed⟩
  | ⟨.failed, missed⟩ => ((q ()).reply c).after missed
  | ⟨.tooDeep, missed⟩ => ⟨.tooDeep, missed⟩⟩

/-- Fail without a note. -/
@[inline] def fail : Parser α := ⟨fun _ => ⟨.failed, .none⟩⟩

/-- Fail with a note of what is missing here. -/
@[inline] def want (e : Expected) : Parser α := ⟨fun c => ⟨.failed, .missing c.place e⟩⟩

/-- Give up the whole parse because of its nesting. -/
@[inline] def tooDeep : Parser α := ⟨fun _ => ⟨.tooDeep, .none⟩⟩

instance : Monad Parser where
  map := map
  pure := done
  bind := andThen

instance : Alternative Parser where
  failure := fail
  orElse := orElse

/-- Read with `p` if it matches here, else nothing. -/
@[inline] def optional (p : Parser α) : Parser (Option α) := some <$> p <|> pure none

/-! ## Repetition -/

/-- The rounds of `many`, with what was read so far, last first, and what was
missed so far; at most one round more than `bound` is long. -/
def manyFrom (p : Parser α) (bound : List Char) (c : Cursor) (read : List α)
    (missed : Frontier) : Reply (List α) :=
  match p.reply c with
  | ⟨.matched a next, f⟩ =>
    match bound with
    | [] => ⟨.matched (a :: read).reverse next, missed.merge f⟩
    | _ :: bound => manyFrom p bound next (a :: read) (missed.merge f)
  | ⟨.failed, f⟩ => ⟨.matched read.reverse c, missed.merge f⟩
  | ⟨.tooDeep, f⟩ => ⟨.tooDeep, missed.merge f⟩
termination_by structural bound

/-- Read with `p` as often as it matches. -/
def many (p : Parser α) : Parser (List α) := ⟨fun c => manyFrom p c.rest c [] .none⟩

/-! ## Characters and tokens -/

/-- Read the longest run of characters that satisfy `p`, possibly none. -/
def takeWhile (p : Char → Bool) : Parser (List Char) := ⟨fun c =>
  let taken := c.rest.takeWhile p
  ⟨.matched taken (c.advance taken.length (c.rest.dropWhile p)), .none⟩⟩

/-- Read one character that satisfies `p`. -/
def one (e : Expected) (p : Char → Bool) : Parser Char := ⟨fun c =>
  match c.rest with
  | [] => (want e).reply c
  | x :: rest => if p x then ⟨.matched x (c.advance 1 rest), .none⟩ else (want e).reply c⟩

/-- Go on only if the next character does not satisfy `p`. -/
def notBefore (p : Char → Bool) : Parser Unit := ⟨fun c =>
  match c.rest with
  | [] => (done ()).reply c
  | x :: _ => if p x then fail.reply c else (done ()).reply c⟩

/-- What a text has behind the given beginning, if it begins so. -/
def strip? : (beginning cs : List Char) → Option (List Char)
  | [], cs => some cs
  | x :: beginning, y :: cs => if x = y then strip? beginning cs else none
  | _ :: _, [] => none

theorem strip?_eq_some_iff {beginning cs rest : List Char} :
    strip? beginning cs = some rest ↔ cs = beginning ++ rest := by
  induction beginning generalizing cs with
  | nil => simp [strip?, eq_comm]
  | cons x beginning ih =>
    cases cs with
    | nil => simp [strip?]
    | cons y cs =>
      by_cases h : x = y
      · simp [strip?, h, ih]
      · simp [strip?, h, Ne.symm h]

/-- Read a token that has to be there. -/
def token (s : String) : Parser Unit := ⟨fun c =>
  match strip? s.toList c.rest with
  | some rest => ⟨.matched () (c.advance s.length rest), .none⟩
  | none => (want (.text s)).reply c⟩

/-- Read a token if it is there, and say whether it was. Its absence is nothing
that messages speak of. -/
def accept (s : String) : Parser Bool := ⟨fun c =>
  match strip? s.toList c.rest with
  | some rest => ⟨.matched true (c.advance s.length rest), .none⟩
  | none => ⟨.matched false c, .none⟩⟩

/-! ## What the combinations answer -/

variable {p : Parser α} {c : Cursor}

@[simp] theorem reply_pure (a : α) : (pure a : Parser α).reply c = ⟨.matched a c, .none⟩ := rfl

@[simp] theorem reply_map (f : α → β) : (f <$> p).reply c =
    match p.reply c with
    | ⟨.matched a next, missed⟩ => ⟨.matched (f a) next, missed⟩
    | ⟨.failed, missed⟩ => ⟨.failed, missed⟩
    | ⟨.tooDeep, missed⟩ => ⟨.tooDeep, missed⟩ := rfl

@[simp] theorem reply_bind (f : α → Parser β) : (p >>= f).reply c =
    match p.reply c with
    | ⟨.matched a next, missed⟩ => ((f a).reply next).after missed
    | ⟨.failed, missed⟩ => ⟨.failed, missed⟩
    | ⟨.tooDeep, missed⟩ => ⟨.tooDeep, missed⟩ := rfl

@[simp] theorem reply_orElse (q : Parser α) : (p <|> q).reply c =
    match p.reply c with
    | ⟨.matched a next, missed⟩ => ⟨.matched a next, missed⟩
    | ⟨.failed, missed⟩ => (q.reply c).after missed
    | ⟨.tooDeep, missed⟩ => ⟨.tooDeep, missed⟩ := rfl

end Parser

end Stencil.Parse

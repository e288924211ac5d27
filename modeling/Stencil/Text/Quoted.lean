/-
# Stencil.Text.Quoted -- one character between quotes

Messages show a single character between single quotes. What cannot be shown as
itself is escaped: the character zero, tab, line feed, carriage return, backslash
and the single quote by one letter or sign after a backslash, every other hidden
character by its code point in lower-case hexadecimal between braces. The double
quote needs no escape here.
-/
import Stencil.Text.Hidden

namespace Stencil.Text

/-- A code point as an escape, in hexadecimal without leading zeros. -/
def codePointEscape (c : Char) : String :=
  "\\u\x7b" ++ String.ofList (Nat.toDigits 16 c.toNat) ++ "\x7d"

/-- A character as it stands between the quotes. -/
def escape (c : Char) : String :=
  match c with
  | '\x00' => "\\0"
  | '\t' => "\\t"
  | '\n' => "\\n"
  | '\r' => "\\r"
  | '\\' => "\\\\"
  | '\'' => "\\'"
  | _ => if isHidden c then codePointEscape c else c.toString

/-- A character between single quotes. -/
def quoted (c : Char) : String := "'" ++ escape c ++ "'"

end Stencil.Text

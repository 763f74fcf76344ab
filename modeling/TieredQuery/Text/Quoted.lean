import TieredQuery.Text.Hex
import TieredQuery.Text.Printable

/-!
# Quoted text in messages

A text that a message quotes stands between double quotes. The quote, the backslash, tab, line
feed, carriage return and the zero character are written with a letter or sign after a
backslash; every other character without a mark of its own by its number in hexadecimal.
-/

namespace TieredQuery.Text.Quoted

/-- A character inside the quotes. -/
def escape (c : Char) : List Char :=
  match c with
  | '"' => ['\\', '"']
  | '\\' => ['\\', '\\']
  | '\t' => ['\\', 't']
  | '\n' => ['\\', 'n']
  | '\r' => ['\\', 'r']
  | '\x00' => ['\\', '0']
  | c =>
    if Printable.isShown c then [c]
    else '\\' :: 'u' :: '{' :: (Nat.toDigits 16 c.toNat ++ ['}'])

/-- The quoted text. -/
def quote (s : String) : String := String.ofList ('"' :: (s.toList.flatMap escape ++ ['"']))

end TieredQuery.Text.Quoted

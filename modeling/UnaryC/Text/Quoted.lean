import UnaryC.Text.Visible

/-!
Quoted text: double quotes around the characters, with a backslash escape for the quote, the
backslash, line feed, carriage return, tab, NUL and every character that is not visible.
-/
namespace UnaryC.Text.Quoted

/-- The escape that gives a character by its code point, in lower-case hexadecimal without
padding. -/
def byNumber (c : Char) : List Char :=
  ['\\', 'u', '\x7b'] ++ Nat.toDigits 16 c.toNat ++ ['\x7d']

def escape (c : Char) : List Char :=
  if c = '"' ∨ c = '\\' then ['\\', c]
  else if c = '\n' then ['\\', 'n']
  else if c = '\r' then ['\\', 'r']
  else if c = '\t' then ['\\', 't']
  else if c = '\x00' then ['\\', '0']
  else if isVisible c then [c]
  else byNumber c

def quote (s : String) : String :=
  String.ofList ('"' :: s.toList.flatMap escape ++ ['"'])

end UnaryC.Text.Quoted
